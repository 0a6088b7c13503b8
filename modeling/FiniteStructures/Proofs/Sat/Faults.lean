import FiniteStructures.Proofs.Effects
import FiniteStructures.Proofs.Sat.Building

/-!
The faults of calls to a formula.  Whatever literals it is given, a call is ended only by a number that
needs more than 32 bits, of a variable or of an opposite literal, or by a variable that was never minted
(`Compile.Broken`); a library error is not among these.
-/

namespace FiniteStructures

instance : Runnable Compile Instance where
  run := Compile.exec
  run_pure := Compile.exec_pure
  run_lift _ _ := rfl
  run_bind x f i := by
    rw [Compile.exec_bind]
    rcases x.exec i with ⟨e | a, j⟩ <;> rfl

namespace Compile

variable {α β : Type}

/-- A number would need more than 32 bits, or a variable was never minted. -/
def Broken (e : Fault) : Prop := e = .overflow ∨ ∃ v, e = .misuse (.unmintedVariable v)

theorem fails_ok {P : Fault → Prop} {x : Compile α} (h : ∀ i, ∃ a, (exec x i).1 = .ok a) :
    Fails P x := by
  intro i e he
  obtain ⟨a, ha⟩ := h i
  cases ha.symm.trans he

theorem broken_of_neg {l : Literal} {e : Fault} (h : l.neg = .error e) : Broken e := by
  rcases Literal.neg_cases l with ⟨-, hl⟩ | ⟨-, hl⟩
  · cases hl.symm.trans h
  · cases hl.symm.trans h
    exact .inl rfl

theorem broken_of_fresh {i : Instance} {e : Fault} (h : (exec fresh i).1 = .error e) :
    Broken e := by
  rcases exec_fresh_cases i with ⟨-, run⟩ | ⟨-, run⟩ <;> rw [run] at h <;> cases h
  exact .inl rfl

theorem broken_of_note {l : Literal} {i : Instance} {e : Fault}
    (h : (exec (note l) i).1 = .error e) : Broken e := by
  rw [exec_note] at h
  split at h
  · cases h
  · cases h
    exact .inr ⟨l.var, rfl⟩

variable {P : Fault → Prop}

/-- A property of these faults is one of all that calls end with. -/
theorem closed_fails (broken : ∀ e, Broken e → P e) : Closed (Fails P) where
  pure _ := .pure _
  bind := .bind
  get := fails_ok fun i => ⟨i, rfl⟩
  neg _ := .lift fun e he => broken e (broken_of_neg he)
  fresh _ e he := broken e (broken_of_fresh he)
  addClause c := .bind (.forM (fun _ _ e he => broken e (broken_of_note he)) c) fun _ =>
    fails_ok fun _ => ⟨(), rfl⟩

theorem fails_gate (broken : ∀ e, Broken e → P e) (g : Gate) (key : Literal × Literal) :
    Fails P (g.get key) := by
  intro i e
  show (exec (g.get key) i).1 = _ → _
  cases known : g.find? i key with
  | some c =>
    rw [Gate.exec_get_known known]
    exact nofun
  | none =>
    rw [Gate.exec_get_new known]
    refine Fails.bind ((closed_fails broken).mint g key.1 key.2) (fun c => ?_) i e
    exact fails_ok fun _ => ⟨c, rfl⟩

end Compile

end FiniteStructures
