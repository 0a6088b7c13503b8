import FiniteStructures.Proofs.Sat.Padding

/-!
Clauses that are refused.  A clause is refused at the first of its variables that was never minted, and
the marks of those before it stay.  So a variable that occurs nowhere else counts as one that occurs,
and it is missing from the formula when that is read,

    j.Lacks lost      exactly the lost variables occur in no clause of the formula that is read

A clause loses the variables before the one it is refused at, an exclusive or that of its first operand
at most, and a disjunction none (`Instance.Reached.refusals`).
-/

namespace FiniteStructures

open Compile Instance Literal

namespace Compile

variable {i j : Instance} {a b : Literal} {v : Nat}

theorem marking_of_not_minted (marked : i.Marked) {l : Literal} (hl : ¬ i.Minted l) :
    i.marking [l] = i := by
  show { i with occurs := i.occurs.setIfInBounds l.var true } = i
  rw [Array.setIfInBounds_eq_of_size_le]
  exact Nat.not_lt.mp fun small => hl (marked.lt_iff.mp small)

/-- A clause is refused at its first variable that was never minted. -/
theorem exec_addClause_refused (marked : i.Marked) (before : Clause) {l : Literal} (after : Clause)
    (hb : ∀ k ∈ before, i.Minted k) (hl : ¬ i.Minted l) :
    exec (addClause (before ++ l :: after)) i =
      (Outcome.breach (.unmintedVariable l.var), i.marking before) :=
  exec_bind_error (exec_notes_refused (fun k hk => marked.lt_iff.mpr (hb k hk))
    (Nat.not_lt.mp fun small => hl (marked.lt_iff.mp small)))

/-- If it is the first one of all, the formula stays as it is. -/
theorem exec_addClause_head (marked : i.Marked) {l : Literal} (hl : ¬ i.Minted l) (c : Clause) :
    exec (addClause (l :: c)) i = (Outcome.breach (.unmintedVariable l.var), i) :=
  exec_addClause_refused marked [] c (List.forall_mem_nil _) hl

theorem ensure_refused {l : Literal} (marked : i.Marked)
    (h : exec (ensure l) i = (Outcome.breach (.unmintedVariable v), j)) :
    j = i ∧ i.numVars < varLimit := by
  by_cases hl : i.Minted l
  · cases (exec_ensure (marked.lt_iff.mpr hl)).symm.trans h
  · unfold ensure at h
    rw [exec_ite, exec_addClause_head marked hl] at h
    split at h
    · exact ⟨(Prod.mk.inj h).2.symm, room_of_not_minted hl⟩
    · cases h

/-! ## Gates -/

/-- Over minted variables the clauses of a gate are not refused. -/
theorem mint_not_refused (marked : i.Marked) (g : Gate) (ha : i.mint.Minted a)
    (hb : i.mint.Minted b) :
    exec (g.mint a b) i ≠ (Outcome.breach (.unmintedVariable v), j) := by
  intro refused
  by_cases large : a.value = least ∨ b.value = least ∨ ¬ i.Spare
  · have overflow := (Gate.exec_mint_overflow marked g ha hb large).1
    rw [refused] at overflow
    cases overflow
  · obtain ⟨hla, hlb, spare⟩ : a.value ≠ least ∧ b.value ≠ least ∧ i.Spare := by
      simpa only [not_or, Classical.not_not] using large
    cases (Gate.exec_mint_ok marked g ha hb hla hlb spare).symm.trans refused

/-- What is refused has minted its variable. -/
theorem fresh_of_refused {α : Type} {f : Literal → Compile α}
    (h : exec (fresh >>= f) i = (Outcome.breach (.unmintedVariable v), j)) :
    exec (f (ofVar i.numVars)) i.mint = (Outcome.breach (.unmintedVariable v), j) := by
  rcases exec_fresh_cases i with ⟨-, minted⟩ | ⟨-, full⟩
  · rwa [exec_bind_ok minted] at h
  · rw [exec_bind_error full] at h
    cases h

/-- What is refused has negated its operand. -/
theorem neg_of_refused {α : Type} {f : Literal → Compile α} {l : Literal}
    (h : exec (liftM l.neg >>= f) i = (Outcome.breach (.unmintedVariable v), j)) :
    l.value ≠ least ∧ exec (f l.opposite) i = (Outcome.breach (.unmintedVariable v), j) := by
  rcases neg_cases l with ⟨ne, hn⟩ | ⟨-, hn⟩
  · rw [exec_bind_lift hn] at h
    exact ⟨ne, h⟩
  · rw [exec_bind_lift_error hn] at h
    cases h

/-- Each operand of a disjunction is the first literal of a clause before it is a later one, so no
marks are left. -/
theorem mintOr_refused (marked : i.Marked)
    (h : exec (mintOr a b) i = (Outcome.breach (.unmintedVariable v), j)) :
    i.mint.numVars < varLimit ∧
      (j = i.mint ∨ ∃ c, (∀ l ∈ c, i.mint.Minted l) ∧ j = i.mint.record c) := by
  have run := h
  unfold mintOr at run
  obtain ⟨-, run⟩ := neg_of_refused (fresh_of_refused run)
  by_cases ha : i.mint.Minted a.opposite
  · have minted : ∀ l ∈ [a.opposite, ofVar i.numVars], i.mint.Minted l :=
      List.forall_mem_cons.mpr ⟨ha, List.forall_mem_singleton.mpr (var_ofVar_le _)⟩
    rw [exec_bind_ok (exec_addClause fun l hl => marked.mint.lt_iff.mpr (minted l hl))] at run
    obtain ⟨-, run⟩ := neg_of_refused run
    by_cases hb : i.mint.Minted b.opposite
    · rw [Minted, var_opposite] at ha hb
      exact absurd h (mint_not_refused marked .or ha hb)
    · rw [exec_bind_error (exec_addClause_head (marked.mint.record _) hb _)] at run
      exact ⟨room_of_not_minted hb, .inr ⟨_, minted, (Prod.mk.inj run).2.symm⟩⟩
  · rw [exec_bind_error (exec_addClause_head marked.mint ha _)] at run
    exact ⟨room_of_not_minted ha, .inl (Prod.mk.inj run).2.symm⟩

/-- The first clause of an exclusive or has both operands, so it is the one that is refused. -/
theorem mintXor_refused (marked : i.Marked)
    (h : exec (mintXor a b) i = (Outcome.breach (.unmintedVariable v), j)) :
    a.value ≠ least ∧ b.value ≠ least ∧ i.mint.numVars < varLimit ∧
      j = i.mint.marking [a.opposite] := by
  have run := h
  unfold mintXor at run
  obtain ⟨va, run⟩ := neg_of_refused (fresh_of_refused run)
  obtain ⟨vb, run⟩ := neg_of_refused run
  obtain ⟨-, run⟩ := neg_of_refused run
  refine ⟨va, vb, ?_⟩
  by_cases ha : i.mint.Minted a.opposite
  · by_cases hb : i.mint.Minted b.opposite
    · rw [Minted, var_opposite] at ha hb
      exact absurd h (mint_not_refused marked .xor ha hb)
    · have first : exec (addClause [a.opposite, b.opposite, (ofVar i.numVars).opposite]) i.mint = _ :=
        exec_addClause_refused marked.mint [a.opposite] _ (List.forall_mem_singleton.mpr ha) hb
      rw [exec_bind_error first] at run
      exact ⟨room_of_not_minted hb, (Prod.mk.inj run).2.symm⟩
  · rw [exec_bind_error (exec_addClause_head marked.mint ha _)] at run
    rw [marking_of_not_minted marked.mint ha]
    exact ⟨room_of_not_minted ha, (Prod.mk.inj run).2.symm⟩

/-- A connective is refused by the gate of its operands. -/
theorem connect_refused {g : Gate}
    (h : exec (g.connect a b) i = (Outcome.breach (.unmintedVariable v), j)) :
    exec (g.mint (g.key a b).1 (g.key a b).2) i = (Outcome.breach (.unmintedVariable v), j) := by
  rcases Gate.connect_cases g a b with same | ⟨-, stop⟩
  · rw [same] at h
    cases folded : g.folded? a b with
    | some c =>
      rw [Gate.resolve_folded folded] at h
      cases h
    | none =>
      rw [Gate.resolve_gate folded] at h
      have signs {c : Literal} : g.signed a b c ≠ Outcome.breach (.unmintedVariable v) := by
        intro e
        rcases neg_cases c with ⟨-, hc⟩ | ⟨-, hc⟩
        · cases hc.symm.trans (Gate.signed_error e)
        · cases hc.symm.trans (Gate.signed_error e)
      rcases Gate.exec_get_cases g (g.key a b) i with
        ⟨c, -, run⟩ | ⟨-, ⟨e, k, mint, run⟩ | ⟨c, k, -, run⟩⟩
      · rw [exec_bind_ok run] at h
        exact absurd (congrArg Prod.fst h) signs
      · rw [exec_bind_error run] at h
        exact mint.trans h
      · rw [exec_bind_ok run] at h
        exact absurd (congrArg Prod.fst h) signs
  · cases (stop i).symm.trans h

/-! ## Programs -/

/-- A disjunction that is refused leaves no marks. -/
theorem keeps_mintOr (a b : Literal) : Keeps (fun _ => False) (mintOr a b) := by
  intro i tidy
  obtain ⟨k, grows, hk, same | ⟨-, -, ⟨v, refused⟩, -⟩, room⟩ := keeps_mint .or a b i tidy
  · exact ⟨k, grows, hk, .inl same, room⟩
  · obtain ⟨room, same | ⟨c, minted, same⟩⟩ := mintOr_refused tidy.marked (Prod.ext refused rfl)
    · exact ⟨i.mint, grows_mint i, tidy.mint, .inl same, fun _ => room⟩
    · exact ⟨_, (grows_mint i).trans (grows_recordAll _ [c]), tidy.mint.record minted, .inl same,
        fun _ => room⟩

/-- An exclusive or that is refused leaves one mark. -/
theorem keeps_mintXor (a b : Literal) : Keeps (fun before => ∃ l, before = [l]) (mintXor a b) := by
  intro i tidy
  obtain ⟨k, grows, hk, same | ⟨-, -, ⟨v, refused⟩, -⟩, room⟩ := keeps_mint .xor a b i tidy
  · exact ⟨k, grows, hk, .inl same, room⟩
  · obtain ⟨-, -, room, same⟩ := mintXor_refused tidy.marked (Prod.ext refused rfl)
    exact ⟨i.mint, grows_mint i, tidy.mint, .inr ⟨_, ⟨_, rfl⟩, ⟨v, refused⟩, same⟩, fun _ => room⟩

end Compile

namespace Instance

variable {i j : Instance} {v : Nat}

theorem Tidy.lacks_addClause (tidy : i.Tidy) {c : Clause}
    (h : exec (addClause c) i = (Outcome.breach (.unmintedVariable v), j)) :
    j.clauses = i.clauses ∧ ∃ before l after, c = before ++ l :: after ∧ l.var = v ∧
      (∀ k ∈ before, i.Minted k) ∧ ¬ i.Minted l ∧
      j.Lacks fun w => (∃ k ∈ before, k.var = w) ∧ ¬ i.cnf.Mentions w := by
  rcases exec_addClause_cases c i with ⟨-, run⟩ | ⟨before, l, after, rfl, hb, hl, run⟩
  · cases run.symm.trans h
  · cases run.symm.trans h
    have unminted : ¬ i.Minted l := fun minted => Nat.not_lt.mpr hl (tidy.marked.lt_iff.mpr minted)
    exact ⟨rfl, before, l, after, rfl, rfl, fun k hk => tidy.marked.lt_iff.mp (hb k hk), unminted,
      tidy.lacks_marking (room_of_not_minted unminted) before⟩

theorem Tidy.lacks_xor (tidy : i.Tidy) {a b : Literal}
    (h : exec (xor a b) i = (Outcome.breach (.unmintedVariable v), j)) :
    j.clauses = i.clauses ∧ j.Lacks fun w => w = min a.var b.var ∧ ¬ i.cnf.Mentions w := by
  have mint := connect_refused (g := .xor) h
  obtain ⟨hx, hy, room, rfl⟩ := mintXor_refused tidy.marked mint
  obtain ⟨ha, hb⟩ := Gate.ne_least_key.mp ⟨hx, hy⟩
  refine ⟨rfl, (tidy.mint.lacks_marking room _).congr fun w _ => and_congr_left fun _ => ?_⟩
  rw [← Gate.var_key_xor ha hb]
  simp [eq_comm]

/-- Nothing is lost where no marks are left. -/
theorem Tidy.lacks_of_keeps {α : Type} {x : Compile α} (tidy : i.Tidy)
    (keeps : Keeps (fun _ => False) x)
    (h : exec x i = (Outcome.breach (.unmintedVariable v), j)) : j.Lacks fun _ => False := by
  obtain ⟨k, -, hk, same | ⟨-, fits, -⟩, room⟩ := keeps i tidy
  · rw [h] at same room
    obtain rfl : j = k := same
    exact hk.lacks (room ⟨v, rfl⟩)
  · exact fits.elim

/-- A refused clause is not recorded, but when the formula is read, some variables are missing: those
that stand before the one it was refused at and occur nowhere else.  A refused requirement leaves no
trace, and a disjunction loses nothing.  An exclusive or loses its operand with the smaller variable at
most; so does a program, for the exclusive or that it ends at. -/
theorem Reached.refusals (reached : i.Reached) (v : Nat) (j : Instance) :
    (∀ c, exec (addClause c) i = (Outcome.breach (.unmintedVariable v), j) →
      j.clauses = i.clauses ∧ ∃ before l after, c = before ++ l :: after ∧ l.var = v ∧
        (∀ k ∈ before, i.Minted k) ∧ ¬ i.Minted l ∧
        j.Lacks fun w => (∃ k ∈ before, k.var = w) ∧ ¬ i.cnf.Mentions w) ∧
    (∀ l, exec (ensure l) i = (Outcome.breach (.unmintedVariable v), j) →
      j = i ∧ j.Lacks fun _ => False) ∧
    (∀ a b, exec (Compile.or a b) i = (Outcome.breach (.unmintedVariable v), j) →
      j.Lacks fun _ => False) ∧
    (∀ a b, exec (xor a b) i = (Outcome.breach (.unmintedVariable v), j) →
      j.clauses = i.clauses ∧ j.Lacks fun w => w = min a.var b.var ∧ ¬ i.cnf.Mentions w) ∧
    ∀ (program : List StraightLine.Instruction) (operands : List Literal),
      exec (StraightLine.run program operands : Compile (List Literal)) i =
        (Outcome.breach (.unmintedVariable v), j) →
      ((∀ instr ∈ program, Gate.xor ∉ instr.gates) → j.Lacks fun _ => False) ∧
      ∃ k w, i.Grows k ∧ j.clauses = k.clauses ∧ j.Lacks fun u => u = w ∧ ¬ k.cnf.Mentions u := by
  have tidy := reached.tidy
  have disjunctive : Logical (· = .or) (Keeps fun _ => False) := by
    refine logical_keeps fun g hg a b => ?_
    rw [hg]
    exact keeps_mintOr a b
  refine ⟨fun c h => tidy.lacks_addClause h, fun l h => ?_, fun a b h => ?_,
    fun a b h => tidy.lacks_xor h, fun program operands h => ⟨fun simple => ?_, ?_⟩⟩
  · obtain ⟨rfl, room⟩ := ensure_refused tidy.marked h
    exact ⟨rfl, tidy.lacks room⟩
  · exact tidy.lacks_of_keeps (disjunctive.connect .or rfl a b) h
  · refine tidy.lacks_of_keeps (disjunctive.program program (fun instr hi g hg => ?_) operands) h
    cases g with
    | or => rfl
    | xor => exact absurd hg (simple instr hi)
  · have logical : Logical (fun _ => True) (Keeps fun before => ∃ l, before = [l]) := by
      refine logical_keeps fun g _ a b => ?_
      cases g with
      | or => exact (keeps_mintOr a b).mono fun _ => False.elim
      | xor => exact keeps_mintXor a b
    have kept := logical.program program (fun _ _ _ _ => trivial) operands i tidy
    rw [h] at kept
    obtain ⟨k, grows, hk, rfl | ⟨-, ⟨l, rfl⟩, -, rfl⟩, room⟩ := kept
    · refine ⟨j, 0, grows, rfl, (hk.lacks (room ⟨v, rfl⟩)).congr fun u one => ?_⟩
      simp only [false_iff, not_and]
      omega
    · refine ⟨k, l.var, grows, rfl, (hk.lacks_marking (room ⟨v, rfl⟩) [l]).congr fun u _ => ?_⟩
      simp only [List.mem_singleton, exists_eq_left, eq_comm (a := u)]

/-- A clause of two variables that is refused at a third one: the first one is lost. -/
theorem lacks_first : ∃ j, exec (addClause [ofVar 1, ofVar 8, ofVar 2])
    (initial.after [.fresh, .fresh]) = (Outcome.breach (.unmintedVariable 9), j) ∧
      j.Lacks fun w => w = 2 := by
  have reached : (initial.after [.fresh, .fresh]).Reached :=
    (Reached.initial.request .fresh nofun).request .fresh nofun
  have refused : exec (addClause [ofVar 1, ofVar 8, ofVar 2]) (initial.after [.fresh, .fresh]) =
      (Outcome.breach (.unmintedVariable 9),
        (initial.after [.fresh, .fresh]).marking [ofVar 1]) := rfl
  obtain ⟨-, before, l, after, split, var, minted, -, lacks⟩ :=
    (Reached.refusals reached _ _).1 _ refused
  have first : before = [ofVar 1] := by
    cases before with
    | nil =>
      obtain ⟨rfl, -⟩ := List.cons.inj split
      exact absurd var (by decide)
    | cons k before =>
      obtain ⟨rfl, rest⟩ := List.cons.inj split
      cases before with
      | nil => rfl
      | cons k before =>
        obtain ⟨rfl, -⟩ := List.cons.inj rest
        exact absurd (minted (ofVar 8) (by simp)) (by decide)
  refine ⟨_, refused, lacks.congr fun w _ => ?_⟩
  have unused : ¬ (initial.after [.fresh, .fresh]).cnf.Mentions 2 := by decide
  rw [first]
  constructor
  · rintro ⟨⟨k, hk, rfl⟩, -⟩
    rw [List.mem_singleton.mp hk]
    rfl
  · rintro rfl
    exact ⟨⟨_, List.mem_singleton_self _, rfl⟩, unused⟩

/-- The exclusive or of a variable that occurs nowhere and one that was never minted. -/
theorem xor_loses_first : ∃ j k,
    exec (xor (ofVar 1) (ofVar 8)) (initial.after [.fresh]) =
      (Outcome.breach (.unmintedVariable 9), j) ∧
    exec formula j = (.ok k.cnf, k) ∧
    k.cnf = ⟨3, #[[top], [ofVar 2, (ofVar 2).opposite]]⟩ ∧ ¬ k.cnf.Mentions 2 := by
  have new : Gate.xor.find? (initial.after [.fresh]) (ofVar 1, ofVar 8) = none :=
    Std.HashMap.getElem?_empty
  have refused : exec (Gate.xor.connect (ofVar 1) (ofVar 8)) (initial.after [.fresh]) =
      (Outcome.breach (.unmintedVariable 9),
        (initial.after [.fresh]).mint.marking [(ofVar 1).opposite]) := by
    rw [Gate.exec_connect (by decide) (by decide), Gate.resolve_gate (by decide)]
    exact exec_bind_error ((Gate.exec_get_new new).trans rfl)
  refine ⟨_, _, refused, rfl, rfl, by decide⟩

end Instance

end FiniteStructures
