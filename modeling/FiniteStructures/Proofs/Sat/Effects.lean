import FiniteStructures.Sat.Instance
import FiniteStructures.Proofs.Sat.Truth

/-!
What each call does to a formula under construction.  A computation is run by `Compile.exec`; the
first part says how `exec` passes through the ways of building computations, the second one gives
for each call the formula it leaves.

    i.mint               one variable more, that no clause mentions
    i.record c           one clause more, whose variables now occur
    i.recordAll cs       the same for several clauses
    i.marking c          no clause more, but the variables of one are marked

A clause is recorded or refused (`exec_addClause_cases`); reading the formula records the tautologies
of its idle variables, if 32 bits are enough for these (`exec_formula`, `formula_ok`).
-/

namespace FiniteStructures

namespace Compile

variable {α β : Type}

theorem exec_pure (a : α) (i : Instance) : exec (pure a) i = (.ok a, i) := rfl

theorem exec_get (i : Instance) : exec get i = (.ok i, i) := rfl

theorem exec_bind (x : Compile α) (f : α → Compile β) (i : Instance) :
    exec (x >>= f) i =
      match exec x i with
      | (.ok a, j) => exec (f a) j
      | (.error e, j) => (.error e, j) := by
  show (ExceptT.bindCont f (exec x i).1 : StateM Instance _) (exec x i).2 = _
  rcases exec x i with ⟨e | a, j⟩ <;> rfl

theorem exec_bind_ok {x : Compile α} {f : α → Compile β} {i j : Instance} {a : α}
    (h : exec x i = (.ok a, j)) : exec (x >>= f) i = exec (f a) j := by
  rw [exec_bind, h]

theorem exec_bind_error {x : Compile α} {f : α → Compile β} {i j : Instance} {e : Fault}
    (h : exec x i = (.error e, j)) : exec (x >>= f) i = (.error e, j) := by
  rw [exec_bind, h]

theorem exec_bind_lift {o : Outcome α} {f : α → Compile β} {i : Instance} {a : α}
    (h : o = .ok a) : exec (liftM o >>= f) i = exec (f a) i := by
  rw [h]
  rfl

theorem exec_bind_lift_error {o : Outcome α} {f : α → Compile β} {i : Instance} {e : Fault}
    (h : o = .error e) : exec (liftM o >>= f) i = (.error e, i) := by
  rw [h]
  rfl

theorem exec_ite (c : Prop) [Decidable c] (x y : Compile α) (i : Instance) :
    exec (if c then x else y) i = if c then exec x i else exec y i := by
  split <;> rfl

end Compile

/-! ## Variables and clauses -/

namespace Instance

/-- The literal belongs to a variable of the formula. -/
def Minted (i : Instance) (l : Literal) : Prop := l.var ≤ i.numVars

instance (i : Instance) (l : Literal) : Decidable (i.Minted l) :=
  inferInstanceAs (Decidable (l.var ≤ i.numVars))

/-- The first formula speaks of truth only. -/
theorem minted_initial : ∀ c ∈ initial.clauses.toList, ∀ l ∈ c, initial.Minted l := by
  intro c hc l hl
  obtain rfl := List.mem_singleton.mp hc
  obtain rfl := List.mem_singleton.mp hl
  exact Nat.le_refl 1

/-- The formula with one variable more. -/
def mint (i : Instance) : Instance :=
  { i with numVars := i.numVars + 1, occurs := i.occurs.push false }

/-- The marks after the variables of a clause were noted. -/
def mark (occurs : Array Bool) (c : Clause) : Array Bool :=
  c.foldl (fun occurs l => occurs.setIfInBounds l.var true) occurs

/-- The formula with the variables of a clause marked. -/
def marking (i : Instance) (c : Clause) : Instance := { i with occurs := mark i.occurs c }

/-- The formula with one clause more. -/
def record (i : Instance) (c : Clause) : Instance :=
  { i with occurs := mark i.occurs c, clauses := i.clauses.push c }

/-- There is a mark for each variable, and one that belongs to none. -/
def Marked (i : Instance) : Prop := i.occurs.size = i.numVars + 1

@[simp] theorem size_mark (occurs : Array Bool) (c : Clause) :
    (mark occurs c).size = occurs.size := by
  induction c generalizing occurs with
  | nil => rfl
  | cons l c ih =>
    show (mark (occurs.setIfInBounds l.var true) c).size = occurs.size
    rw [ih, Array.size_setIfInBounds]

@[simp] theorem numVars_mint (i : Instance) : i.mint.numVars = i.numVars + 1 := rfl

@[simp] theorem clauses_mint (i : Instance) : i.mint.clauses = i.clauses := rfl

@[simp] theorem orGates_mint (i : Instance) : i.mint.orGates = i.orGates := rfl

@[simp] theorem clauses_record (i : Instance) (c : Clause) :
    (i.record c).clauses = i.clauses.push c := rfl

/-- The formula with several clauses more. -/
def recordAll (i : Instance) (cs : List Clause) : Instance := cs.foldl record i

theorem recordAll_append (i : Instance) (cs ds : List Clause) :
    i.recordAll (cs ++ ds) = (i.recordAll cs).recordAll ds :=
  List.foldl_append

@[simp] theorem numVars_recordAll (i : Instance) (cs : List Clause) :
    (i.recordAll cs).numVars = i.numVars := by
  induction cs generalizing i with
  | nil => rfl
  | cons c cs ih => exact ih (i.record c)

@[simp] theorem clauses_recordAll (i : Instance) (cs : List Clause) :
    (i.recordAll cs).clauses.toList = i.clauses.toList ++ cs := by
  induction cs generalizing i with
  | nil => simp [recordAll]
  | cons c cs ih =>
    show ((i.record c).recordAll cs).clauses.toList = _
    rw [ih]
    simp

@[simp] theorem orGates_recordAll (i : Instance) (cs : List Clause) :
    (i.recordAll cs).orGates = i.orGates := by
  induction cs generalizing i with
  | nil => rfl
  | cons c cs ih => exact ih (i.record c)

@[simp] theorem xorGates_recordAll (i : Instance) (cs : List Clause) :
    (i.recordAll cs).xorGates = i.xorGates := by
  induction cs generalizing i with
  | nil => rfl
  | cons c cs ih => exact ih (i.record c)

theorem Marked.mint {i : Instance} (h : i.Marked) : i.mint.Marked := by
  show (i.occurs.push false).size = i.numVars + 1 + 1
  rw [Array.size_push, h]

theorem Marked.record {i : Instance} (h : i.Marked) (c : Clause) : (i.record c).Marked := by
  show (mark i.occurs c).size = i.numVars + 1
  rw [size_mark, h]

theorem Marked.recordAll {i : Instance} (h : i.Marked) (cs : List Clause) :
    (i.recordAll cs).Marked := by
  induction cs generalizing i with
  | nil => exact h
  | cons c cs ih => exact ih (h.record c)

end Instance

namespace Compile

open Instance

/-- A variable is minted as long as there is a number for it. -/
theorem exec_fresh_cases (i : Instance) :
    (i.numVars + 1 < Cnf.countLimit ∧ exec fresh i = (.ok (Literal.ofVar i.numVars), i.mint)) ∨
      (Cnf.countLimit ≤ i.numVars + 1 ∧ exec fresh i = (.error .overflow, i)) := by
  unfold fresh
  rw [exec_bind_ok (exec_get i), exec_ite]
  split
  · next room => exact .inl ⟨room, rfl⟩
  · next full => exact .inr ⟨Nat.not_lt.mp full, rfl⟩

theorem exec_fresh {i : Instance} (room : i.numVars + 1 < Cnf.countLimit) :
    exec fresh i = (.ok (Literal.ofVar i.numVars), i.mint) := by
  rcases exec_fresh_cases i with ⟨-, run⟩ | ⟨full, -⟩
  · exact run
  · exact absurd room (Nat.not_lt.mpr full)

theorem fresh_ok {i j : Instance} {l : Literal} (h : exec fresh i = (.ok l, j)) :
    l = Literal.ofVar i.numVars ∧ j = i.mint := by
  rcases exec_fresh_cases i with ⟨-, run⟩ | ⟨-, run⟩
  · cases run.symm.trans h
    exact ⟨rfl, rfl⟩
  · cases run.symm.trans h

theorem exec_note (l : Literal) (i : Instance) :
    exec (note l) i =
      if l.var < i.occurs.size then
        (.ok (), { i with occurs := i.occurs.setIfInBounds l.var true })
      else (Outcome.breach (.unmintedVariable l.var), i) := by
  unfold note
  rw [exec_bind_ok (exec_get i), exec_ite]
  rfl

/-- Noting the literals of a clause marks their variables, if all of them were minted. -/
theorem exec_notes {c : Clause} {i : Instance} (h : ∀ l ∈ c, l.var < i.occurs.size) :
    exec (c.forM note) i = (.ok (), i.marking c) := by
  induction c generalizing i with
  | nil => rfl
  | cons l c ih =>
    show exec (do note l; c.forM note) i = _
    have hl : exec (note l) i =
        (.ok (), { i with occurs := i.occurs.setIfInBounds l.var true }) := by
      rw [exec_note, if_pos (h l List.mem_cons_self)]
    rw [exec_bind_ok hl, ih]
    · rfl
    · intro k hk
      rw [Array.size_setIfInBounds]
      exact h k (List.mem_cons_of_mem _ hk)

theorem exec_addClause {c : Clause} {i : Instance} (h : ∀ l ∈ c, l.var < i.occurs.size) :
    exec (addClause c) i = (.ok (), i.record c) := by
  unfold addClause
  rw [exec_bind_ok (exec_notes h)]
  rfl

/-- A clause is refused at the first of its variables that was never minted; those before it are
marked. -/
theorem exec_notes_refused {before after : Clause} {l : Literal} {i : Instance}
    (h : ∀ k ∈ before, k.var < i.occurs.size) (hl : i.occurs.size ≤ l.var) :
    exec ((before ++ l :: after).forM note) i =
      (Outcome.breach (.unmintedVariable l.var), i.marking before) := by
  show exec (forM (before ++ l :: after) note) i = _
  rw [List.forM_append]
  refine (exec_bind_ok (exec_notes h)).trans ?_
  show exec (do note l; after.forM note) (i.marking before) = _
  refine exec_bind_error ((exec_note l _).trans (if_neg ?_))
  show ¬ l.var < (mark i.occurs before).size
  rw [size_mark]
  exact Nat.not_lt.mpr hl

/-- A clause is recorded, or it is refused and its first variables are marked. -/
theorem exec_addClause_cases (c : Clause) (i : Instance) :
    ((∀ l ∈ c, l.var < i.occurs.size) ∧ exec (addClause c) i = (.ok (), i.record c)) ∨
    ∃ before l after, c = before ++ l :: after ∧ (∀ k ∈ before, k.var < i.occurs.size) ∧
      i.occurs.size ≤ l.var ∧ exec (addClause c) i =
        (Outcome.breach (.unmintedVariable l.var), i.marking before) := by
  cases found : c.find? fun l => i.occurs.size ≤ l.var with
  | none =>
    have all : ∀ l ∈ c, l.var < i.occurs.size := by
      simpa only [List.find?_eq_none, decide_eq_true_eq, Nat.not_le] using found
    exact .inl ⟨all, exec_addClause all⟩
  | some l =>
    obtain ⟨large, before, after, rfl, small⟩ := List.find?_eq_some_iff_append.mp found
    have hl : i.occurs.size ≤ l.var := of_decide_eq_true large
    have hb : ∀ k ∈ before, k.var < i.occurs.size := by
      simpa only [Bool.not_eq_true', decide_eq_false_iff_not, Nat.not_le] using small
    exact .inr ⟨before, l, after, rfl, hb, hl, exec_bind_error (exec_notes_refused hb hl)⟩

theorem addClause_ok {c : Clause} {i j : Instance} (h : exec (addClause c) i = (.ok (), j)) :
    (∀ l ∈ c, l.var < i.occurs.size) ∧ j = i.record c := by
  rcases exec_addClause_cases c i with ⟨all, run⟩ | ⟨_, _, _, _, _, _, run⟩
  · cases run.symm.trans h
    exact ⟨all, rfl⟩
  · cases run.symm.trans h

theorem exec_ensure {l : Literal} {i : Instance} (h : l.var < i.occurs.size) :
    exec (ensure l) i = (.ok (), if l = Literal.top then i else i.record [l]) := by
  unfold ensure
  by_cases hl : l = Literal.top
  · simp only [hl, ne_eq, not_true_eq_false, if_false, if_true]
    rfl
  · simp only [ne_eq, hl, not_false_eq_true, if_true, if_false]
    exact exec_addClause (by simpa using h)

/-! ## Padding -/

/-- The tautology of a variable and its negation. -/
def tautology (l : Literal) : Clause := [l, l.opposite]

theorem exec_pad {vars : List Literal} {i : Instance} (marked : i.Marked)
    (h : ∀ l ∈ vars, l.value ≠ Literal.least ∧ i.Minted l) :
    exec (vars.forM fun l => do addClause [l, ← l.neg]) i =
      (.ok (), i.recordAll (vars.map tautology)) := by
  induction vars generalizing i with
  | nil => rfl
  | cons l vars ih =>
    show exec (do
      (do addClause [l, ← l.neg] : Compile Unit)
      vars.forM fun l => do addClause [l, ← l.neg]) i = _
    obtain ⟨small, hl⟩ := h l List.mem_cons_self
    have hadd : exec (do addClause [l, ← l.neg] : Compile Unit) i =
        (.ok (), i.record (tautology l)) := by
      rw [exec_bind_lift (Literal.neg_of_ne_least small)]
      apply exec_addClause
      intro k hk
      have hk : k.var = l.var := by
        rcases List.mem_cons.mp hk with rfl | hk
        · rfl
        · rw [List.mem_singleton.mp hk, Literal.var_opposite]
      rw [hk, marked]
      exact Nat.lt_succ_of_le hl
    rw [exec_bind_ok hadd, ih (marked.record _)]
    · rfl
    · intro k hk
      exact h k (List.mem_cons_of_mem _ hk)

/-- Where padding comes to an end, all the tautologies were recorded. -/
theorem pad_ok {vars : List Literal} {i j : Instance}
    (h : exec (vars.forM fun l => do addClause [l, ← l.neg]) i = (.ok (), j)) :
    j = i.recordAll (vars.map tautology) := by
  induction vars generalizing i with
  | nil => exact (Prod.mk.inj h).2.symm
  | cons l vars ih =>
    replace h : exec (do
      (do addClause [l, ← l.neg] : Compile Unit)
      vars.forM fun l => do addClause [l, ← l.neg]) i = (.ok (), j) := h
    rcases first : exec (do addClause [l, ← l.neg] : Compile Unit) i with ⟨e | u, k⟩
    · cases (exec_bind_error first).symm.trans h
    · rw [exec_bind_ok first] at h
      rcases Literal.neg_cases l with ⟨-, hl⟩ | ⟨-, hl⟩
      · rw [exec_bind_lift hl] at first
        obtain ⟨-, rfl⟩ := addClause_ok first
        exact ih h
      · cases (exec_bind_lift_error hl).symm.trans first

theorem mem_idle {i : Instance} {l : Literal} :
    l ∈ idle i ↔ ∃ n < i.numVars, i.occurs[n + 1]? = some false ∧ l = Literal.ofVar n := by
  unfold idle
  simp only [List.mem_filterMap, List.mem_range]
  constructor
  · rintro ⟨n, hn, h⟩
    split at h
    · next ho => exact ⟨n, hn, ho, (Option.some.inj h).symm⟩
    · cases h
  · rintro ⟨n, hn, ho, rfl⟩
    exact ⟨n, hn, by rw [if_pos ho]⟩

theorem minted_of_mem_idle {i : Instance} {l : Literal} (h : l ∈ idle i) : i.Minted l := by
  obtain ⟨n, hn, -, rfl⟩ := mem_idle.mp h
  exact Nat.le_trans (Literal.var_ofVar_le n) hn

/-- The formula after its idle variables got their tautologies. -/
def padded (i : Instance) : Instance :=
  i.recordAll ((idle i).map tautology)

/-- Reading the formula pads it, while all its variables have literals of 32 bits. -/
theorem exec_formula {i : Instance} (marked : i.Marked) (room : i.numVars < Literal.varLimit) :
    exec formula i = (.ok (padded i).cnf, padded i) := by
  have hpad : exec ((idle i).forM fun l => do addClause [l, ← l.neg]) i = (.ok (), padded i) := by
    refine exec_pad marked fun l hl => ?_
    have minted := minted_of_mem_idle hl
    exact ⟨Literal.value_ne_least (Nat.lt_of_le_of_lt minted room), minted⟩
  unfold formula
  rw [exec_bind_ok (exec_get i), exec_bind_ok hpad]
  rfl

/-- However large it is, a formula that was read was padded. -/
theorem formula_ok {i j : Instance} {cnf : Cnf} (h : exec formula i = (.ok cnf, j)) :
    cnf = j.cnf ∧ j = padded i := by
  unfold formula at h
  rw [exec_bind_ok (exec_get i)] at h
  rcases pads : exec ((idle i).forM fun l => do addClause [l, ← l.neg]) i with ⟨e | u, k⟩
  · cases (exec_bind_error pads).symm.trans h
  · cases (exec_bind_ok pads).symm.trans h
    exact ⟨rfl, pad_ok pads⟩

end Compile

end FiniteStructures
