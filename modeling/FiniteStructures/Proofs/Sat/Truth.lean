import FiniteStructures.Sat.Literal

/-!
Truth of literals, clauses and formulas.  A `Valuation` gives a truth value to every number of a
variable; an `Assignment` is an array and covers the variables of a formula only.  Statements about
answers of a solver speak of assignments, proofs use the valuation of an assignment:

    a.value l = .ok (l.holds a.valuation)        (Assignment.value_eq)
-/

namespace FiniteStructures

/-- Truth values by number of the variable. -/
abbrev Valuation := Nat → Bool

namespace Literal

/-- The truth value of a literal. -/
def holds (ρ : Valuation) (l : Literal) : Bool := ρ l.var != l.isNegated

theorem ext {l k : Literal} (h : l.value = k.value) : l = k := by
  cases l; cases k; simp_all

theorem var_pos (l : Literal) : 0 < l.var := by
  have := l.value_ne_zero
  unfold var; omega

theorem var_le (l : Literal) : l.var ≤ varLimit := by
  have := l.value_mem
  unfold var varLimit
  omega

/-- A literal of a small variable has an opposite of 32 bits. -/
theorem value_ne_least {l : Literal} (h : l.var < varLimit) : l.value ≠ least := by
  unfold var varLimit at h
  unfold least
  omega

theorem var_eq_limit {l : Literal} (h : l.value = least) : l.var = varLimit := by
  rw [var, h]
  rfl

@[simp] theorem var_top : top.var = 1 := rfl

@[simp] theorem var_bottom : bottom.var = 1 := rfl

theorem holds_top {ρ : Valuation} (h : ρ 1 = true) : top.holds ρ = true := by
  show (ρ 1 != false) = true
  rw [h]; rfl

theorem holds_bottom {ρ : Valuation} (h : ρ 1 = true) : bottom.holds ρ = false := by
  show (ρ 1 != true) = false
  rw [h]; rfl

/-- The truth of a literal depends on its variable alone. -/
theorem holds_congr {ρ τ : Valuation} {l : Literal} (h : τ l.var = ρ l.var) :
    l.holds τ = l.holds ρ := by
  simp only [holds, h]

/-! ### Opposites -/

theorem opposite_least {l : Literal} (h : l.value = least) : l.opposite = l := dif_pos h

theorem value_opposite {l : Literal} (h : l.value ≠ least) : l.opposite.value = -l.value :=
  congrArg value (dif_neg h)

@[simp] theorem var_opposite (l : Literal) : l.opposite.var = l.var := by
  by_cases h : l.value = least
  · rw [opposite_least h]
  · rw [var, value_opposite h, Int.natAbs_neg, var]

@[simp] theorem opposite_opposite (l : Literal) : l.opposite.opposite = l := by
  by_cases h : l.value = least
  · rw [opposite_least h, opposite_least h]
  · have mem := l.value_mem
    have ne : l.opposite.value ≠ least := by
      rw [value_opposite h]
      unfold least
      omega
    refine ext ?_
    rw [value_opposite ne, value_opposite h, Int.neg_neg]

theorem isNegated_opposite {l : Literal} (h : l.value ≠ least) :
    l.opposite.isNegated = !l.isNegated := by
  have hne := l.value_ne_zero
  unfold isNegated
  rw [← decide_not, decide_eq_decide, value_opposite h]
  omega

theorem holds_opposite {l : Literal} (h : l.value ≠ least) (ρ : Valuation) :
    l.opposite.holds ρ = !l.holds ρ := by
  simp only [holds, var_opposite, isNegated_opposite h]
  cases ρ l.var <;> cases l.isNegated <;> rfl

theorem neg_least {l : Literal} (h : l.value = least) : l.neg = .error .overflow := if_pos h

theorem neg_of_ne_least {l : Literal} (h : l.value ≠ least) : l.neg = .ok l.opposite := if_neg h

/-- A literal has an opposite of 32 bits unless its variable is too large. -/
theorem neg_cases (l : Literal) :
    (l.value ≠ least ∧ l.neg = .ok l.opposite) ∨
      (l.value = least ∧ l.neg = .error .overflow) := by
  by_cases h : l.value = least
  · exact .inr ⟨h, neg_least h⟩
  · exact .inl ⟨h, neg_of_ne_least h⟩

/-! ### Numbers of variables -/

/-- A number without a sign is read as itself below 2³¹ only. -/
theorem value_ofCount {v : Nat} (pos : 0 < v) (h : v < Cnf.countLimit) :
    (ofCount v).value = if v < varLimit then (v : Int) else v - 4294967296 := by
  unfold ofCount varLimit
  unfold Cnf.countLimit at h
  by_cases small : v < 2147483648
  · rw [dif_pos ⟨pos, small⟩, if_pos small]
  · rw [dif_neg fun h => small h.2, dif_pos ⟨Nat.not_lt.mp small, h⟩, if_neg small]

theorem var_ofCount {v : Nat} (pos : 0 < v) (h : v ≤ varLimit) : (ofCount v).var = v := by
  have small : v < Cnf.countLimit := Nat.lt_of_le_of_lt h (by decide)
  rw [var, value_ofCount pos small]
  unfold varLimit at *
  split <;> omega

/-- A number that is too large is read as one of a variable before it. -/
theorem var_ofCount_le {v : Nat} (pos : 0 < v) : (ofCount v).var ≤ v := by
  by_cases small : v < Cnf.countLimit
  · rw [var, value_ofCount pos small]
    unfold Cnf.countLimit varLimit at *
    split <;> omega
  · refine Nat.le_trans (var_le _) ?_
    unfold Cnf.countLimit varLimit at *
    omega

theorem value_ofVar {n : Nat} (h : n + 1 < varLimit) : (ofVar n).value = n + 1 := by
  have small : n + 1 < Cnf.countLimit := Nat.lt_trans h (by decide)
  rw [ofVar, value_ofCount n.succ_pos small, if_pos h]
  rfl

theorem var_ofVar {n : Nat} (h : n < varLimit) : (ofVar n).var = n + 1 := var_ofCount n.succ_pos h

theorem var_ofVar_le (n : Nat) : (ofVar n).var ≤ n + 1 := var_ofCount_le n.succ_pos

theorem isNegated_ofVar {n : Nat} (h : n + 1 < varLimit) : (ofVar n).isNegated = false := by
  unfold isNegated
  rw [value_ofVar h, decide_eq_false_iff_not]
  omega

theorem holds_ofVar {n : Nat} (h : n + 1 < varLimit) (ρ : Valuation) :
    (ofVar n).holds ρ = ρ (n + 1) := by
  rw [holds, isNegated_ofVar h, var_ofVar (Nat.lt_of_succ_lt h), Bool.bne_false]

/-- Of all variables that can be counted one alone has no opposite of 32 bits. -/
theorem ofVar_eq_least {n : Nat} (h : n + 1 < Cnf.countLimit) :
    (ofVar n).value = least ↔ n + 1 = varLimit := by
  rw [ofVar, value_ofCount n.succ_pos h]
  unfold Cnf.countLimit at h
  unfold varLimit least
  split <;> omega

@[simp] theorem var_unsigned (l : Literal) : l.unsigned.var = l.var :=
  var_ofCount l.var_pos l.var_le

theorem value_unsigned {l : Literal} (h : l.value ≠ least) : l.unsigned.value = l.var := by
  have mem := l.value_mem
  have small : l.var < varLimit := by
    unfold var varLimit
    unfold least at h
    omega
  rw [unsigned, value_ofCount l.var_pos (Nat.lt_trans small (by decide)), if_pos small]

theorem value_unsigned_eq_least {l : Literal} : l.unsigned.value = least ↔ l.value = least := by
  by_cases hl : l.value = least
  · refine iff_of_true ?_ hl
    rw [unsigned, var_eq_limit hl]
    decide
  · refine iff_of_false ?_ hl
    rw [value_unsigned hl]
    unfold least
    omega

/-- A literal without its sign is true or false as its variable is. -/
theorem holds_unsigned {l : Literal} (h : l.value ≠ least) (ρ : Valuation) :
    l.unsigned.holds ρ = (l.holds ρ != l.isNegated) := by
  have hu : l.unsigned.isNegated = false := by
    unfold isNegated
    rw [value_unsigned h, decide_eq_false_iff_not]
    omega
  simp only [holds, var_unsigned, hu]
  cases ρ l.var <;> cases l.isNegated <;> rfl

theorem ordered_cases (a b : Literal) : ordered a b = (a, b) ∨ ordered a b = (b, a) := by
  unfold ordered
  split
  · exact .inl rfl
  · exact .inr rfl

end Literal

/-! ## Clauses -/

/-- Some literal of the clause is true. -/
def Clause.holds (ρ : Valuation) (c : Clause) : Bool := c.any (Literal.holds ρ)

/-- All the clauses are true. -/
def Valuation.Models (ρ : Valuation) (clauses : List Clause) : Prop :=
  ∀ c ∈ clauses, Clause.holds ρ c = true

namespace Valuation

@[simp] theorem models_nil (ρ : Valuation) : ρ.Models [] := by
  intro c hc
  cases hc

/-- The clause of the reserved variable says that it is true. -/
theorem holds_top_clause {ρ : Valuation} : Clause.holds ρ [Literal.top] = true ↔ ρ 1 = true := by
  simp [Clause.holds, Literal.holds, Literal.top, Literal.var, Literal.isNegated]

theorem models_append {ρ : Valuation} {cs ds : List Clause} :
    ρ.Models (cs ++ ds) ↔ ρ.Models cs ∧ ρ.Models ds := by
  simp only [Models, List.mem_append]
  constructor
  · intro h
    exact ⟨fun c hc => h c (.inl hc), fun c hc => h c (.inr hc)⟩
  · rintro ⟨h, k⟩ c (hc | hc)
    · exact h c hc
    · exact k c hc

theorem Models.mono {ρ : Valuation} {cs ds : List Clause} (h : ρ.Models ds)
    (sub : ∀ c ∈ cs, c ∈ ds) : ρ.Models cs :=
  fun c hc => h c (sub c hc)

/-- Clauses see only the variables they mention. -/
theorem Models.congr {ρ τ : Valuation} {cs : List Clause} (h : ρ.Models cs)
    (agree : ∀ c ∈ cs, ∀ l ∈ c, τ l.var = ρ l.var) : τ.Models cs := by
  intro c hc
  obtain ⟨l, hl, ht⟩ := List.any_eq_true.mp (h c hc)
  exact List.any_eq_true.mpr ⟨l, hl, by rw [Literal.holds_congr (agree c hc l hl), ht]⟩

/-- The valuation with one variable changed. -/
def update (ρ : Valuation) (v : Nat) (b : Bool) : Valuation := fun w => if w = v then b else ρ w

@[simp] theorem update_self (ρ : Valuation) (v : Nat) (b : Bool) : ρ.update v b v = b :=
  if_pos rfl

theorem update_of_ne {ρ : Valuation} {v w : Nat} {b : Bool} (h : w ≠ v) :
    ρ.update v b w = ρ w :=
  if_neg h

end Valuation

/-! ## Assignments -/

namespace Assignment

/-- The truth values of an assignment; variables outside of it are false. -/
def valuation (a : Assignment) : Valuation := fun v => a.values.getD v false

/-- The assignment covers the variables of a formula and makes some literal of each clause true, by
the value of its variable. -/
def Satisfies (a : Assignment) (cnf : Cnf) : Prop :=
  cnf.numVars < a.values.size ∧
    ∀ c ∈ cnf.clauses, ∃ l ∈ c, a.values[l.var]? = some (!l.isNegated)

theorem Satisfies.models {a : Assignment} {cnf : Cnf} (h : a.Satisfies cnf) :
    a.valuation.Models cnf.clauses.toList := by
  intro c hc
  obtain ⟨l, hl, ht⟩ := h.2 c (Array.mem_toList_iff.mp hc)
  refine List.any_eq_true.mpr ⟨l, hl, ?_⟩
  simp only [Literal.holds, valuation, Array.getD_eq_getD_getElem?, ht, Option.getD_some]
  cases l.isNegated <;> rfl

/-- Where truth is true, the value of a covered literal is its truth value. -/
theorem value_eq {a : Assignment} {l : Literal} (h : l.var < a.values.size)
    (truth : a.valuation 1 = true) : a.value l = .ok (l.holds a.valuation) := by
  unfold value
  split
  · next hc =>
    have hv : l.var = 1 := by simpa [Literal.isConstant] using hc
    simp only [Literal.holds, hv, truth]
    congr 1
    by_cases hl : l = Literal.top
    · subst hl; rfl
    · have : l.value = -1 := by
        have : l.value ≠ 1 := fun e => hl (Literal.ext e)
        simp only [Literal.var] at hv
        omega
      simp [hl, Literal.isNegated, this]
  · next hc =>
    rw [Array.getElem?_eq_getElem h]
    simp [Literal.holds, valuation, h]

end Assignment

end FiniteStructures
