import FiniteStructures.Domain
import Mathlib.Data.Nat.Digits.Lemmas

/-!
Lists of truth values as binary numbers.  A digit outweighs all the digits after it, so the numbers of
lists of one length are in the order of the lists: at the first place where two lists differ,

    number (false :: a) < number (true :: b)      for all a, b of one length      (number_cons_lt)

`lexLess` passes over the places from the left.  Its state says whether a place has decided for less, and
whether all places agreed so far (`foldlM_lexStep`); in the end it says which number is less
(`lexLess_numeric`).
-/

namespace FiniteStructures

namespace BooleanDomain

variable {a b : List Bool}

/-! ## Binary numbers -/

/-- The number with the given binary digits, the most significant one first. -/
def number (digits : List Bool) : Nat := Nat.ofDigits 2 (digits.reverse.map Bool.toNat)

theorem number_cons (d : Bool) (digits : List Bool) :
    number (d :: digits) = d.toNat * 2 ^ digits.length + number digits := by
  unfold number
  rw [List.reverse_cons, List.map_append, Nat.ofDigits_append, List.length_map, List.length_reverse,
    List.map_singleton, Nat.ofDigits_singleton, Nat.add_comm, Nat.mul_comm]

theorem digit_lt (digits : List Bool) : ∀ n ∈ digits.reverse.map Bool.toNat, n < 2 :=
  List.forall_mem_map.mpr fun d _ => d.toNat_lt

theorem number_lt (digits : List Bool) : number digits < 2 ^ digits.length := by
  have bound := Nat.ofDigits_lt_base_pow_length Nat.one_lt_two (digit_lt digits)
  rwa [List.length_map, List.length_reverse] at bound

/-- The first place where two lists differ decides. -/
theorem number_cons_lt (same : a.length = b.length) (x y : Bool) :
    number (x :: a) < number (y :: b) ↔ (!x && y) ∨ x = y ∧ number a < number b := by
  have ha := number_lt a
  have hb := number_lt b
  rw [number_cons, number_cons, same]
  rw [same] at ha
  cases x <;> cases y <;> simp <;> omega

/-- Lists of one length with one number are equal. -/
theorem number_inj (same : a.length = b.length) (equal : number a = number b) : a = b := by
  have lengths : (a.reverse.map Bool.toNat).length = (b.reverse.map Bool.toNat).length := by
    simpa using same
  have digits := Nat.ofDigits_inj_of_len_eq Nat.one_lt_two lengths (digit_lt a) (digit_lt b) equal
  have injective : Function.Injective Bool.toNat := by decide
  exact List.reverse_injective (injective.list_map digits)

/-! ## Steps -/

theorem lexStep_bool (less equal x y : Bool) :
    (lexStep (less, equal) (x, y) : Outcome (Bool × Bool)) =
      .ok (less || (equal && (!x && y)), equal && (x == y)) := by
  show Except.ok (less || (equal && (!x && y)), equal && !(x ^^ y)) = _
  cases x <;> cases y <;> rfl

/-- After some places the state says whether one has decided for less, and whether all agreed. -/
theorem foldlM_lexStep (same : a.length = b.length) (less equal : Bool) :
    ((a.zip b).foldlM lexStep (less, equal) : Outcome (Bool × Bool)) =
      .ok (less || (equal && decide (number a < number b)), equal && decide (a = b)) := by
  induction a generalizing b less equal with
  | nil =>
    obtain rfl := List.length_eq_zero_iff.mp same.symm
    simp [pure, Except.pure]
  | cons x a ih =>
    obtain ⟨y, b, rfl⟩ := List.exists_cons_of_length_eq_add_one same.symm
    have same := Nat.succ.inj same
    rw [List.zip_cons_cons, List.foldlM_cons, lexStep_bool]
    refine (ih same _ _).trans ?_
    simp only [number_cons_lt same, List.cons.injEq, Bool.decide_or, Bool.decide_and,
      Bool.decide_eq_true, beq_eq_decide, Bool.and_or_distrib_left, Bool.or_assoc, Bool.and_assoc]

/-! ## The order -/

theorem lexLess_eq (same : a.length = b.length) :
    (lexLess a b : Outcome Bool) = .ok (decide (number a < number b)) := by
  unfold lexLess
  rw [if_neg (not_not.mpr same)]
  show ((a.zip b).foldlM lexStep (false, true) >>= fun state => pure state.1 : Outcome Bool) = _
  rw [foldlM_lexStep same]
  simp [pure, Except.pure, bind, Except.bind]

theorem lexLess_arity (other : a.length ≠ b.length) :
    (lexLess a b : Outcome Bool) = Outcome.arity a.length b.length := by
  unfold lexLess
  rw [if_pos other]
  rfl

/-- Only lists of one length are compared. -/
theorem length_eq_of_lexLess {less : Bool} (run : (lexLess a b : Outcome Bool) = .ok less) :
    a.length = b.length := by
  by_contra other
  rw [lexLess_arity other] at run
  cases run

theorem lexLess_true_iff : (lexLess a b : Outcome Bool) = .ok true ↔
    a.length = b.length ∧ number a < number b := by
  constructor
  · intro run
    have same := length_eq_of_lexLess run
    rw [lexLess_eq same, Except.ok.injEq, decide_eq_true_iff] at run
    exact ⟨same, run⟩
  · rintro ⟨same, less⟩
    rw [lexLess_eq same, decide_eq_true less]

theorem lexLeq_eq (same : a.length = b.length) :
    (lexLeq a b : Outcome Bool) = .ok (decide (number a ≤ number b)) := by
  unfold lexLeq
  rw [lexLess_eq same.symm]
  show Except.ok (!decide (number b < number a)) = _
  rw [← decide_not]
  simp only [Nat.not_lt]

theorem lexLeq_arity (other : a.length ≠ b.length) :
    (lexLeq a b : Outcome Bool) = Outcome.arity b.length a.length := by
  unfold lexLeq
  rw [lexLess_arity other.symm]
  rfl

/-- Lists of one length are compared as the numbers with their digits: one of two lists that differ is
less, by an order that is transitive.  Lists of two lengths are refused. -/
theorem lexLess_numeric (a b : List Bool) :
    (a.length = b.length →
      (lexLess a b : Outcome Bool) = .ok (decide (number a < number b)) ∧
      (lexLeq a b : Outcome Bool) = .ok (decide (number a ≤ number b)) ∧
      ((lexLess a b : Outcome Bool) = .ok true ∧ a ≠ b ∧
          (lexLess b a : Outcome Bool) = .ok false ∨
        (lexLess a b : Outcome Bool) = .ok false ∧ a = b ∧
          (lexLess b a : Outcome Bool) = .ok false ∨
        (lexLess a b : Outcome Bool) = .ok false ∧ a ≠ b ∧
          (lexLess b a : Outcome Bool) = .ok true)) ∧
    (∀ c : List Bool, (lexLess a b : Outcome Bool) = .ok true →
      (lexLess b c : Outcome Bool) = .ok true → (lexLess a c : Outcome Bool) = .ok true) ∧
    (a.length ≠ b.length → (lexLess a b : Outcome Bool) = Outcome.arity a.length b.length ∧
      (lexLeq a b : Outcome Bool) = Outcome.arity b.length a.length) := by
  refine ⟨fun same => ⟨lexLess_eq same, lexLeq_eq same, ?_⟩, fun c less less' => ?_,
    fun other => ⟨lexLess_arity other, lexLeq_arity other⟩⟩
  · rw [lexLess_eq same, lexLess_eq same.symm]
    rcases Nat.lt_trichotomy (number a) (number b) with less | equal | greater
    · have other : a ≠ b := fun h => Nat.ne_of_lt less (congrArg number h)
      exact .inl ⟨by rw [decide_eq_true less], other, by rw [decide_eq_false (Nat.lt_asymm less)]⟩
    · obtain rfl := number_inj same equal
      exact .inr (.inl ⟨by simp, rfl, by simp⟩)
    · have other : a ≠ b := fun h => Nat.ne_of_gt greater (congrArg number h)
      exact .inr (.inr ⟨by rw [decide_eq_false (Nat.lt_asymm greater)], other,
        by rw [decide_eq_true greater]⟩)
  · obtain ⟨same, less⟩ := lexLess_true_iff.mp less
    obtain ⟨same', less'⟩ := lexLess_true_iff.mp less'
    exact lexLess_true_iff.mpr ⟨same.trans same', less.trans less'⟩

/-- Three is less than four, though two of its digits are greater, and four is less than five. -/
theorem lexLess_numeric_three :
    (lexLess [false, true, true] [true, false, false] : Outcome Bool) = .ok true ∧
      (lexLeq [false, true, true] [true, false, false] : Outcome Bool) = .ok true ∧
      (lexLess [false, true, true] [true, false, true] : Outcome Bool) = .ok true ∧
      (lexLeq [true, true] [true] : Outcome Bool) = Outcome.arity 1 2 := by
  obtain ⟨compared, transitive, -⟩ := lexLess_numeric [false, true, true] [true, false, false]
  obtain ⟨less, leq, -⟩ := compared rfl
  obtain ⟨-, -, refused⟩ := lexLess_numeric [true, true] [true]
  exact ⟨less, leq, transitive [true, false, true] less (by decide), (refused (by decide)).2⟩

end BooleanDomain

end FiniteStructures
