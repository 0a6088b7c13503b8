import FiniteStructures.Proofs.Text.Words
import FiniteStructures.Text.Numeral

/-!
Numerals that are written are read.  An integer of 32 bits comes back from its decimal numeral, and
the numeral is one word,

    integer? (toString k).toList = some k      (integer?_toString)

An integer of any size comes back if no limit is asked for (`decimal?_toString`).
-/

namespace FiniteStructures

namespace Text

theorem isDigit_toDigits {n : Nat} : ∀ c ∈ Nat.toDigits 10 n, c.isDigit :=
  fun _ hc => Nat.isDigit_of_mem_toDigits (by decide) (by decide) hc

theorem digits?_toDigits (n : Nat) : digits? (Nat.toDigits 10 n) = some n := by
  unfold digits?
  split
  · next none => exact absurd none Nat.toDigits_ne_nil
  · rw [if_pos (List.all_eq_true.mpr isDigit_toDigits), ← Nat.ofDigitChars_eq_foldl,
      Nat.ofDigitChars_ten_toDigits]

theorem below_some {limit n : Nat} (h : n < limit) : below limit (some n) = some n := by
  simp [below, h]

/-- A row of digits has no sign before it. -/
theorem integer?_digits {digits : List Char} (h : ∀ c ∈ digits, c.isDigit) :
    integer? digits = (below integerLimit (digits? digits)).map Int.ofNat := by
  unfold integer?
  split
  · exact absurd (h '+' List.mem_cons_self) (by decide)
  · exact absurd (h '-' List.mem_cons_self) (by decide)
  · rfl

theorem toList_ofNat (n : Nat) : (toString (Int.ofNat n)).toList = Nat.toDigits 10 n :=
  Nat.toList_repr

theorem toList_negSucc (n : Nat) :
    (toString (Int.negSucc n)).toList = '-' :: Nat.toDigits 10 (n + 1) := by
  rw [show toString (Int.negSucc n) = "-" ++ (n + 1).repr from rfl, String.toList_append,
    Nat.toList_repr]
  rfl

/-- An integer of 32 bits is read from its numeral. -/
theorem integer?_toString {k : Int} (lower : -2147483648 ≤ k) (upper : k < 2147483648) :
    integer? (toString k).toList = some k := by
  cases k with
  | ofNat n =>
    have small : n < integerLimit := Int.ofNat_lt.mp upper
    rw [toList_ofNat, integer?_digits isDigit_toDigits, digits?_toDigits, below_some small]
    rfl
  | negSucc n =>
    have small : n + 1 < integerLimit + 1 := by
      unfold integerLimit
      omega
    rw [toList_negSucc]
    show (below (integerLimit + 1) (digits? _)).map _ = _
    rw [digits?_toDigits, below_some small]
    rfl

/-- The integer of a decimal numeral, whatever its size. -/
def decimal? : List Char → Option Int
  | '-' :: digits => (digits? digits).map fun n => -Int.ofNat n
  | digits => (digits? digits).map Int.ofNat

theorem decimal?_digits {digits : List Char} (h : ∀ c ∈ digits, c.isDigit) :
    decimal? digits = (digits? digits).map Int.ofNat := by
  unfold decimal?
  split
  · exact absurd (h '-' List.mem_cons_self) (by decide)
  · rfl

/-- An integer is read from its numeral. -/
theorem decimal?_toString (k : Int) : decimal? (toString k).toList = some k := by
  cases k with
  | ofNat n =>
    rw [toList_ofNat, decimal?_digits isDigit_toDigits, digits?_toDigits]
    rfl
  | negSucc n =>
    rw [toList_negSucc]
    show (digits? _).map _ = _
    rw [digits?_toDigits]
    rfl

theorem not_isBlank_of_isDigit {c : Char} (h : c.isDigit) : ¬ isBlank c := by
  simp only [Char.isDigit, Bool.and_eq_true, decide_eq_true_eq, ge_iff_le,
    UInt32.le_iff_toNat_le] at h
  replace h : 48 ≤ c.toNat ∧ c.toNat ≤ 57 := h
  simp only [isBlank, blankRanges, List.any_cons, List.any_nil, Bool.or_eq_true, Bool.and_eq_true,
    decide_eq_true_eq, Bool.false_eq_true, or_false]
  omega

/-- A numeral is one word. -/
theorem toString_solid (k : Int) :
    (toString k).toList ≠ [] ∧ ∀ c ∈ (toString k).toList, ¬ isBlank c := by
  cases k with
  | ofNat n =>
    rw [toList_ofNat]
    exact ⟨Nat.toDigits_ne_nil, fun c hc => not_isBlank_of_isDigit (isDigit_toDigits c hc)⟩
  | negSucc n =>
    rw [toList_negSucc]
    refine ⟨List.cons_ne_nil _ _, List.forall_mem_cons.mpr ⟨by decide, fun c hc => ?_⟩⟩
    exact not_isBlank_of_isDigit (isDigit_toDigits c hc)

end Text

end FiniteStructures
