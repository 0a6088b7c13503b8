import FiniteStructures.Bounded

/-!
Decimal numerals.  A numeral is a nonempty row of digits, leading zeros included.  A literal may
have a plus or a minus sign before it and must fit 32 bits, a count may have a plus sign and must
fit 64 bits; no other character is allowed.
-/

namespace FiniteStructures

namespace Text

/-- The number of a row of digits. -/
def digits? : List Char → Option Nat
  | [] => none
  | digits =>
    if digits.all Char.isDigit then
      some (digits.foldl (fun n c => 10 * n + (c.toNat - '0'.toNat)) 0)
    else none

/-- The number, if it is below the limit. -/
def below (limit : Nat) (n : Option Nat) : Option Nat := n.filter (· < limit)

/-- Integers are below this number, 2³¹. -/
def integerLimit : Nat := 2147483648

/-- A count below 2⁶⁴. -/
def count? : List Char → Option Nat
  | '+' :: digits => below Count.limit (digits? digits)
  | digits => below Count.limit (digits? digits)

/-- An integer from -2³¹ to 2³¹ - 1. -/
def integer? : List Char → Option Int
  | '+' :: digits => (below integerLimit (digits? digits)).map Int.ofNat
  | '-' :: digits => (below (integerLimit + 1) (digits? digits)).map fun n => -Int.ofNat n
  | digits => (below integerLimit (digits? digits)).map Int.ofNat

theorem integer?_mem {token : List Char} {n : Int} (h : integer? token = some n) :
    -2147483648 ≤ n ∧ n < 2147483648 := by
  have small {limit m : Nat} {digits : Option Nat} (h : below limit digits = some m) : m < limit :=
    of_decide_eq_true (Option.filter_eq_some_iff.mp h).2
  unfold integer? at h
  split at h <;> obtain ⟨m, below, rfl⟩ := Option.map_eq_some_iff.mp h <;>
    have := small below <;> simp only [integerLimit, Int.ofNat_eq_natCast] at this ⊢ <;> omega

end Text

end FiniteStructures
