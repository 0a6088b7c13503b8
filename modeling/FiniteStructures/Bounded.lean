import FiniteStructures.Fault

/-!
Numbers of bounded width.  Sizes and positions are naturals below 2⁶⁴, cells of integer tensors
are integers of 64 bits; a sum or product outside the range is the fault `overflow`, found at
the step that leaves it.  Lists have fewer than 2⁵⁷ members.
-/

namespace FiniteStructures

/-! ## Counts -/

namespace Count

/-- Counts are below this number, 2⁶⁴. -/
def limit : Nat := 18446744073709551616

/-- A count, or `overflow` where it is too large to be one. -/
def check (n : Nat) : Outcome Nat := if n < limit then .ok n else .error .overflow

def add (a b : Nat) : Outcome Nat := check (a + b)

/-- The difference of counts, which must not be negative. -/
def sub (a b : Nat) : Outcome Nat := if b ≤ a then .ok (a - b) else .error .overflow

def mul (a b : Nat) : Outcome Nat := check (a * b)

/-- The product from left to right, each step within range: a zero after too large a product
does not save it. -/
def product (counts : List Nat) : Outcome Nat := counts.foldlM mul 1

/-- Lists have fewer members than this, 2⁵⁷. -/
def storeLimit : Nat := 144115188075855872

/-- The length of a list that is about to be built. -/
def store (n : Nat) : Outcome Nat := if n < storeLimit then .ok n else .breach .capacity

/-- The list of `n` copies of `x`. -/
def replicate {α : Type} (n : Nat) (x : α) : Outcome (List α) := do
  return List.replicate (← store n) x

end Count

/-! ## Integers of 64 bits -/

namespace Whole

/-- Integers lie below this number, 2⁶³, and not below its negative. -/
def limit : Int := 9223372036854775808

/-- An integer of 64 bits, or `overflow`. -/
def check (n : Int) : Outcome Int :=
  if -limit ≤ n ∧ n < limit then .ok n else .error .overflow

def add (a b : Int) : Outcome Int := check (a + b)

def sub (a b : Int) : Outcome Int := check (a - b)

def mul (a b : Int) : Outcome Int := check (a * b)

/-- The sum from left to right, each step within range. -/
def sum (numbers : List Int) : Outcome Int := numbers.foldlM add 0

end Whole

end FiniteStructures
