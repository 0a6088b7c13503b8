import FiniteStructures.Domain

/-!
The operations that drive a contraction: an addition, by which indices are summed out, and a
multiplication, by which entries are joined cell by cell.  Results do not depend on the order of
either exactly when the laws of commutative semirings hold; nothing here assumes them.
-/

namespace FiniteStructures

/-- The operations of a semiring over `E` that run in `m`. -/
structure SemiringOps (E : Type) (m : Type → Type) [Monad m] where
  zero : E
  one : E
  add : E → E → m E
  mul : E → E → m E
  /-- The sum of a list, from left to right. -/
  sum : List E → m E := fun elems => elems.foldlM add zero

namespace SemiringOps

variable {E : Type} {m : Type → Type} [Monad m] [BooleanDomain E m]

/-- Disjunction and conjunction: whether there is a witness. -/
def logical : SemiringOps E m where
  zero := BooleanDomain.falsity
  one := BooleanDomain.truth
  add := BooleanDomain.or
  mul := BooleanDomain.and
  sum := BooleanDomain.any

/-- Exclusive or and conjunction: whether the number of witnesses is odd. -/
def linear : SemiringOps E m where
  zero := BooleanDomain.falsity
  one := BooleanDomain.truth
  add := BooleanDomain.xor
  mul := BooleanDomain.and
  sum := BooleanDomain.parity

/-- Sums and products of integers of 64 bits: the number of witnesses. -/
def counting : SemiringOps Int Outcome where
  zero := 0
  one := 1
  add := Whole.add
  mul := Whole.mul

end SemiringOps

end FiniteStructures
