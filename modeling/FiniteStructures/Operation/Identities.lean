import FiniteStructures.Operation.Superposition

/-!
Identities: an equation between an operation with arguments arranged by a pattern and another
such arrangement, or a variable, that holds for all values of the variables.  Both sides become
operations over the variables in use, and their graphs are compared.
-/

namespace FiniteStructures

namespace Operation

open BooleanDomain

variable {E : Type} {m : Type → Type} [BooleanDomain E m] [Monad m] [MonadLiftT Outcome m]

/-- The graphs are equal. -/
def isEqualTo (f g : Operation E) : m E := f.toRelation.isEqualTo g.toRelation

/-- How many variables patterns speak of: one more than the largest, and at least one. -/
def variableCount (pattern : List Nat) : Outcome Nat :=
  match pattern.max? with
  | none => .ok 1
  | some largest => Count.add largest 1

/-- The identity `f(x_left) = f(x_right)`. -/
def isSatisfied (f : Operation E) (left right : List Nat) : m E := do
  let vars ← variableCount (left ++ right)
  let lhs ← f.polymer vars left
  let rhs ← f.polymer vars right
  lhs.isEqualTo rhs

/-- The identity `f(x_pattern) = x_var`. -/
def isSatisfiedByVariable (f : Operation E) (pattern : List Nat) (var : Nat) : m E := do
  let vars ← variableCount (pattern ++ [var])
  let lhs ← f.polymer vars pattern
  let rhs ← (do projection (← f.size) vars var : Outcome (Operation E))
  lhs.isEqualTo rhs

/-- The operation is one of its projections. -/
def isProjection (f : Operation E) : m E := do
  let ⟨candidates, _⟩ ← traverse (fun coord => do
    f.isEqualTo (← (do projection (← f.size) f.arity coord : Outcome (Operation E))))
    (List.range f.arity)
  any candidates

/-- The identity `f(x, …, x) = x`. -/
def isIdempotent (f : Operation E) : m E :=
  f.isSatisfiedByVariable (List.replicate f.arity 0) 0

/-- The identity `f(x, y) = f(y, x)`. -/
def isCommutative (f : Operation E) : m E := do
  f.requireArity 2
  f.isSatisfied [0, 1] [1, 0]

/-- The identity `f(f(x, y), z) = f(x, f(y, z))`. -/
def isAssociative (f : Operation E) : m E := do
  f.requireArity 2
  let size ← f.size
  let x ← (projection size 3 0 : Outcome (Operation E))
  let z ← (projection size 3 2 : Outcome (Operation E))
  let xy ← f.polymer 3 [0, 1]
  let yz ← f.polymer 3 [1, 2]
  let left ← f.composeWith [xy, z]
  let right ← f.composeWith [x, yz]
  left.isEqualTo right

/-- The identities `f(x, x, y) = f(x, y, x) = f(y, x, x) = x`. -/
def isMajority (f : Operation E) : m E := do
  f.requireArity 3
  let a ← f.isSatisfiedByVariable [0, 0, 1] 0
  let b ← f.isSatisfiedByVariable [0, 1, 0] 0
  let c ← f.isSatisfiedByVariable [1, 0, 0] 0
  all [a, b, c]

/-- The identities `f(x, x, y) = f(x, y, x) = f(y, x, x) = y`. -/
def isMinority (f : Operation E) : m E := do
  f.requireArity 3
  let a ← f.isSatisfiedByVariable [0, 0, 1] 1
  let b ← f.isSatisfiedByVariable [0, 1, 0] 1
  let c ← f.isSatisfiedByVariable [1, 0, 0] 1
  all [a, b, c]

/-- The identities `f(x, y, y) = f(y, y, x) = x`. -/
def isMaltsev (f : Operation E) : m E := do
  f.requireArity 3
  let a ← f.isSatisfiedByVariable [0, 1, 1] 0
  let b ← f.isSatisfiedByVariable [1, 1, 0] 0
  and a b

end Operation

end FiniteStructures
