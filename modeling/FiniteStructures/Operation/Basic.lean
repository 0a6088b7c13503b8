import FiniteStructures.Relation.Predicates

/-!
Operations on a finite set, stored as graphs.  An operation of arity k on the numbers below m is
a tensor with k + 1 axes of size m; the cell at `(r, a₁, …, aₖ)` says whether the value at
`(a₁, …, aₖ)` is `r`.  The value comes first, so "exactly one value" is a fold over axis 0.  Over
literals the graph is an unknown, and `isOperation` is the condition that makes it a function.
-/

namespace FiniteStructures

/-- An operation by the tensor of its graph. -/
structure Operation (E : Type) where
  tensor : Tensor E
deriving DecidableEq

namespace Operation

open BooleanDomain

variable {E : Type}

/-- The operation with a given graph; whether the graph is a function is not checked. -/
def ofTensor (t : Tensor E) : Outcome (Operation E) := do
  return ⟨(← Relation.ofTensor t).tensor⟩

/-- The graph as a relation. -/
def toRelation (f : Operation E) : Relation E := ⟨f.tensor⟩

/-- Size of the set. -/
def size (f : Operation E) : Outcome Nat := f.toRelation.size

/-- Number of arguments. -/
def arity (f : Operation E) : Nat := f.tensor.order - 1

/-- Ends unless the operation has the given arity. -/
def requireArity (f : Operation E) (arity : Nat) : Outcome Unit :=
  if f.arity ≠ arity then .arity arity f.arity else .ok ()

/-- The shape of graphs of operations with `arity` arguments. -/
def graphShape (size arity : Nat) : Outcome (List Nat) := do
  Shape.uniform size (← Count.add arity 1)

/-! ## Concrete operations -/

/-- The graph of a function on the set; its values must lie in the set. -/
def ofFunction (size arity : Nat) (f : List Nat → Outcome Nat) : Outcome (Operation Bool) := do
  return ⟨← Tensor.generate (← graphShape size arity) fun index => do
    let value ← f index.tail
    if value ≥ size then Outcome.breach (.valueOutsideSet value size)
    return index.head? == some value⟩

/-- The value at an argument tuple, if the graph has exactly one there. -/
def value (f : Operation Bool) (args : List Nat) : Outcome (Option Nat) := do
  scan (← f.size) 0 none
where
  /-- Looks at the `n` values from `r` on, after `found`. -/
  scan : (n r : Nat) → (found : Option Nat) → Outcome (Option Nat)
    | 0, _, found => return found
    | n + 1, r, found => do
      if ← f.tensor.get (r :: args) then
        if found.isSome then return none
        scan n (r + 1) (some r)
      else scan n (r + 1) found

/-! ## Constructors -/

section Constructors

variable {m : Type → Type} [BooleanDomain E m]

/-- The projection to the argument `coord`. -/
def projection (size arity coord : Nat) : Outcome (Operation E) := do
  if coord ≥ arity then Outcome.arity arity (← Count.add coord 1)
  return ⟨← Tensor.generate (← graphShape size arity) fun index =>
    .ok (constant (index.head? == index.tail[coord]?))⟩

/-- The operation with one value. -/
def const (size arity value : Nat) : Outcome (Operation E) := do
  return ⟨← Tensor.generate (← graphShape size arity) fun index =>
    .ok (constant (index.head? == some value))⟩

/-- A concrete operation as constants of the domain. -/
def lift (f : Operation Bool) : Operation E := ⟨f.tensor.map constant⟩

end Constructors

/-! ## Validity -/

variable {m : Type → Type} [BooleanDomain E m] [Monad m] [MonadLiftT Outcome m]

/-- Every argument tuple has exactly one value. -/
def isOperation (f : Operation E) : m E := f.toRelation.isFunction

/-- Every element is a value. -/
def isSurjective (f : Operation E) : m E := do
  let vars ← Contraction.names (f.arity + 1)
  let image ← Contraction.query SemiringOps.logical [(f.tensor, vars)] (vars.take 1)
  all image.elems

end Operation

/-- The operation with a given graph, which must be the graph of a function. -/
def Operation.ofGraph (t : Tensor Bool) : Outcome (Operation Bool) := do
  let f ← Operation.ofTensor t
  if ← f.isOperation then return f
  else .fail (.invalid .operationGraph)

end FiniteStructures
