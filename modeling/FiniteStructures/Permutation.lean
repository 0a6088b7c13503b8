import FiniteStructures.Operation.Superposition

/-!
Permutations of a finite set, as operations with one argument: the cell at `(y, x)` of the graph
says whether `x` goes to `y`.
-/

namespace FiniteStructures

/-- An operation with one argument that is meant to be a bijection. -/
structure Permutation (E : Type) where
  operation : Operation E
deriving DecidableEq

namespace Permutation

open BooleanDomain

variable {E : Type}

/-- The permutation of an operation with one argument. -/
def ofOperation (f : Operation E) : Outcome (Permutation E) :=
  if f.arity ≠ 1 then .arity 1 f.arity else .ok ⟨f⟩

def tensor (p : Permutation E) : Tensor E := p.operation.tensor

/-- Size of the set. -/
def size (p : Permutation E) : Outcome Nat := p.operation.size

/-- The graph with its axes exchanged. -/
def invert (p : Permutation E) : Outcome (Permutation E) := do
  return ⟨← Operation.ofTensor (← p.operation.toRelation.revert).tensor⟩

/-! ## Concrete permutations -/

/-- Each image is in range and comes once. -/
def areImages (images : List Nat) : Bool :=
  go images (List.replicate images.length false)
where
  /-- The flags say which images came before. -/
  go : List Nat → (seen : List Bool) → Bool
    | [], _ => true
    | y :: rest, seen => seen[y]? = some false && go rest (seen.set y true)

/-- The permutation that sends `x` to `images[x]`. -/
def ofImages (images : List Nat) : Outcome (Permutation Bool) := do
  if ¬ areImages images then Outcome.fail (.invalid (.permutationImages images))
  return ⟨← Operation.ofFunction images.length 1 fun args =>
    match args.head?.bind (images[·]?) with
    | some y => .ok y
    | none => .breach .outOfBounds⟩

/-- The images of the elements in order, if each has exactly one. -/
def images (p : Permutation Bool) : Outcome (Option (List Nat)) := do
  collect (List.range (← p.size)) []
where
  /-- The images of `rest` after those of `done`, kept last first. -/
  collect : (rest done : List Nat) → Outcome (Option (List Nat))
    | [], done => return some done.reverse
    | x :: rest, done => do
      match ← p.operation.value [x] with
      | some y => collect rest (y :: done)
      | none => return none

variable {m : Type → Type} [BooleanDomain E m]

/-- The permutation that moves nothing. -/
def identity (size : Nat) : Outcome (Permutation E) := do
  return ⟨⟨(← Relation.equal size).tensor⟩⟩

variable [Monad m] [MonadLiftT Outcome m]

/-- A function that hits every element; on a finite set it is a bijection. -/
def isPermutation (p : Permutation E) : m E := do
  let functional ← p.operation.isOperation
  let onto ← p.operation.isSurjective
  and functional onto

/-- First `q`, then `p`. -/
def compose (p q : Permutation E) : m (Permutation E) := do
  return ⟨← p.operation.compose q.operation⟩

/-- The number of inversions is odd, that is of pairs `i < j` with `p(j) < p(i)`. -/
def isOdd (p : Permutation E) : m E := do
  let less ← (do Relation.lessThan (← p.size) : Outcome (Relation E))
  let odd ← Contraction.query SemiringOps.linear
    [(less.tensor, ['i', 'j']), (p.tensor, ['x', 'i']), (p.tensor, ['y', 'j']),
      (less.tensor, ['y', 'x'])] []
  odd.toScalar

def isEven (p : Permutation E) : m E := do neg (← p.isOdd)

end Permutation

/-- The permutation with a given graph, which must be the graph of a bijection. -/
def Permutation.ofGraph (t : Tensor Bool) : Outcome (Permutation Bool) := do
  let p ← Permutation.ofOperation (← Operation.ofTensor t)
  if ← p.isPermutation then return p
  else .fail (.invalid .permutationGraph)

end FiniteStructures
