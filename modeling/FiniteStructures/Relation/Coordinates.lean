import FiniteStructures.Relation.Basic
import FiniteStructures.Contraction.Basic

/-!
Moving, dropping and joining coordinates.  Moves are axis permutations; projections and joins are
contractions, in which a coordinate that is not in the result has a witness.
-/

namespace FiniteStructures

namespace Relation

variable {E : Type}

/-- The order of coordinates reversed: the converse of a binary relation. -/
def revert (r : Relation E) : Outcome (Relation E) := do
  return ⟨← r.tensor.permute (List.range r.arity).reverse⟩

/-- Coordinates cycled: `(x₁, …, xₙ₋₁, x₀)` is related iff `(x₀, …, xₙ₋₁)` was. -/
def rotate (r : Relation E) : Outcome (Relation E) := do
  return ⟨← r.tensor.permute ((List.range r.arity).map fun i => (i + r.arity - 1) % r.arity)⟩

/-- The first two coordinates exchanged. -/
def swap (r : Relation E) : Outcome (Relation E) := do
  return ⟨← r.tensor.permute ((List.range r.arity).map fun i =>
    if i = 0 then 1 else if i = 1 then 0 else i)⟩

/-- The elements `x` with `(x, …, x)` related, as a unary relation. -/
def diagonal (r : Relation E) : Outcome (Relation E) := do
  return ⟨← r.tensor.reshape [← r.size] (List.replicate r.arity 0)⟩

/-- The variables of the chosen coordinates. -/
def choose (arity : Nat) (vars : List Char) (coords : List Nat) : Outcome (List Char) :=
  coords.mapM fun c => do
    match vars[c]? with
    | some v => return v
    | none => .arity arity (← Count.add c 1)

variable {m : Type → Type} [BooleanDomain E m] [Monad m] [MonadLiftT Outcome m]

/-- The tuples of the chosen coordinates of related tuples, in the chosen order. -/
def project (r : Relation E) (coords : List Nat) : m (Relation E) := do
  if coords.isEmpty then
    (Outcome.arity 1 0 : Outcome Unit)
  let vars ← Contraction.names r.arity
  let result ← choose r.arity vars coords
  ofTensor (← Contraction.query SemiringOps.logical [(r.tensor, vars)] result)

/-- Joins the last coordinate of `r` with the first one of `s` and sums it out.  Both must have
one. -/
def joinWith (ops : SemiringOps E m) (r s : Relation E) : m (Relation E) := do
  let arity := r.arity + s.arity
  if arity < 3 then
    (Outcome.arity 3 arity : Outcome Unit)
  let outer ← Contraction.names (arity - 2)
  let vars ← Contraction.names (arity - 1)
  let cut ← Count.sub r.arity 1
  if cut > outer.length then
    (Outcome.breach .outOfBounds : Outcome Unit)
  let middle := vars.drop (arity - 2)
  let left := outer.take cut ++ middle
  let right := middle ++ outer.drop cut
  ofTensor (← Contraction.query ops [(r.tensor, left), (s.tensor, right)] outer)

/-- Relational composition: some middle element relates both sides. -/
def compose (r s : Relation E) : m (Relation E) := joinWith SemiringOps.logical r s

/-- Composition that counts the middle elements modulo two. -/
def multiply (r s : Relation E) : m (Relation E) := joinWith SemiringOps.linear r s

/-- Direct product: the pair `(a, b)` has the number `a · |B| + b`. -/
def product (r s : Relation E) : m (Relation E) := do
  s.requireArity r.arity
  let left ← r.size
  let right ← s.size
  let shape ← (do Shape.uniform (← Count.mul left right) r.arity : Outcome (List Nat))
  return ⟨← Tensor.generate shape fun index => do
    let a ← r.get (index.map (· / right))
    let b ← s.get (index.map (· % right))
    BooleanDomain.and a b⟩

/-- The product with `k` more factors on the right. -/
def times (factor : Relation E) : (k : Nat) → Relation E → m (Relation E)
  | 0, r => return r
  | k + 1, r => do times factor k (← r.product factor)

/-- Direct power with `k` factors. -/
def power (r : Relation E) (k : Nat) : m (Relation E) := do
  times r k (← (full 1 r.arity : Outcome (Relation E)))

end Relation

end FiniteStructures
