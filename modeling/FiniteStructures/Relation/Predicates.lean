import FiniteStructures.Relation.Coordinates

/-!
Properties of relations as elements of the boolean domain: over truth values they are decided,
over literals they become conditions of a formula.
-/

namespace FiniteStructures

namespace Relation

open BooleanDomain

variable {E : Type} {m : Type → Type} [BooleanDomain E m] [Monad m] [MonadLiftT Outcome m]

def isFull (r : Relation E) : m E := all r.tensor.elems

def isEmpty (r : Relation E) : m E := do neg (← any r.tensor.elems)

/-- The number of related tuples is odd. -/
def isOddCard (r : Relation E) : m E := parity r.tensor.elems

def isSubsetOf (r s : Relation E) : m E := do
  all (← r.tensor.map2M leq s.tensor).elems

def isEqualTo (r s : Relation E) : m E := do
  all (← r.tensor.map2M equ s.tensor).elems

/-- Each choice of the other coordinates has exactly one first coordinate: the graph of a function
with its value at coordinate 0. -/
def isFunction (r : Relation E) : m E := do
  all (← r.tensor.foldM 1 one).elems

/-- Every constant tuple is related. -/
def isReflexive (r : Relation E) : m E := do
  all (← r.diagonal).tensor.elems

/-- Membership does not depend on the order of coordinates.  The exchange of the first two and the
cycle of all generate every permutation, so these two are tested. -/
def isSymmetric (r : Relation E) : m E := do
  if r.arity < 2 then return truth
  let swapped ← r.isSubsetOf (← r.swap)
  let rotated ← r.isSubsetOf (← r.rotate)
  and swapped rotated

def isTransitive (r : Relation E) : m E := do
  r.requireArity 2
  (← r.compose r).isSubsetOf r

def isAntisymmetric (r : Relation E) : m E := do
  r.requireArity 2
  let both ← r.intersect (← r.revert)
  both.isSubsetOf (← (do equal (← r.size) : Outcome (Relation E)))

/-- Any two elements are related one way or the other, or equal. -/
def isTrichotome (r : Relation E) : m E := do
  r.requireArity 2
  let either ← r.union (← r.revert)
  let either ← either.union (← (do equal (← r.size) : Outcome (Relation E)))
  either.isFull

def isEquivalence (r : Relation E) : m E := do
  let reflexive ← r.isReflexive
  let symmetric ← r.isSymmetric
  let transitive ← r.isTransitive
  all [reflexive, symmetric, transitive]

def isPartialOrder (r : Relation E) : m E := do
  let reflexive ← r.isReflexive
  let antisymmetric ← r.isAntisymmetric
  let transitive ← r.isTransitive
  all [reflexive, antisymmetric, transitive]

def isTotalOrder (r : Relation E) : m E := do
  let order ← r.isPartialOrder
  let total ← r.isTrichotome
  and order total

/-- The tuples that become related by changing coordinate `i`. -/
def cylinder (r : Relation E) (vars : List Char) (i : Nat) : m (Tensor E) := do
  let shadow ← Contraction.query SemiringOps.logical [(r.tensor, vars)] (vars.eraseIdx i)
  let size ← r.size
  shadow.reshape (List.replicate r.arity size) ((List.range r.arity).eraseIdx i)

/-- Some unrelated tuple becomes related by changing any single one of its coordinates: the
relation is no intersection of relations with fewer coordinates. -/
def isEssential (r : Relation E) : m E := do
  let vars ← Contraction.names r.arity
  let witness ← (List.range r.arity).foldlM (fun witness i => do
      witness.map2M and (← r.cylinder vars i)) (← r.complement).tensor
  any witness.elems

end Relation

end FiniteStructures
