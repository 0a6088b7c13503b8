import FiniteStructures.Relation.Predicates

/-!
Partial orders, as binary relations.
-/

namespace FiniteStructures

/-- A binary relation that is meant to be a partial order. -/
structure Poset (E : Type) where
  relation : Relation E
deriving DecidableEq

namespace Poset

variable {E : Type}

/-- The order of a binary relation. -/
def ofRelation (r : Relation E) : Outcome (Poset E) :=
  if r.arity ≠ 2 then .arity 2 r.arity else .ok ⟨r⟩

/-- Size of the set. -/
def size (p : Poset E) : Outcome Nat := p.relation.size

/-- The opposite order. -/
def invert (p : Poset E) : Outcome (Poset E) := do return ⟨← p.relation.revert⟩

variable {m : Type → Type} [BooleanDomain E m]

/-- The numbers in their natural order. -/
def chain (size : Nat) : Outcome (Poset E) := do return ⟨← Relation.lessOrEqual size⟩

/-- Nothing is below anything else. -/
def antichain (size : Nat) : Outcome (Poset E) := do return ⟨← Relation.equal size⟩

variable [Monad m] [MonadLiftT Outcome m]

def isPartialOrder (p : Poset E) : m E := p.relation.isPartialOrder

def isTotalOrder (p : Poset E) : m E := p.relation.isTotalOrder

def intersect (p q : Poset E) : m (Poset E) := do
  return ⟨← p.relation.intersect q.relation⟩

/-- The pairs `x < y`. -/
def strict (p : Poset E) : m (Relation E) := do
  let equal ← (do Relation.equal (← p.size) : Outcome (Relation E))
  p.relation.intersect (← equal.complement)

/-- The pairs `x < y` with nothing strictly between. -/
def covers (p : Poset E) : m (Relation E) := do
  let strict ← p.strict
  let between ← strict.compose strict
  let direct ← between.complement
  strict.intersect direct

end Poset

/-- The order with a given relation, which must be a partial order. -/
def Poset.ofTable (t : Tensor Bool) : Outcome (Poset Bool) := do
  let p ← Poset.ofRelation (← Relation.ofTensor t)
  if ← p.isPartialOrder then return p
  else .fail (.invalid .partialOrder)

end FiniteStructures
