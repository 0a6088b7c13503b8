import FiniteStructures.Relation.Coordinates

/-!
Closures of binary relations.  The transitive closure repeats `R ← R ∪ R∘R`; each round doubles
the length of the paths that are covered, so as many rounds suffice as doublings lead from 1 to
the size of the set.
-/

namespace FiniteStructures

namespace Relation

variable {E : Type} {m : Type → Type} [BooleanDomain E m] [Monad m] [MonadLiftT Outcome m]

/-- The union with equality. -/
def reflexiveClosure (r : Relation E) : m (Relation E) := do
  r.requireArity 2
  r.union (← (do equal (← r.size) : Outcome (Relation E)))

/-- The union with the converse. -/
def symmetricClosure (r : Relation E) : m (Relation E) := do
  r.requireArity 2
  r.union (← r.revert)

/-- How often 1 must be doubled to reach `n`. -/
def doublings (n : Nat) : Nat := if n ≤ 1 then 0 else (n - 1).log2 + 1

/-- At most `n` rounds of `R ← R ∪ R∘R`, fewer when a round changes nothing. -/
def closeUp [DecidableEq E] : (n : Nat) → Relation E → m (Relation E)
  | 0, r => return r
  | n + 1, r => do
    let step ← r.compose r
    let next ← r.union step
    if next = r then return r
    closeUp n next

/-- The least transitive relation that contains `r`. -/
def transitiveClosure [DecidableEq E] (r : Relation E) : m (Relation E) := do
  r.requireArity 2
  let size ← r.size
  closeUp (doublings size) r

end Relation

end FiniteStructures
