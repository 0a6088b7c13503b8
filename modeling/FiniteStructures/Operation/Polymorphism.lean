import FiniteStructures.Operation.Superposition

/-!
Preservation.  An operation f preserves a relation R when, for every matrix whose columns lie in
R, the tuple of the values of f at its rows lies in R.  One contraction looks for a counterexample:
the cell in row i and column j has a variable of its own, and so has the value at row i.
-/

namespace FiniteStructures

namespace Operation

open BooleanDomain

/-- Largest arity of an operation whose preservation is implemented. -/
def maxPreservingArity : Nat := 3

/-- Largest arity of a relation whose preservation is implemented. -/
def maxPreservedArity : Nat := 4

/-- The combination of arities is implemented. -/
def requirePreservation (operationArity relationArity : Nat) : Outcome Unit :=
  if relationArity = 0 ∨ relationArity > maxPreservedArity then
    .fail (.unsupported (.relationArity relationArity))
  else if operationArity > maxPreservingArity then
    .fail (.unsupported (.operationArity operationArity))
  else .ok ()

variable {E : Type} {m : Type → Type} [BooleanDomain E m] [Monad m] [MonadLiftT Outcome m]

/-- The entries of the counterexample query: each row with its value lies in the graph, each column
in the relation, and the tuple of values outside of it. -/
def violationEntries (f : Operation E) (r outside : Relation E) (vars : List Char) :
    List (Tensor E × List Char) :=
  let rows := r.arity
  let columns := f.arity
  let values := vars.drop (rows * columns)
  let rowEntries := (List.range rows).map fun i =>
    (f.tensor, (values.drop i).take 1 ++ (vars.drop (i * columns)).take columns)
  let columnEntries := (List.range columns).map fun j =>
    (r.tensor, (List.range rows).filterMap fun i => vars[i * columns + j]?)
  rowEntries ++ columnEntries ++ [(outside.tensor, values)]

/-- The operation preserves the relation. -/
def preserves (f : Operation E) (r : Relation E) : m E := do
  let relationSize ← r.size
  let operationSize ← f.size
  if relationSize ≠ operationSize then
    (Outcome.shapes [operationSize] [relationSize] : Outcome Unit)
  requirePreservation f.arity r.arity
  let vars ← Contraction.names (r.arity * f.arity + r.arity)
  let outside ← r.complement
  let violated ← Contraction.query SemiringOps.logical (f.violationEntries r outside vars) []
  neg (← violated.toScalar)

end Operation

end FiniteStructures
