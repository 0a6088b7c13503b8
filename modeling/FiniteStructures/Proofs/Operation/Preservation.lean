import FiniteStructures.Operation.Polymorphism
import FiniteStructures.Proofs.Operation.Graphs
import Mathlib.Logic.Equiv.Fin.Basic

/-!
Polymorphisms.  For an operation with `k` arguments and a relation with `m` coordinates, a matrix of
`m` rows and `k` columns and a column of values are laid out in a list of variables,

    x₀₀ … x₀ₖ₋₁  x₁₀ …  xₘ₋₁ₖ₋₁  y₀ … yₘ₋₁        vars[i · k + j],  vars[m · k + i]

and the entries of the query, read at such variables, say that yᵢ is a value at row i, that all
columns are in the relation and that y is not.  A witness of all entries violates preservation.
-/

namespace FiniteStructures

namespace Operation

open Outcome Tensor

variable {n k m : Nat} {f : Operation Bool} {r outside : Relation Bool}

/-- The cells of the matrix row by row, and then the values. -/
def layout (k m : Nat) : (Fin m × Fin k) ⊕ Fin m ≃ Fin (m * k + m) :=
  (Equiv.sumCongr finProdFinEquiv (Equiv.refl _)).trans finSumFinEquiv

variable {vars : List Char}

/-- The shapes of a graph and of a relation on the same elements. -/
structure Fits (k m n : Nat) (f : Operation Bool) (r : Relation Bool) : Prop where
  graph : f.tensor.shape = List.replicate (k + 1) n
  tuples : r.tensor.shape = List.replicate m n

theorem Fits.arity (h : Fits k m n f r) : f.arity = k := arity_of_graph h.graph

theorem Fits.size (h : Fits k m n f r) : f.size = .ok n := Relation.size_of_shape h.graph

end Operation

end FiniteStructures
