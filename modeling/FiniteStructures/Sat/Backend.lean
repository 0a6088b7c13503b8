import FiniteStructures.Sat.Literal

/-!
SAT backends.  A backend decides formulas: it answers with a model, or with none when the formula
has no model.  It may keep what it learned from one call to the next; the formulas that follow
each other must then extend one another until the backend is cleared.
-/

namespace FiniteStructures

/-- The states of a backend that can decide formulas. -/
class SatBackend (σ : Type) where
  /-- The name used in errors. -/
  name : σ → String
  /-- Forgets every formula. -/
  clear : σ → σ
  /-- Decides a formula. -/
  solve : σ → Cnf → Except Error (Option Assignment) × σ

end FiniteStructures
