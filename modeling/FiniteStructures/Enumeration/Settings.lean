import FiniteStructures.Sat.Spec
import FiniteStructures.Text.Numeral

/-!
Settings of an enumeration, and the variables of the environment that change them.
-/

namespace FiniteStructures

/-- Settings shared by every enumeration of a solver. -/
structure Settings where
  backend : BackendSpec := .inProcess
  /-- Evaluate the predicate on every model before it is listed. -/
  selfCheck : Bool := true
  /-- Stop after this many solutions. -/
  maxSolutions : Option Nat := none
deriving DecidableEq, Repr

namespace Settings

/-- The variable that names the backend. -/
def backendVariable : String := "RELSAT_BACKEND"

/-- The variable that limits enumerations. -/
def maxSolutionsVariable : String := "RELSAT_MAX_SOLUTIONS"

/-- A count with blanks around it. -/
def readCount (name value : String) : Except SettingError Nat :=
  match Text.count? (Text.trim value.toList) with
  | some n => .ok n
  | none => .error (.notACount name value)

/-- The settings that an environment asks for; the backend is read first. -/
def ofEnvironment (lookup : String → Option String) : Except SettingError Settings := do
  let backend ←
    match lookup backendVariable with
    | some text => BackendSpec.parse text
    | none => pure BackendSpec.inProcess
  let maxSolutions ← (lookup maxSolutionsVariable).mapM (readCount maxSolutionsVariable)
  return { backend, maxSolutions }

end Settings

end FiniteStructures
