import FiniteStructures.Sat.Instance
import FiniteStructures.Tensor.Stack

/-!
Problems.  A problem names its unknowns, tensors of fixed shapes, and has a predicate about them:
over literals it becomes a formula, over truth values it checks a solution.  A predicate that is
stated once for all boolean domains gives both.  Masks mark the cells by which solutions are told
apart.
-/

namespace FiniteStructures

/-- Values by name, in order; no name comes twice. -/
abbrev Named (α : Type) := List (String × α)

/-- Sets the value of a name.  A new name comes last, a known one keeps its place. -/
def Named.insert {α : Type} (name : String) (value : α) : Named α → Named α
  | [] => [(name, value)]
  | (key, old) :: rest =>
    if key = name then (key, value) :: rest else (key, old) :: Named.insert name value rest

/-- The tensor of an unknown. -/
def Named.unknown {E : Type} (values : Named (Tensor E)) (name : String) : Outcome (Tensor E) :=
  match values.lookup name with
  | some t => .ok t
  | none => .fail (.invalid (.unknownName name))

/-- Truth values for the cells of every unknown. -/
abbrev Solution := Named (Tensor Bool)

/-- A predicate about named tensors, stated for all boolean domains at once. -/
abbrev Predicate : Type 1 :=
  {E : Type} → {m : Type → Type} → [BooleanDomain E m] → [Monad m] → [MonadLiftT Outcome m] →
    [DecidableEq E] → Named (Tensor E) → m E

/-- A predicate about unknowns of given shapes, in the two domains in which it is used. -/
structure Problem where
  /-- The unknowns and their shapes, in order. -/
  unknowns : Outcome (Named (List Nat))
  /-- The predicate as a condition of a formula. -/
  compile : Named (Tensor Literal) → Compile Literal
  /-- The predicate holds of truth values. -/
  check : Solution → Outcome Bool
  /-- The cells of an unknown that tell solutions apart; all of them when there is no mask. -/
  mask : String → Option (Tensor Bool)

/-- The problem of a predicate, without masks. -/
def Problem.ofPredicate (unknowns : Outcome (Named (List Nat))) (predicate : Predicate) :
    Problem where
  unknowns
  compile := predicate
  check := predicate
  mask _ := none

namespace Solution

/-- A tuple in parentheses. -/
def showTuple (tuple : List Nat) : String := "(" ++ ",".intercalate (tuple.map toString) ++ ")"

/-- One line per unknown: its name and the tuples of its true cells. -/
def lines (s : Solution) : List String :=
  s.map fun (name, values) => name ++ ": " ++ " ".intercalate (values.tuples.map showTuple)

/-- The lines of a solution, each with its end. -/
def render (s : Solution) : String := String.join (s.lines.map (· ++ "\n"))

/-- One unknown of several solutions, stacked along a new last axis. -/
def stack (solutions : List Solution) (name : String) : Outcome (Tensor Bool) := do
  Tensor.concat (← solutions.mapM fun s => s.unknown name)

end Solution

end FiniteStructures
