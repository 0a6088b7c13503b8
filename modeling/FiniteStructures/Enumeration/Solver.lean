import FiniteStructures.Enumeration.Problem
import FiniteStructures.Enumeration.Settings
import FiniteStructures.Sat.Backend

/-!
Enumeration of the solutions of a problem.  The unknowns become fresh literals and the predicate
a formula.  Each model the backend finds is decoded and, before the next question, excluded by a
clause that asks for some relevant cell to differ:

    prepare    unknowns, pins, predicate, masks
    exclude    the clause that excludes a solution
    search     ask, decode, check, exclude, until there is no model left
-/

namespace FiniteStructures

/-- An unknown as literals, with the cells that tell solutions apart. -/
structure Unknown where
  name : String
  literals : Tensor Literal
  relevant : Tensor Bool

namespace Unknown

/-- The literals of the relevant cells, each with its truth value. -/
def relevantCells (u : Unknown) (values : Tensor Bool) : List (Literal × Bool) :=
  ((u.literals.elems.zip values.elems).zip u.relevant.elems).filterMap fun (cell, relevant) =>
    if relevant then some cell else none

end Unknown

namespace Enumeration

/-- Fresh literals for every unknown. -/
def mint (unknowns : Named (List Nat)) : Compile (Named (Tensor Literal)) :=
  unknowns.mapM fun (name, shape) => do return (name, ← Compile.freshTensor shape)

/-- Requires an unknown to have the given truth values. -/
def pin (literals : Named (Tensor Literal)) (name : String) (values : Tensor Bool) :
    Compile Unit := do
  let t ← literals.unknown name
  if t.shape ≠ values.shape then
    (Outcome.shapes t.shape values.shape : Outcome Unit)
  (t.elems.zip values.elems).forM fun (l, value) => do
    Compile.ensure (← if value then pure l else (l.neg : Outcome Literal))

/-- The relevant cells of an unknown; a mask must have its shape. -/
def markRelevant (p : Problem) (name : String) (literals : Tensor Literal) : Outcome Unknown :=
  match p.mask name with
  | none => .ok ⟨name, literals, literals.map fun _ => true⟩
  | some mask =>
    if mask.shape ≠ literals.shape then .shapes literals.shape mask.shape
    else .ok ⟨name, literals, mask⟩

/-- Builds the formula whose models are the solutions that agree with the pins. -/
def prepare (p : Problem) (pins : Solution) : Compile (List Unknown) := do
  let literals ← mint (← p.unknowns)
  pins.forM fun (name, values) => pin literals name values
  Compile.ensure (← p.compile literals)
  literals.mapM fun (name, t) => (markRelevant p name t : Outcome Unknown)

/-- The solution in a model. -/
def decode (unknowns : List Unknown) (model : Assignment) : Outcome Solution :=
  unknowns.mapM fun u => do return (u.name, ← model.decode u.literals)

/-- A literal that holds when the cell has another value. -/
def differs (l : Literal) (value : Bool) : Compile Literal :=
  BooleanDomain.xor l (BooleanDomain.constant value)

/-- The clause that excludes a solution, without literals that cannot hold. -/
def exclude (unknowns : List Unknown) (solution : Solution) : Compile Clause := do
  let cells := (unknowns.zip solution).flatMap fun (u, _, values) => u.relevantCells values
  let clause ← cells.mapM fun (l, value) => differs l value
  return clause.filter (· ≠ Literal.bottom)

/-- What one step of a search finds. -/
inductive Step where
  | exhausted
  | found (solution : Solution)
  /-- The solution is the only one. -/
  | last (solution : Solution)

/-- Takes a model: decodes it, checks it, and excludes it when another solution may exist. -/
def accept (p : Problem) (selfCheck : Bool) (unknowns : List Unknown) (position : Nat)
    (model : Assignment) : Compile Step := do
  let solution ← decode unknowns model
  if selfCheck then
    if ¬ (← (p.check solution : Outcome Bool)) then
      (Outcome.fail (.violation (.rejectedModel position)) : Outcome Unit)
  match ← exclude unknowns solution with
  | [] => return .last solution
  | clause =>
    Compile.addClause clause
    return .found solution

/-- What a search is asked for. -/
structure Task where
  problem : Problem
  selfCheck : Bool
  unknowns : List Unknown

variable {σ : Type} [SatBackend σ]

/-- Asks the backend about the formula as it stands. -/
def Task.ask (task : Task) (found : Nat) (backend : σ) (formula : Instance) :
    Outcome Step × σ × Instance :=
  match Compile.formula.exec formula with
  | (.error fault, formula) => (.error fault, backend, formula)
  | (.ok cnf, formula) =>
    match SatBackend.solve backend cnf with
    | (.error cause, backend) => (Outcome.fail cause, backend, formula)
    | (.ok none, backend) => (.ok .exhausted, backend, formula)
    | (.ok (some model), backend) =>
      let (outcome, formula) :=
        (accept task.problem task.selfCheck task.unknowns (found + 1) model).exec formula
      (outcome, backend, formula)

/-- At most `n` more solutions after those found, which are kept last first. -/
def Task.search (task : Task) : (n : Nat) → (found : List Solution) → σ → Instance →
    Outcome (List Solution × Stats) × σ
  | 0, found, backend, formula => (.ok (found.reverse, formula.stats), backend)
  | n + 1, found, backend, formula =>
    match task.ask found.length backend formula with
    | (.error fault, backend, _) => (.error fault, backend)
    | (.ok .exhausted, backend, formula) => (.ok (found.reverse, formula.stats), backend)
    | (.ok (.last solution), backend, formula) =>
      (.ok ((solution :: found).reverse, formula.stats), backend)
    | (.ok (.found solution), backend, formula) =>
      task.search n (solution :: found) backend formula

/-- More solutions than there are, whatever the unknowns: without a limit, no search of an honest
backend takes as many steps. -/
def patience (unknowns : List Unknown) : Nat :=
  Count.limit + Nat.pow 2 (unknowns.foldl (fun cells u => cells + u.literals.size) 0)

end Enumeration

/-- A backend with settings, pinned unknowns, and the sizes of the formula built last. -/
structure Solver (σ : Type) where
  backend : σ
  settings : Settings
  pins : Solution
  lastStats : Option Stats

namespace Solver

variable {σ : Type}

/-- A solver before any call. -/
def ofBackend (backend : σ) (settings : Settings) : Solver σ := ⟨backend, settings, [], none⟩

/-- Pins an unknown to truth values in every later call. -/
def fix (s : Solver σ) (name : String) (values : Tensor Bool) : Solver σ :=
  { s with pins := s.pins.insert name values }

/-- Drops all pins. -/
def clearFixed (s : Solver σ) : Solver σ := { s with pins := [] }

variable [SatBackend σ]

/-- The solutions of a problem that agree with the pins, each once by its relevant cells, up to a
limit, which else is that of the settings. -/
def solveAll (s : Solver σ) (p : Problem) (max : Option Nat) :
    Outcome (List Solution) × Solver σ :=
  let s := { s with backend := SatBackend.clear s.backend }
  match (Enumeration.prepare p s.pins).exec Instance.initial with
  | (.error fault, _) => (.error fault, s)
  | (.ok unknowns, formula) =>
    let limit := (max <|> s.settings.maxSolutions).getD (Enumeration.patience unknowns)
    let task : Enumeration.Task := ⟨p, s.settings.selfCheck, unknowns⟩
    match task.search limit [] s.backend formula with
    | (.error fault, backend) => (.error fault, { s with backend })
    | (.ok (solutions, stats), backend) =>
      (.ok solutions, { s with backend, lastStats := some stats })

/-- Some solution of a problem, if there is one. -/
def solveOne (s : Solver σ) (p : Problem) : Outcome (Option Solution) × Solver σ :=
  let (outcome, s) := s.solveAll p (some 1)
  (outcome.map List.head?, s)

end Solver

end FiniteStructures
