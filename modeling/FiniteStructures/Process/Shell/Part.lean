import FiniteStructures.Process.Script.Grammar
import FiniteStructures.Process.Shell.Basic

/-!
Running texts and shells to their end.  A text is read and run line by line, so that its first lines
run even if a later one cannot be read.  A part of a shell begins with all that the shell has and
leaves nothing but changes of the world.

Running a command is a step that is given.
-/

namespace FiniteStructures

/-- Runs a command and gives its status; `tested` where a failure decides something. -/
abbrev Step := (tested : Bool) → Script.Command → Action Nat

namespace Shell

open Script

/-- Runs the lines of a text, at most `n`; `status` is that of the last command. -/
def runLines (again : Step) (tested : Bool) : (n : Nat) → Reader → (status : Nat) → Action Nat
  | 0, _, status => return status
  | n + 1, reader, status => do
    let s ← get
    match Reader.line?.run { reader with fresh := s.nextDocument, aliases := s.aliases } with
    | .error e =>
      modify fun s => { s with line := e.line }
      refuse e.message.toList
    | .ok (none, _) => return status
    | .ok (some c, reader) =>
      modify fun s => { s with
        aliases := reader.aliases
        documents := reader.documents ++ s.documents
        nextDocument := reader.fresh }
      let status ← match c with
        | .skip => pure status
        | c => again tested c
      if (← get).leaving ≠ .nothing then return status
      runLines again tested n { reader with documents := [] } status

/-- Runs a text.  After it, only those aliases are in use that were in use before. -/
def runText (again : Step) (tested : Bool) (text : Bytes) : Action Nat := do
  let inUse := ((← get).aliases.filter (·.inUse)).map (·.name)
  always (runLines again tested Reader.most (Reader.ofText text 0 []) 0)
    (modify fun s => { s with aliases := s.aliases.leave fun name => !inUse.contains name })

/-! ## Ends -/

/-- Runs what is to be run at the end of the shell.  The status stays, unless that run ends with
another one. -/
def finish (again : Step) : Action Unit := do
  match (← get).traps.lookup 0 with
  | none | some [] => return
  | some text =>
    let status := (← get).status
    modify fun s => { s with
      traps := s.traps.filter fun t => t.1 ≠ 0
      leaving := .nothing
      exitStatus := some status }
    match ← ExceptT.lift (runText again false text).run with
    | .ok _ | .error .failure => modify fun s => { s with status }
    | .error .exit => return
    | .error stop => throw stop

/-- Runs an action to its end and then what is to be run at the end of the shell. -/
def toEnd (again : Step) (body : Action Nat) : Action Unit := do
  match ← ExceptT.lift body.run with
  | .ok status =>
    modify fun s => { s with status }
    finish again
  | .error .exit | .error .failure => finish again
  | .error stop => throw stop

/-- Stops the shell if a signal was sent that ends it. -/
def checkDoomed : Action Unit := do
  let s ← get
  if let some signal := s.world.doomed.lookup s.self then throw (.killed signal)

/-- How a process ended: its status, and the signal that ended it. -/
abbrev Outcome := Nat × Option Nat

/-- Runs another shell in the same world.  The jobs that it leaves are brought to their end
by `settle`. -/
def runInner (settle : Action Unit) (again : Step) (inner : Shell) (body : Action Nat) :
    Action Outcome := do
  let s ← get
  set inner
  let result ← ExceptT.lift (toEnd again body).run
  if result matches .error .endless then throw .endless
  settle
  let t ← get
  set { s with world := { t.world with
    processes := t.world.processes.filter fun p => p ≠ inner.self || p = s.self } }
  match result with
  | .error (.killed signal) => return (128 + signal, some signal)
  | _ => return (t.status % 256, none)

/-- What processes do about signals, for one that begins with traps of another. -/
def inherited (s : Shell) (process : Nat) : List ((Nat × Nat) × Disposition) :=
  (s.traps.filter (·.2.isEmpty)).map (fun t => ((process, t.1), .ignored)) ++
    s.world.dispositions.filter fun d => d.1.1 ≠ process

/-- The shell as a part of itself. -/
def part (s : Shell) : Shell :=
  let self := s.world.nextProcess
  { s with
    self
    parent := s.self
    traps := s.traps.filter fun t => t.2.isEmpty
    isLast := true
    childEnded := false
    jobs := []
    world := { s.world with
      nextProcess := self + 1
      processes := self :: s.world.processes
      dispositions := inherited s self } }

end Shell

end FiniteStructures
