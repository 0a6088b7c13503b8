import FiniteStructures.Process.Shell.Connection
import FiniteStructures.Process.Shell.Limit
import FiniteStructures.Process.Shell.Option

/-!
The beginning of a shell: its variables, and the script that its command line names.
-/

namespace FiniteStructures

namespace Shell

/-- The variables of a shell that begins, some of which it inherits. -/
def firstVars (inherited : List (Bytes × Bytes)) (current : Path) (parent : Nat) :
    List (Bytes × Variable) :=
  let entry (exported : Bool) (v : Bytes × Bytes) : Bytes × Variable :=
    (v.1, ⟨some v.2, exported, false⟩)
  let own : List (Bytes × Bytes) :=
    [("IFS".toList, [' ', '\t', '\n']), ("OPTIND".toList, ['1']),
      ("PPID".toList, Bytes.ofNat parent)]
  let usual : List (Bytes × Bytes) :=
    [("PATH".toList, FileTree.searchPath.toList), ("PS1".toList, ['#', ' ']),
      ("PS2".toList, ['>', ' ']), ("PS4".toList, ['+', ' '])]
  let kept := inherited.filter fun v =>
    Bytes.isName v.1 && !own.any (·.1 = v.1) && v.1 ≠ "PWD".toList
  own.map (entry false) ++ [entry true ("PWD".toList, Path.render current)] ++
    kept.map (entry true) ++
    (usual.filter fun v => !kept.any (·.1 = v.1)).map (entry false)

/-- A shell that begins. -/
def start (world : World) (process parent : Nat) (name : Bytes) (inherited : List (Bytes × Bytes))
    (current : Path) (channels : List (Nat × Nat)) : Shell where
  world
  process
  self := process
  parent
  name
  arguments := []
  vars := firstVars inherited current parent
  functions := []
  aliases := []
  options := []
  current
  channels
  traps := []
  status := 0
  innerStatus := 0
  exitStatus := none
  leaving := .nothing
  loops := 0
  saved := []
  depth := 0
  line := 0
  command := none
  documents := []
  nextDocument := 0
  jobs := []
  lastJob := none
  remembered := []
  isLast := false
  nextOption := (1, none)
  childEnded := false
  patience := mostTurns
  permissions := .usual
  limits := usualLimits

/-- Runs a script. -/
def runScript (again : Step) (script : Bytes) : Action Nat :=
  runText again false (script.filter (·.toNat ≠ 0))

/-- Runs the input as a script. -/
def runInput (again : Step) : Action Nat := do
  match ← stream? 0 with
  | none => return 0
  | some (number, s) =>
    let script := unread (← get).world s
    updateWorld fun w => consume w number s script.length
    runScript again script

/-- Runs the script in a file. -/
def runFile (again : Step) (name : Bytes) : Action Nat := do
  match ← openFile .read name with
  | .error e => refuseFile .read name e
  | .ok s =>
    modify fun t => { t with name }
    settleOptions
    runScript again (unread (← get).world s)

/-- Runs what the command line of a shell says: a text, the script in a file, or the input. -/
def runCommandLine (again : Step) (args : List Bytes) : Action Nat := do
  let words ← choose "cl" args
  if (← get).hasOption 'i' then setOption true 'm'
  let setOperands (operands : List Bytes) : Action Unit :=
    modify fun s => { s with arguments := operands }
  match words.operands with
  | [] =>
    if words.letters.contains 'c' then refuse "-c requires an argument".toList
    else runInput again
  | first :: rest =>
    if words.letters.contains 'c' then
      setOperands rest.tail
      modify fun s => { s with name := rest.headD s.name }
      settleOptions
      runScript again first
    else if (← get).hasOption 's' then
      setOperands (first :: rest)
      settleOptions
      runInput again
    else
      setOperands rest
      runFile again first

end Shell

end FiniteStructures
