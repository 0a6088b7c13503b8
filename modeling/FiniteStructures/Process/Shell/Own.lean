import FiniteStructures.Process.Cat
import FiniteStructures.Process.Shell.Alias
import FiniteStructures.Process.Shell.Background
import FiniteStructures.Process.Shell.Input
import FiniteStructures.Process.Shell.Lookup
import FiniteStructures.Process.Shell.Output
import FiniteStructures.Process.Shell.Signal
import FiniteStructures.Process.Shell.Start

/-!
The commands of the shell by their names, and the programs that it runs.
-/

namespace FiniteStructures

namespace Shell

open Script

/-! ## Programs -/

/-- Another shell that begins as a program run by this one. -/
def child (s : Shell) (process : Nat) (name : Bytes) : Shell :=
  let world : World := { s.world with
    nextProcess := max s.world.nextProcess (process + 1)
    processes := process :: s.world.processes.filter (· ≠ process)
    dispositions := inherited s process }
  let parent := if process = s.self then s.parent else s.self
  { start world process parent name (environment s) s.current s.channels with
    patience := s.patience
    permissions := s.permissions
    limits := s.limits }

/-- Runs a shell as a program in the process of a number. -/
def runShell (again : Step) (process : Nat) (name : Bytes) (args : List Bytes) :
    Action Outcome := do
  runInner (settle again) again (child (← get) process name) (runCommandLine again args)

/-- Runs a program that takes the place of the shell, which then ends by the same signal. -/
def replaceBy (again : Step) (tool : Tool) (name : Bytes) (args : List Bytes) : Action Nat := do
  goOn again
  match tool with
  | .succeed => return 0
  | .fail => return 1
  | .concatenate => Cat.run name args
  | .shell =>
    match ← runShell again (← get).self name args with
    | (_, some signal) => throw (.killed signal)
    | (status, none) => return status

/-- Runs a program, which may take the place of the shell. -/
def runTool (again : Step) (replaces : Bool) (tool : Tool) (name : Bytes) (args : List Bytes) :
    Action Nat := do
  if replaces then replaceBy again tool name args
  else asProcess again do
    match tool with
    | .succeed => return 0
    | .fail => return 1
    | .concatenate => runPart again (Cat.run name args)
    | .shell =>
      let (status, signal) ← runShell again (← get).world.nextProcess name args
      reportSignal signal
      return status

/-- The program that a name stands for. -/
def toolOf (s : Shell) (usual : Bool) (name : Bytes) : Except FileError Tool := do
  s.world.tree.program s.current (← programFile s usual name)

/-- Complains that a program cannot be run. -/
def warnOfProgram (name : Bytes) (e : FileError) : Action Unit :=
  warn (name ++ ": ".toList ++ (programFault e).toList)

/-- Runs the program of a name. -/
def runProgram (again : Step) (replaces usual : Bool) (name : Bytes) (args : List Bytes) :
    Action Nat := do
  let s ← get
  match programFile s usual name, toolOf s usual name with
  | _, .ok tool =>
    remember name
    runTool again replaces tool name args
  | .ok _, .error e =>
    warnOfProgram name e
    return programStatus e
  | .error _, .error e =>
    warnOfProgram name e
    return if name.contains '/' then programStatus e else 127

/-! ## Commands of the shell -/

/-- The command `exec`: a program takes the place of the shell. -/
def execCommand (again : Step) (args : List Bytes) : Action Nat := do
  match ← noOptions args with
  | [] => return 0
  | name :: args =>
    match toolOf (← get) false name with
    | .error e =>
      warnOfProgram name e
      modify fun s => { s with status := programStatus e }
      throw .exit
    | .ok tool =>
      let traps := (← get).traps
      modify fun s => { s with traps := traps.filter (·.2.isEmpty), command := none }
      let status ← runTool again true tool name args
      modify fun s => { s with status }
      throw .exit

/-- The command `exit`. -/
def exitCommand (args : List Bytes) : Action Nat := do
  match args with
  | [] => modify fun s => { s with status := s.exitStatus.getD s.status }
  | text :: _ =>
    let status ← number text
    modify fun s => { s with status }
  throw .exit

/-- The command `return`. -/
def returnCommand (args : List Bytes) : Action Nat := do
  let status ← match args with
    | [] => do pure (← get).status
    | text :: _ => number text
  modify fun s => { s with leaving := .function }
  return status

/-- The commands `break` and `continue`, which leave some of the loops that are running. -/
def leaveLoops (leaving : Nat → Leaving) (args : List Bytes) : Action Nat := do
  let n ← match args with
    | [] => pure 1
    | text :: _ => do
      let n ← number text
      if n = 0 then refuseText "Illegal number: " text ""
      pure n
  modify fun s =>
    let n := min n s.loops
    if n = 0 then s else { s with leaving := leaving n }
  return 0

/-- The file that the command `.` reads: one without a slash is looked for like a program. -/
def scriptFile (name : Bytes) : Action Bytes := do
  if name.contains '/' then return name
  let s ← get
  match searchIn s isScript name .notFound (directoriesOf (searchPathOf s false) []) with
  | .ok file => return file
  | .error _ => refuseText "" name ": not found"

/-- The command `.`, which runs the script in a file. -/
def dotCommand (again : Step) (args : List Bytes) : Action Nat := do
  match ← noOptions args with
  | [] => return 0
  | name :: _ =>
    let file ← scriptFile name
    match ← openFile .read file with
    | .error e => refuseFile .read file e
    | .ok stream =>
      modify fun s => { s with command := some file }
      let status ← runScript again (unread (← get).world stream)
      modify fun s => { s with
        leaving := if s.leaving = .function then .nothing else s.leaving }
      return status

/-- Runs a command of the shell. -/
def ownCommand (again : Step) (tested : Bool) (name : Bytes) (args : List Bytes) : Action Nat :=
  match String.ofList name with
  | ":" | "true" => return 0
  | "false" => return 1
  | "." => dotCommand again args
  | "[" => bracketCommand args
  | "alias" => aliasCommand args
  | "bg" | "fg" => continueCommand args
  | "break" => leaveLoops .loops args
  | "cd" | "chdir" => cdCommand args
  | "command" => commandCommand args
  | "continue" => leaveLoops .turn args
  | "echo" => echoCommand args
  | "eval" => runText again tested (Bytes.join [' '] args)
  | "exec" => execCommand again args
  | "exit" => exitCommand args
  | "export" => exportCommand args
  | "getopts" => getoptsCommand args
  | "hash" => hashCommand args
  | "jobs" => jobsCommand args
  | "kill" => killCommand args
  | "local" => localCommand args
  | "printf" => printfCommand args
  | "pwd" => pwdCommand args
  | "read" => readCommand args
  | "readonly" => readonlyCommand args
  | "return" => returnCommand args
  | "set" => setCommand args
  | "shift" => shiftCommand args
  | "test" => testCommand args
  | "times" => timesCommand
  | "trap" => trapCommand args
  | "type" => typeCommand args
  | "ulimit" => ulimitCommand args
  | "umask" => umaskCommand args
  | "unalias" => unaliasCommand args
  | "unset" => unsetCommand args
  | _ => waitCommand again args

end Shell

end FiniteStructures
