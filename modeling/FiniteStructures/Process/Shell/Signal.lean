import FiniteStructures.Process.Shell.Background

/-!
Signals.  A process ignores a signal, catches it, or is ended by it; a shell that catches one runs
a text before its next command.
-/

namespace FiniteStructures

namespace Shell

/-- The names of signals by their numbers; 0 is the end of the shell. -/
def signalNames : List String :=
  ["EXIT", "HUP", "INT", "QUIT", "ILL", "TRAP", "ABRT", "BUS", "FPE", "KILL", "USR1", "SEGV",
    "USR2", "PIPE", "ALRM", "TERM", "16", "CHLD", "CONT", "STOP", "TSTP", "TTIN", "TTOU", "URG", "XCPU",
    "XFSZ", "VTALRM", "PROF", "WINCH", "IO", "PWR", "SYS", "32", "33", "RTMIN"] ++
    (List.range 15).map (fun n => "RTMIN+" ++ toString (n + 1)) ++
    (List.range 14).map (fun n => "RTMAX-" ++ toString (14 - n)) ++ ["RTMAX"]

def signalName (signal : Nat) : Bytes := (signalNames.getD signal "").toList

/-- The number of a signal, from its number or from its name in any case. -/
def signalOf? (least : Nat) (text : Bytes) : Option Nat :=
  if !text.isEmpty && text.all Char.isDigit then
    let n := Numeral.ofDigits 10 text
    if n < signalNames.length then some n else none
  else
    (List.range signalNames.length).find? fun n =>
      least ≤ n && signalName n = text.map Char.toUpper

/-- The signals that have no effect on a process that does nothing about them. -/
def harmless : List Nat := [17, 18, 23, 28]

/-- The signals that stop a process until it is told to go on. -/
def stopping : List Nat := [19, 20, 21, 22]

/-- Sends a signal, and tells whether there is such a process. -/
def send (target signal : Nat) : Action Bool := do
  let s ← get
  if !s.world.processes.contains target then return false
  if signal = 18 then
    updateWorld fun w => { w with
      doomed := w.doomed.filter fun d => d.1 ≠ target || !stopping.contains d.2 }
  match if signal = 9 then none else s.world.dispositions.lookup (target, signal) with
  | some .ignored => return true
  | some .caught =>
    updateWorld fun w => { w with arrived := w.arrived ++ [(target, signal)] }
    return true
  | none =>
    if signal ≠ 0 && !harmless.contains signal then
      updateWorld fun w => { w with doomed := w.doomed ++ [(target, signal)] }
      checkDoomed
    return true

/-- Runs the texts of the signals that have arrived, given last; the status stays. -/
def runArrived (again : Step) : List Nat → Action Unit
  | [] => return
  | signal :: rest => do
    let s ← get
    if s.leaving ≠ .nothing then
      updateWorld fun w => { w with
        arrived := w.arrived ++ (signal :: rest).map fun signal => (s.self, signal) }
    else
      match s.traps.lookup signal with
      | none => runArrived again rest
      | some text =>
        discard <| runText again false text
        if (← get).leaving ≠ .function then modify fun t => { t with status := s.status }
        runArrived again rest

/-- Runs what is to be run for the signals that have arrived. -/
def runTraps (again : Step) : Action Unit := do
  let s ← get
  let isMine (a : Nat × Nat) : Bool := a.1 = s.self
  if !(s.childEnded || s.world.arrived.any isMine) || s.leaving ≠ .nothing then return
  let mine := (s.world.arrived.filter isMine).map (·.2) ++ if s.childEnded then [17] else []
  updateWorld fun w => { w with arrived := w.arrived.filter fun a => !isMine a }
  modify fun t => { t with
    childEnded := false
    exitStatus := some (t.exitStatus.getD s.status) }
  runArrived again ((List.range signalNames.length).filter mine.contains)
  modify fun t => { t with exitStatus := s.exitStatus }

/-! ## Commands -/

/-- Sets what is to be done about a signal: nothing special, or a text that is run. -/
def setTrap (signal : Nat) (action : Option Bytes) : Action Unit := do
  modify fun s =>
    let others := s.traps.filter fun t => t.1 ≠ signal
    { s with traps := match action with
      | some text => (signal, text) :: others
      | none => others }
  let self := (← get).self
  updateWorld fun w =>
    let others := w.dispositions.filter fun d => d.1 ≠ (self, signal)
    { w with dispositions := match action with
      | some [] => ((self, signal), .ignored) :: others
      | some _ => ((self, signal), .caught) :: others
      | none => others }

/-- What is to be done about signals, as commands that bring it about. -/
def trapTable (s : Shell) : Bytes :=
  (List.range signalNames.length).flatMap fun signal =>
    match s.traps.lookup signal with
    | some text =>
      "trap -- ".toList ++ Bytes.quote text ++ [' '] ++ signalName signal ++ ['\n']
    | none => []

/-- Sets what is to be done about signals, given by number or name. -/
def setTraps (action : Option Bytes) : List Bytes → Action Nat
  | [] => return 0
  | name :: rest => do
    match signalOf? 0 name with
    | none =>
      complainLine ("trap: ".toList ++ name ++ ": bad trap".toList)
      return 1
    | some signal =>
      setTrap signal action
      setTraps action rest

/-- The command `trap`. -/
def trapCommand (args : List Bytes) : Action Nat := do
  match ← noOptions args with
  | [] => print (trapTable (← get))
  | [name] => setTraps none [name]
  | action :: names =>
    if action.all Char.isDigit && !action.isEmpty then setTraps none (action :: names)
    else setTraps (if action = ['-'] then none else some action) names

def killUsage : String :=
  "Usage: kill [-s sigspec | -signum | -sigspec] [pid | job]... or\nkill -l [exitstatus]"

/-- Sends a signal to processes; the status tells whether one of them was missing. -/
def sendAll (signal : Nat) : (status : Nat) → List Bytes → Action Nat
  | status, [] => return status
  | status, name :: rest => do
    let found ←
      match name with
      | '%' :: _ => do
        discard <| jobNamed name
        pure false
      | '-' :: group => do
        discard <| number group
        pure false
      | _ => do send (← number name) signal
    if found then sendAll signal status rest
    else
      warn "No such process\n".toList
      sendAll signal 1 rest

/-- Lists the names of all signals, or the name of the one that a status stands for. -/
def listSignals : List Bytes → Action Nat
  | [] => print ("0\n".toList ++ (signalNames.drop 1).flatMap fun name => name.toList ++ ['\n'])
  | text :: _ => do
    let status ← number text
    let signal := if 128 < status then status - 128 else status
    if 0 < signal && signal < signalNames.length then print (signalName signal ++ ['\n'])
    else refuseText "invalid signal number or exit status: " text ""

/-- The command `kill`. -/
def killCommand (args : List Bytes) : Action Nat := do
  let sendOr (signal : Nat) (operands : List Bytes) : Action Nat :=
    if operands.isEmpty then refuse killUsage.toList else sendAll signal 0 operands
  let direct? :=
    match args with
    | ('-' :: name) :: _ => signalOf? 1 name
    | _ => none
  match args, direct? with
  | [], _ => refuse killUsage.toList
  | _ :: operands, some signal => sendOr signal operands
  | ('-' :: _) :: _, none =>
    let (options, operands) ← commandOptions "ls:" args
    let signals ← (options.filter (·.1 = 's')).mapM fun (_, name) =>
      match signalOf? 1 name with
      | some signal => pure signal
      | none => refuseText "invalid signal number or name: " name ""
    if !options.any (·.1 = 'l') then sendOr (signals.getLastD 15) operands
    else if signals.isEmpty then listSignals operands
    else refuse killUsage.toList
  | operands, none => sendOr 15 operands

end Shell

end FiniteStructures
