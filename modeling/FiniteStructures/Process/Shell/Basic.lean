import FiniteStructures.Process.Files
import FiniteStructures.Process.Numeral
import FiniteStructures.Process.Permissions
import FiniteStructures.Process.Script.Alias
import FiniteStructures.Process.Script.Basic

/-!
Shells at work.  A shell has variables, arguments, options and channels of its own; files, the
contents of pipes and what was written belong to the world, which all shells share.

    World      what lasts when a shell ends
    Situation  what a shell has of its own, and its parts begin with
    Job        a process in the background
    Shell      a world, a situation in it and jobs
    Action     steps of a shell, which may stop it
-/

namespace FiniteStructures

/-- What a channel is connected to. -/
inductive Stream where
  /-- The output that the caller of the program reads. -/
  | output
  /-- The complaints that the caller of the program reads. -/
  | complaints
  | null
  | full
  | directory
  | file (path : Path)
  | pipe (number : Nat)
deriving DecidableEq, Repr

/-- A stream that was opened.  Channels that were copied share its position. -/
structure OpenStream where
  stream : Stream
  position : Nat
  appends : Bool
  readable : Bool
  writable : Bool
deriving DecidableEq, Repr

/-- What was written to a pipe and is still to be read. -/
structure Pipe where
  /-- What comes first. -/
  ready : Bytes
  /-- What comes after it, last character first. -/
  recent : Bytes
  /-- The number of bytes that were written. -/
  written : Nat

namespace Pipe

/-- A pipe with a content. -/
def ofBytes (content : Bytes) : Pipe := ⟨content, [], content.length⟩

/-- What is still to be read. -/
def content (p : Pipe) : Bytes :=
  if p.recent.isEmpty then p.ready else p.ready ++ p.recent.reverse

/-- The pipe after a text was written to it. -/
def write (p : Pipe) (text : Bytes) : Pipe :=
  { p with recent := text.reverse ++ p.recent, written := p.written + text.length }

/-- The pipe after bytes were read from it. -/
def skip (p : Pipe) (n : Nat) : Pipe := ⟨p.content.drop n, [], p.written⟩

end Pipe

/-- What a process does about a signal. -/
inductive Disposition where
  | ignored
  | caught
deriving DecidableEq, Repr

/-- What lasts when a shell ends. -/
structure World where
  tree : FileTree
  /-- What was written, last character first. -/
  output : Bytes
  complaints : Bytes
  pipes : List (Nat × Pipe)
  streams : List (Nat × OpenStream)
  /-- A number that no pipe and no stream has. -/
  fresh : Nat
  /-- The number of the next process. -/
  nextProcess : Nat
  /-- The processes that are running. -/
  processes : List Nat
  /-- What processes do about signals, by process and signal. -/
  dispositions : List ((Nat × Nat) × Disposition)
  /-- Signals that were sent and caught. -/
  arrived : List (Nat × Nat)
  /-- Processes that a signal ends, with the signal. -/
  doomed : List (Nat × Nat)

/-- A variable; it may be marked without having a value. -/
structure Variable where
  value : Option Bytes
  exported : Bool
  fixed : Bool
deriving DecidableEq, Repr

/-- How much of something a process may have; without a value, there is no limit. -/
structure Limit where
  value : Option Nat
  /-- The limit of the value. -/
  bound : Option Nat
deriving DecidableEq, Repr

/-- What has to be left before the script goes on. -/
inductive Leaving where
  | nothing
  | loops (n : Nat)
  /-- All loops but one, which begins its next turn. -/
  | turn (n : Nat)
  | function
deriving DecidableEq, Repr

/-- What a shell has of its own. -/
structure Situation where
  /-- The number of the process of the shell; parts of the shell keep it. -/
  process : Nat
  /-- The number of the process that the shell is; that of a part is its own. -/
  self : Nat
  /-- The number of the process from which this one was split off. -/
  parent : Nat
  name : Bytes
  arguments : List Bytes
  vars : List (Bytes × Variable)
  functions : List (Bytes × Script.Command)
  aliases : Script.Aliases
  /-- The letters of the options that are on. -/
  options : Bytes
  current : Path
  /-- The numbers of open streams by channel. -/
  channels : List (Nat × Nat)
  /-- What to do about signals; 0 stands for the end of the shell. -/
  traps : List (Nat × Bytes)
  status : Nat
  /-- The status of the last command whose output was used in the current one. -/
  innerStatus : Nat
  /-- The status with which the shell ends, when what is run at its end is running. -/
  exitStatus : Option Nat
  leaving : Leaving
  /-- The number of loops running. -/
  loops : Nat
  /-- Values of variables to be put back, for each function and command running. -/
  saved : List (List (Bytes × Option Variable))
  /-- The number of functions running. -/
  depth : Nat
  line : Nat
  /-- The command of the shell that is running, if it is named in complaints. -/
  command : Option Bytes
  documents : List (Nat × Script.Word)
  nextDocument : Nat
  lastJob : Option Nat
  /-- The names of programs that were found. -/
  remembered : List Bytes
  /-- Whether the shell ends after the command that runs next, so that a program takes its place. -/
  isLast : Bool
  /-- Where `getopts` is: the next argument, and the place in the one before it. -/
  nextOption : Nat × Option Nat
  /-- Whether a process has ended since the signal for that was answered. -/
  childEnded : Bool
  /-- The number of turns after which a loop is taken for one that does not end. -/
  patience : Nat
  /-- What may be done with the files that the shell makes. -/
  permissions : Permissions
  /-- Limits by their letters. -/
  limits : List (Char × Limit)

/-- Where a process in the background is. -/
inductive JobState where
  /-- It has still to run a command, or has not come to the end of it. -/
  | running (situation : Situation) (body : Script.Command)
  | ended (status : Nat) (signal : Option Nat)

/-- A process in the background. -/
structure Job where
  /-- Its number among the jobs. -/
  number : Nat
  process : Nat
  /-- The number of processes connected by pipes. -/
  size : Nat
  state : JobState
  /-- Whether its end was waited for. -/
  awaited : Bool

/-- A shell in its world. -/
structure Shell extends Situation where
  world : World
  /-- The last one first. -/
  jobs : List Job

/-- Why a shell stops. -/
inductive Stop where
  | exit
  /-- After a complaint that no command can go on from. -/
  | failure
  | killed (signal : Nat)
  /-- In a loop that does not end. -/
  | endless
deriving DecidableEq, Repr

/-- Steps of a shell. -/
abbrev Action := ExceptT Stop (StateM Shell)

namespace Shell

/-! ## Streams -/

/-- The pipe with a number. -/
def pipeOf (w : World) (number : Nat) : Pipe := (w.pipes.lookup number).getD (Pipe.ofBytes [])

/-- What a stream holds from its position on. -/
def unread (w : World) (s : OpenStream) : Bytes :=
  match s.stream with
  | .file path =>
    match w.tree.find? path with
    | some (.regular content) => content.drop s.position
    | _ => []
  | .pipe number => (pipeOf w number).content
  | _ => []

/-- Replaces the entry of a key, or adds one. -/
def put {α β : Type} [BEq α] (l : List (α × β)) (a : α) (b : β) : List (α × β) :=
  (a, b) :: l.filter fun p => !(p.1 == a)

/-- Passes over bytes of a stream. -/
def consume (w : World) (number : Nat) (s : OpenStream) (n : Nat) : World :=
  match s.stream with
  | .pipe pipe => { w with pipes := put w.pipes pipe ((pipeOf w pipe).skip n) }
  | _ => { w with streams := put w.streams number { s with position := s.position + n } }

/-- A content in which a text replaces what is at a position. -/
def overwrite (content : Bytes) (position : Nat) (text : Bytes) : Bytes :=
  content.take position ++ List.replicate (position - content.length) (Char.ofNat 0) ++ text ++
    content.drop (position + text.length)

/-- Writes to a stream. -/
def writeStream (w : World) (number : Nat) (s : OpenStream) (text : Bytes) : World :=
  match s.stream with
  | .output => { w with output := text.reverse ++ w.output }
  | .complaints => { w with complaints := text.reverse ++ w.complaints }
  | .pipe pipe => { w with pipes := put w.pipes pipe ((pipeOf w pipe).write text) }
  | .file path =>
    match w.tree.find? path with
    | some (.regular content) =>
      let position := if s.appends then content.length else s.position
      { w with
        tree := w.tree.insert path (.regular (overwrite content position text))
        streams := put w.streams number { s with position := position + text.length } }
    | _ => w
  | _ => w

/-- The stream of a channel, with its number. -/
def stream? (channel : Nat) : Action (Option (Nat × OpenStream)) := do
  let s ← get
  return do
    let number ← s.channels.lookup channel
    return (number, ← s.world.streams.lookup number)

/-- Changes the world. -/
def updateWorld (f : World → World) : Action Unit := modify fun s => { s with world := f s.world }

/-- No reader of a pipe waits for more than this; then the writer is ended by a signal. -/
def pipeLimit : Nat := 1000000

/-- The size to which a stream of the shell can be filled. -/
def room? (s : Shell) (stream : Stream) : Option Nat :=
  match stream with
  | .file _ => (s.limits.lookup 'f').bind (·.value)
  | _ => none

/-- The size of the file of a stream. -/
def fileSize (w : World) (stream : Stream) : Nat :=
  match stream with
  | .file path =>
    match w.tree.find? path with
    | some (.regular content) => content.length
    | _ => 0
  | _ => 0

/-- A signal comes from what the shell does itself; it ends the shell unless something is done
about it. -/
def raise (signal : Nat) : Action Unit := do
  let s ← get
  match s.world.dispositions.lookup (s.self, signal) with
  | none => throw (.killed signal)
  | some .ignored => return
  | some .caught => updateWorld fun w => { w with arrived := w.arrived ++ [(s.self, signal)] }

/-- Writes to a channel. -/
def write (channel : Nat) (text : Bytes) : Action (Except FileError Unit) := do
  match ← stream? channel with
  | none => return .error .badDescriptor
  | some (number, s) =>
    if !s.writable then return .error .badDescriptor
    else if s.stream = .full && !text.isEmpty then return .error .noSpace
    else
      if let .pipe pipe := s.stream then
        if pipeLimit < (pipeOf (← get).world pipe).written then throw (.killed 13)
      let t ← get
      let position := if s.appends then fileSize t.world s.stream else s.position
      let fitting := ((t.room? s.stream).map (text.take <| · - position)).getD text
      updateWorld fun w => writeStream w number s fitting
      if fitting.length = text.length then return .ok ()
      raise 25
      return .error .tooLarge

/-- Opens a stream and gives its number. -/
def openStream (s : OpenStream) : Action Nat := do
  let number := (← get).world.fresh
  updateWorld fun w => { w with fresh := number + 1, streams := (number, s) :: w.streams }
  return number

/-- Connects a channel to an open stream, or closes it. -/
def connect (channel : Nat) (number : Option Nat) : Action Unit :=
  modify fun s =>
    let others := s.channels.filter fun c => c.1 ≠ channel
    { s with channels := match number with
      | some number => (channel, number) :: others
      | none => others }

/-- A new pipe with a content: a stream that reads from it and one that writes to it. -/
def pipe (content : Bytes) : Action (Nat × Nat × Nat) := do
  let number := (← get).world.fresh
  updateWorld fun w =>
    { w with fresh := number + 1, pipes := (number, Pipe.ofBytes content) :: w.pipes }
  let reading ← openStream ⟨.pipe number, 0, false, true, false⟩
  let writing ← openStream ⟨.pipe number, 0, false, false, true⟩
  return (number, reading, writing)

/-! ## Complaints -/

/-- Writes a line to the channel for complaints. -/
def complainLine (text : Bytes) : Action Unit := do discard <| write 2 (text ++ ['\n'])

/-- Complains, with the names of the shell and its command and the number of the line. -/
def warn (text : Bytes) : Action Unit := do
  let s ← get
  let command := (s.command.map (· ++ ": ".toList)).getD []
  complainLine (s.name ++ ": ".toList ++ Bytes.ofNat s.line ++ ": ".toList ++ command ++ text)

/-- Ends the current command with a status. -/
def failWith {α : Type} (status : Nat) : Action α := do
  modify fun s => { s with status }
  throw .failure

/-- Complains and ends the current command. -/
def refuse {α : Type} (text : Bytes) : Action α := do
  warn text
  failWith 2

/-- Complains about a text. -/
def refuseText {α : Type} (before : String) (text : Bytes) (after : String) : Action α :=
  refuse (before.toList ++ text ++ after.toList)

/-- Writes what a command of the shell has to say, and gives its status. -/
def print (text : Bytes) : Action Nat := do
  if text.isEmpty then return 0
  match ← write 1 text with
  | .ok _ => return 0
  | .error _ =>
    warn ((← get).command.getD [] ++ ": I/O error".toList)
    return 1

/-! ## Options and variables -/

def hasOption (s : Shell) (letter : Char) : Bool := s.options.contains letter

/-- The value of a variable. -/
def value? (s : Shell) (name : Bytes) : Option Bytes := (s.vars.lookup name).bind (·.value)

/-- The characters that separate fields. -/
def separators (s : Shell) : Bytes := (s.value? "IFS".toList).getD [' ', '\t', '\n']

/-- The number of an operand: decimal, not negative and not above 2³¹ − 1. -/
def number (text : Bytes) : Action Nat := do
  let (negative, body) : Bool × Bytes :=
    match text.dropWhile Bytes.isSpace with
    | '-' :: rest => (true, rest)
    | '+' :: rest => (false, rest)
    | rest => (false, rest)
  let digits := body.takeWhile Char.isDigit
  let value := Numeral.ofDigits 10 digits
  if digits.isEmpty || !(body.drop digits.length).all Bytes.isSpace || (negative && value ≠ 0) ||
      2147483647 < value then
    refuseText "Illegal number: " text ""
  else return value

/-- What the value of a variable has an effect on, when it is set. -/
def noteValue (name value : Bytes) : Action Unit := do
  if name = "OPTIND".toList then
    let next ← number value
    modify fun s => { s with nextOption := (max next 1, none) }
  else if name = "PATH".toList then modify fun s => { s with remembered := [] }

/-- Sets a variable that is not fixed, and marks it as inherited if asked to. -/
def assignAnd (exported : Bool) (name value : Bytes) : Action Unit := do
  let old := ((← get).vars.lookup name).getD ⟨none, false, false⟩
  if old.fixed then refuseText "" name ": is read only"
  noteValue name value
  modify fun s =>
    let exported := old.exported || exported || s.hasOption 'a'
    { s with vars := put s.vars name ⟨some value, exported, false⟩ }

/-- Sets a variable that is not fixed. -/
def assign (name value : Bytes) : Action Unit := assignAnd false name value

/-- Keeps the value of a variable until the innermost function or command ends. -/
def save (name : Bytes) : Action Unit :=
  modify fun s =>
    match s.saved with
    | [] => s
    | frame :: rest =>
      if (frame.lookup name).isSome then s
      else { s with saved := ((name, s.vars.lookup name) :: frame) :: rest }

/-- Puts variables back. -/
def restoreVars (vars : List (Bytes × Variable)) (frame : List (Bytes × Option Variable)) :
    List (Bytes × Variable) :=
  frame.foldl (fun vars (name, v) =>
    match v with
    | some v => put vars name v
    | none => vars.filter fun p => p.1 ≠ name) vars

/-- Begins a scope of variables. -/
def openScope : Action Unit := modify fun s => { s with saved := [] :: s.saved }

/-- Ends scopes of variables until there are `n` left. -/
def closeScopes (n : Nat) : Action Unit :=
  modify fun s =>
    let ended := s.saved.take (s.saved.length - n)
    { s with vars := ended.foldl restoreVars s.vars, saved := s.saved.drop ended.length }

/-- Variables that programs inherit, as name and value. -/
def environment (s : Shell) : List (Bytes × Bytes) :=
  s.vars.filterMap fun (name, v) => if v.exported then v.value.map (name, ·) else none

/-- Does something also when an action stops. -/
def always {α : Type} (x : Action α) (last : Action Unit) : Action α := do
  match ← ExceptT.lift x.run with
  | .ok a =>
    last
    return a
  | .error stop =>
    last
    throw stop

end Shell

end FiniteStructures
