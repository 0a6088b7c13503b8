import FiniteStructures.Process.Shell.Expansion

/-!
Redirections at work.  The names of files are expanded first; then the channels are connected one
after another, and a complaint about a file goes to where the channel for complaints leads by then.
-/

namespace FiniteStructures

/-- A redirection whose name is known. -/
inductive Connection where
  | file (channel : Nat) (how : Script.Opening) (name : Bytes)
  /-- To where another channel leads; without one, the channel is closed. -/
  | copy (channel : Nat) (source : Option Nat)
  | document (channel : Nat) (content : Script.Word)

def Connection.channel : Connection → Nat
  | .file channel _ _ | .copy channel _ | .document channel _ => channel

namespace Shell

open Script

/-- The channel that a file name stands for. -/
def channelOf? (name : Bytes) : Option Nat :=
  let digits := name.drop "/dev/fd/".length
  if name = "/dev/stdin".toList then some 0
  else if name = "/dev/stdout".toList then some 1
  else if name = "/dev/stderr".toList then some 2
  else if "/dev/fd/".toList.isPrefixOf name && !digits.isEmpty && digits.all Char.isDigit then
    some (Numeral.ofDigits 10 digits)
  else none

/-- A stream that is opened in a certain way. -/
def streamFor (how : Opening) (stream : Stream) : OpenStream :=
  ⟨stream, 0, how = .append, how = .read || how = .update, how ≠ .read⟩

/-- Opens the file of a path.  A file to be written is made if it is missing, and made empty if it
is to be overwritten. -/
def openPath (how : Opening) (path : Path) : Action (Except FileError OpenStream) := do
  let s ← get
  let fill (content : Bytes) : Action Unit :=
    updateWorld fun w => { w with tree := w.tree.insert path (.regular content) }
  let file := streamFor how (.file path)
  match s.world.tree.find? path with
  | some .directory =>
    return if how = .read then .ok (streamFor how .directory) else .error .isADirectory
  | some .null => return .ok (streamFor how .null)
  | some .full => return .ok (streamFor how .full)
  | some (.program _) => return .ok file
  | some (.regular _) =>
    if how = .write && s.hasOption 'C' then return .error .exists
    if how = .write || how = .force then fill []
    return .ok file
  | none =>
    if how = .read then return .error .notFound
    fill []
    return .ok file

/-- Opens a file. -/
def openFile (how : Opening) (name : Bytes) : Action (Except FileError OpenStream) := do
  match channelOf? name with
  | some channel =>
    match ← stream? channel with
    | some (_, ⟨.file path, _, _, _, _⟩) => openPath how path
    | some (_, s) => return .ok (streamFor how s.stream)
    | none => return .error .notFound
  | none =>
    let s ← get
    match s.world.tree.resolve s.current name with
    | .ok path => openPath how path
    | .error e => return .error e

/-- What is wrong with a file that cannot be opened. -/
def openingFault (how : Opening) (e : FileError) : String :=
  match e with
  | .notFound | .notADirectory => if how = .read then "No such file" else "Directory nonexistent"
  | e => e.message

/-- Complains about a file that cannot be opened. -/
def refuseFile {α : Type} (how : Opening) (name : Bytes) (e : FileError) : Action α :=
  refuseText (if how = .read then "cannot open " else "cannot create ") name
    (": " ++ openingFault how e)

/-- Expands the name in a redirection. -/
def prepare (again : Step) (r : Redirection) : Action Connection := do
  match r with
  | .file channel how name => return .file channel how (← pathText again name)
  | .document channel number =>
    return .document channel (((← get).documents.lookup number).getD [])
  | .copy channel source =>
    match ← pathText again source with
    | ['-'] => return .copy channel none
    | [d] =>
      if d.isDigit then return .copy channel (some (d.toNat - '0'.toNat))
      else refuse "Syntax error: Bad fd number".toList
    | _ => refuse "Syntax error: Bad fd number".toList

/-- Connects a channel. -/
def establish (again : Step) (c : Connection) : Action Unit := do
  match c with
  | .file channel how name =>
    match ← openFile how name with
    | .ok stream => connect channel (some (← openStream stream))
    | .error e => refuseFile how name e
  | .copy channel none => connect channel none
  | .copy channel (some source) =>
    if source = channel then return
    match (← get).channels.lookup source with
    | some number => connect channel (some number)
    | none => refuseText "" (Bytes.ofNat source) ": Bad file descriptor"
  | .document channel content =>
    let (_, reading, _) ← pipe (← text again content)
    connect channel (some reading)

/-- Connects channels; tells whether all could be connected. -/
def establishAll (again : Step) (cs : List Connection) : Action Bool := do
  match ← ExceptT.lift (cs.forM (establish again)).run with
  | .ok _ => return true
  | .error .failure => return false
  | .error stop => throw stop

/-- Does something with channels connected; they are put back to where they led, unless they are
to be kept.  If one cannot be connected, something else is done. -/
def connected (again : Step) (cs : List Connection) (keep : Bool) (body refused : Action Nat) :
    Action Nat := do
  let before := (← get).channels
  let disconnect : Action Unit := do
    unless keep do cs.forM fun c => connect c.channel (before.lookup c.channel)
  always (do if ← establishAll again cs then body else refused) disconnect

end Shell

end FiniteStructures
