import FiniteStructures.Process.Shell.Own

/-!
Simple commands.  The first field of a command says what runs: a function, a command of the shell
or a program.  Then its other words are expanded, its channels connected and its variables set.
-/

namespace FiniteStructures

/-- What runs when a command is run. -/
inductive Callee where
  | nothing
  | function (body : Script.Command)
  | own
  | program

/-- The words of a command: fields first, and then words that are not expanded yet. -/
structure WordRow where
  fields : List Bytes
  words : List Script.Word

/-- A command about to be run. -/
structure Call where
  /-- The fields before those that are run, last first. -/
  before : List Bytes
  row : WordRow
  callee : Callee
  /-- Whether a complaint ends the shell; not known before the first command of the shell. -/
  special : Option Bool
  /-- Whether assignments are for this command only. -/
  temporary : Bool
  /-- Whether functions are passed over. -/
  direct : Bool
  /-- Whether programs are looked for in the usual directories. -/
  usual : Bool

namespace Shell

open Script

/-- Expands words until there is a field. -/
def fillRow (again : Step) : List Word → Action WordRow
  | [] => return ⟨[], []⟩
  | w :: words => do
    match ← fields again w with
    | [] => fillRow again words
    | fields => return ⟨fields, words⟩

/-- A row in which there is a field if there can be one. -/
def filled (again : Step) (row : WordRow) : Action WordRow :=
  if row.fields.isEmpty then fillRow again row.words else pure row

/-- The words after the options of the command `command`, if there are some; it is not run itself
then.  The fields passed over are kept last first; at most `n` of them are options. -/
def afterOptions (again : Step) : (n : Nat) → (usual : Bool) → (passed : List Bytes) → WordRow →
    Action (Bool × Bool × List Bytes × WordRow)
  | 0, usual, passed, row => return (false, usual, passed, row)
  | n + 1, usual, passed, row => do
    let row ← filled again row
    match row.fields with
    | [] => return (false, usual, passed, row)
    | ['-', '-'] :: rest =>
      let row ← filled again ⟨rest, row.words⟩
      return (!row.fields.isEmpty, usual, ['-', '-'] :: passed, row)
    | ('-' :: c :: letters) :: rest =>
      if (c :: letters).all (· == 'p') then
        afterOptions again n true (('-' :: c :: letters) :: passed) ⟨rest, row.words⟩
      else return (false, usual, passed, row)
    | _ => return (true, usual, passed, row)

/-- Finds out what a command runs; at most `n` times it is `command` that says so. -/
def resolveCall (again : Step) : (n : Nat) → Call → Action Call
  | 0, call => return call
  | n + 1, call => do
    match call.row.fields with
    | [] => return call
    | name :: fields =>
      let functions := (← get).functions
      match if call.direct then none else functions.lookup name with
      | some body => return { call with callee := .function body, temporary := true }
      | none =>
        if !isOwnCommand name then return { call with callee := .program, temporary := true }
        let special := call.special.getD (isSpecialCommand name)
        let call : Call := { call with
          callee := .own
          special := some special
          temporary := !special }
        if name ≠ "command".toList then return call
        let (found, usual, passed, row) ← afterOptions again deepestWord call.usual []
          ⟨fields, call.row.words⟩
        if found then
          resolveCall again n { call with
            before := passed ++ name :: call.before, row, usual, direct := true }
        else return { call with row := ⟨name :: passed.reverse ++ row.fields, row.words⟩ }

/-- The commands whose arguments may be assignments. -/
def takesAssignments (name : Bytes) : Bool :=
  ["alias", "export", "local", "readonly"].contains (String.ofList name)

/-- All fields of a row. -/
def rowFields (again : Step) (row : WordRow) : Action (List Bytes) := do
  let assigns := row.fields.head?.any takesAssignments
  let more ← row.words.mapM fun w =>
    match if assigns then assignment? w else none with
    | some (name, value) => do return [name ++ '=' :: (← assignedText again value)]
    | none => fields again w
  return row.fields ++ more.flatten

/-- Sets variables, if `temporary` until the innermost scope ends; gives their values. -/
def assignAll (again : Step) (temporary exported : Bool) (assignments : List (Bytes × Word)) :
    Action (List (Bytes × Bytes)) :=
  assignments.mapM fun (name, w) => do
    let value ← assignedText again w
    if temporary then save name
    assignAnd (temporary || exported) name value
    return (name, value)

/-- Shows a command that is about to run, if the option for that is on.  `channels` says where the
complaints led before the redirections of the command. -/
def trace (again : Step) (channels : List (Nat × Nat)) (assigned : List (Bytes × Bytes))
    (fields : List Bytes) : Action Unit := do
  let s ← get
  if s.hasOption 'x' then
    setOption false 'x'
    let mark ← textWithin again ((s.value? "PS4".toList).getD [])
    setOption true 'x'
    let shown := assigned.map (fun (name, value) => name ++ '=' :: value) ++ fields
    modify fun t => { t with channels }
    complainLine (mark ++ Bytes.join [' '] shown)
    modify fun t => { t with channels := s.channels }

/-- How deep functions may be nested. -/
def deepestFunction : Nat := 1000

/-- Runs a function. -/
def callFunction (again : Step) (tested : Bool) (body : Command) (args : List Bytes) :
    Action Nat := do
  let s ← get
  if deepestFunction ≤ s.depth then
    refuseText "Maximum function recursion depth (" (Bytes.ofNat deepestFunction) ") reached"
  set { s with arguments := args, loops := 0, depth := s.depth + 1, nextOption := (1, none) }
  let result ← ExceptT.lift (again tested body).run
  modify fun t => { t with
    arguments := s.arguments
    loops := s.loops
    depth := s.depth
    nextOption := s.nextOption
    leaving := if t.leaving = .function then .nothing else t.leaving }
  match result with
  | .ok _ => return (← get).status
  | .error stop => throw stop

/-- Runs a command of the shell, whose complaints name it.  A complaint ends the shell if the
command is special. -/
def callOwn (again : Step) (tested special : Bool) (name : Bytes) (args : List Bytes) :
    Action Nat := do
  let outer := (← get).command
  modify fun s => { s with command := some name }
  let result ← ExceptT.lift (ownCommand again tested name args).run
  modify fun s => { s with command := outer }
  match result with
  | .ok status => return status
  | .error .failure => if special then throw .failure else return (← get).status
  | .error stop => throw stop

/-- Runs what a call says. -/
def runCall (again : Step) (tested replaces : Bool) (call : Call) (fields : List Bytes) :
    Action Nat := do
  match call.callee, fields with
  | .function body, _ :: args => callFunction again tested body args
  | .own, name :: args => callOwn again tested (call.special = some true) name args
  | .program, name :: args => runProgram again replaces call.usual name args
  | _, _ => return (← get).innerStatus

/-- A program may take the place of the shell: there is no text to be run for a signal. -/
def canBeReplaced (s : Shell) : Bool := s.traps.all (·.2.isEmpty)

/-- A simple command.  Its words are expanded first, then the names of redirections, and then the
values of assignments. -/
def simple (again : Step) (isLast tested : Bool) (assignments : List (Bytes × Word)) (words : List Word)
    (redirections : List Redirection) : Action Nat := do
  modify fun s => { s with innerStatus := 0 }
  let row ← fillRow again words
  let call ← resolveCall again deepestWord ⟨[], row, .nothing, none, false, false, false⟩
  let fields ← rowFields again call.row
  let isExec := call.callee matches .own && fields.head? = some "exec".toList
  let scopes := (← get).saved.length
  if call.temporary then openScope
  let connections ← redirections.mapM (prepare again)
  let channels := (← get).channels
  let run : Action Nat := do
    let assigned ← assignAll again call.temporary (isExec && 1 < fields.length) assignments
    trace again channels assigned (call.before.reverse ++ fields)
    runCall again tested (isLast && (← get).canBeReplaced) call fields
  let refused : Action Nat := do
    if call.special = some true then throw .failure
    return 2
  let status ← connected again connections isExec run refused
  closeScopes scopes
  return status

end Shell

end FiniteStructures
