import FiniteStructures.Process.Shell.Option

/-!
The commands that set variables and arguments: `export`, `readonly`, `local`, `unset`, `set` and
`shift`.
-/

namespace FiniteStructures

namespace Shell

/-- A name before an equals sign and the value after it. -/
def splitAssignment (text : Bytes) : Bytes × Option Bytes :=
  let name := text.takeWhile (· != '=')
  match text.drop name.length with
  | _ :: value => (name, some value)
  | [] => (name, none)

/-- The name of a variable: a text up to an equals sign, which must be a name. -/
def nameOf (text : Bytes) : Action Bytes := do
  let name := (splitAssignment text).1
  if !Bytes.isName name then refuseText "" name ": bad variable name"
  return name

/-- Sets the variable that a text names. -/
def assignNamed (text value : Bytes) : Action Unit := do assign (← nameOf text) value

/-- Changes a variable without regard to its value; it is made if it is missing. -/
def markVariable (name : Bytes) (mark : Variable → Variable) : Action Unit :=
  modify fun s =>
    let v := (s.vars.lookup name).getD ⟨none, s.hasOption 'a', false⟩
    { s with vars := put s.vars name (mark v) }

/-- The variables that satisfy a condition in the order of their names, each in the form of a
command. -/
def variableTable (s : Shell) (command : Bytes) (p : Variable → Bool) : Bytes :=
  let shown := s.vars.filter fun v => p v.2
  (shown.mergeSort fun a b => Bytes.le a.1 b.1).flatMap fun (name, v) =>
    let value := (v.value.map fun text => '=' :: Bytes.quote text).getD []
    (if command.isEmpty then [] else command ++ [' ']) ++ name ++ value ++ ['\n']

/-- The commands `export` and `readonly`, which mark variables. -/
def markCommand (command : String) (isMarked : Variable → Bool) (mark : Variable → Variable)
    (args : List Bytes) : Action Nat := do
  let (options, names) ← commandOptions "p" args
  if names.isEmpty || !options.isEmpty then
    return ← print (variableTable (← get) command.toList isMarked)
  names.forM fun text => do
    let name ← nameOf text
    let value? := (splitAssignment text).2
    if let some value := value? then assign name value
    markVariable name mark
  return 0

def exportCommand (args : List Bytes) : Action Nat :=
  markCommand "export" (·.exported) (fun v => { v with exported := true }) args

def readonlyCommand (args : List Bytes) : Action Nat :=
  markCommand "readonly" (·.fixed) (fun v => { v with fixed := true }) args

/-- The command `local`: variables get their values back when the function ends. -/
def localCommand (args : List Bytes) : Action Nat := do
  if (← get).depth = 0 then refuse "not in a function".toList
  args.forM fun text => do
    let name ← nameOf text
    let value? := (splitAssignment text).2
    save name
    match value? with
    | some value => assign name value
    | none => markVariable name id
  return 0

/-- The command `unset`. -/
def unsetCommand (args : List Bytes) : Action Nat := do
  let (options, names) ← commandOptions "vf" args
  let ofFunctions := (options.getLast?.map (·.1)) = some 'f'
  names.forM fun text => do
    if ofFunctions then
      modify fun s => { s with functions := s.functions.filter fun f => f.1 ≠ text }
    else
      let name ← nameOf text
      if ((← get).vars.lookup name).any (·.fixed) then refuseText "" name ": is read only"
      modify fun s => { s with vars := s.vars.filter fun v => v.1 ≠ name }
  return 0

/-- Gives the shell new arguments. -/
def setArguments (args : List Bytes) : Action Unit :=
  modify fun s => { s with arguments := args, nextOption := (1, none) }

/-- The command `set`. -/
def setCommand (args : List Bytes) : Action Nat := do
  if args.isEmpty then return ← print (variableTable (← get) [] (·.value.isSome))
  let words ← choose "" args
  settleOptions
  if words.mark = ['-'] then
    setOption false 'x'
    setOption false 'v'
  if !words.operands.isEmpty || words.mark = ['-', '-'] then setArguments words.operands
  return 0

/-- The command `shift`. -/
def shiftCommand (args : List Bytes) : Action Nat := do
  let n ← match args with
    | [] => pure 1
    | text :: _ => number text
  let arguments := (← get).arguments
  if arguments.length < n then refuse "can't shift that many".toList
  setArguments (arguments.drop n)
  return 0

end Shell

end FiniteStructures
