import FiniteStructures.Process.Format
import FiniteStructures.Process.Shell.Condition
import FiniteStructures.Process.Shell.Setting

/-!
The commands that write or tell something: `echo`, `printf`, `test`, `pwd` and `cd`.
-/

namespace FiniteStructures

namespace Shell

/-- The texts that `echo` writes, with blanks between them; tells whether a line end follows. -/
def echoed : List Bytes → Bytes × Bool
  | [] => ([], true)
  | [text] =>
    let (text, ended) := Format.unescapeAll text
    (text, !ended)
  | text :: rest =>
    let (text, ended) := Format.unescapeAll text
    if ended then (text, false)
    else
      let (more, line) := echoed rest
      (text ++ ' ' :: more, line)

/-- The command `echo`. -/
def echoCommand (args : List Bytes) : Action Nat := do
  let (sameLine, args) : Bool × List Bytes :=
    match args with
    | ['-', 'n'] :: rest => (true, rest)
    | args => (false, args)
  let (text, line) := echoed args
  print (if line && !sameLine then text ++ ['\n'] else text)

/-- The command `printf`.  Its complaints come before what it writes. -/
def printfCommand (args : List Bytes) : Action Nat := do
  match ← noOptions args with
  | [] => refuse "usage: printf format [arg ...]".toList
  | format :: args =>
    let (ending, filled) := Format.run format args
    filled.complaints.reverse.forM warn
    let text := filled.written.reverse
    match ending with
    | .refused why =>
      warn why
      discard <| print text
      failWith 2
    | _ => return max (← print text) (if filled.complaints.isEmpty then 0 else 1)

/-- The command `test`. -/
def testCommand (args : List Bytes) : Action Nat := do
  let s ← get
  match Condition.holds (fun name => (s.world.tree.look s.current name).toOption) args with
  | .ok b => return if b then 0 else 1
  | .error text => refuse text

/-- The command `[`, which ends at a bracket. -/
def bracketCommand (args : List Bytes) : Action Nat := do
  if args.getLast? = some [']'] then testCommand args.dropLast else refuse "missing ]".toList

/-! ## Directories -/

/-- The command `pwd`. -/
def pwdCommand (args : List Bytes) : Action Nat := do
  discard <| commandOptions "LP" args
  print (Path.render (← get).current ++ ['\n'])

/-- The command `cd`; a dash stands for the directory before. -/
def cdCommand (args : List Bytes) : Action Nat := do
  let (_, operands) ← commandOptions "LP" args
  let s ← get
  let goesBack := operands.head? = some ['-']
  let value (name : String) : Bytes := (s.value? name.toList).getD []
  let target :=
    match operands with
    | [] => value "HOME"
    | name :: _ => if goesBack then value "OLDPWD" else name
  let target := if target.isEmpty then ['.'] else target
  match s.world.tree.resolve s.current target with
  | .ok path =>
    if s.world.tree.find? path ≠ some .directory then refuseText "can't cd to " target ""
    modify fun s => { s with current := path }
    assignAnd true "OLDPWD".toList (Path.render s.current)
    assignAnd true "PWD".toList (Path.render path)
    if goesBack then print (Path.render path ++ ['\n']) else return 0
  | .error _ => refuseText "can't cd to " target ""

end Shell

end FiniteStructures
