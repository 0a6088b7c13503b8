import FiniteStructures.Process.Shell.Option

/-!
What processes may have and do: the commands `ulimit` and `umask`, and `times`.
-/

namespace FiniteStructures

namespace Shell

/-- A thing that is limited. -/
structure Resource where
  letter : Char
  name : String
  /-- What a limit is counted in. -/
  unit : Nat
  usual : Limit

def resources : List Resource :=
  [⟨'t', "time(seconds)", 1, ⟨none, none⟩⟩, ⟨'f', "file(blocks)", 512, ⟨none, none⟩⟩,
    ⟨'d', "data(kbytes)", 1024, ⟨none, none⟩⟩, ⟨'s', "stack(kbytes)", 1024, ⟨some 8388608, none⟩⟩,
    ⟨'c', "coredump(blocks)", 512, ⟨some 0, none⟩⟩, ⟨'m', "memory(kbytes)", 1024, ⟨none, none⟩⟩,
    ⟨'l', "locked memory(kbytes)", 1024, ⟨some 8388608, some 8388608⟩⟩,
    ⟨'p', "process", 1, ⟨some 128620, some 128620⟩⟩,
    ⟨'n', "nofiles", 1, ⟨some 20000, some 20000⟩⟩,
    ⟨'v', "vmemory(kbytes)", 1024, ⟨none, none⟩⟩, ⟨'w', "locks", 1, ⟨none, none⟩⟩,
    ⟨'r', "rtprio", 1, ⟨some 0, some 0⟩⟩]

/-- The limits with which a shell begins. -/
def usualLimits : List (Char × Limit) := resources.map fun r => (r.letter, r.usual)

/-- The limit of a resource. -/
def limitOf (s : Shell) (r : Resource) : Limit := (s.limits.lookup r.letter).getD r.usual

/-- A limit as text. -/
def limitText (r : Resource) (value : Option Nat) : Bytes :=
  ((value.map fun n => Bytes.ofNat (n / r.unit)).getD "unlimited".toList) ++ ['\n']

/-- A limit is not above another one. -/
def isWithin (a b : Option Nat) : Bool :=
  match a, b with
  | _, none => true
  | none, some _ => false
  | some a, some b => a ≤ b

/-- Sets a limit, its bound, or both. -/
def setLimit (r : Resource) (value bound : Bool) (new : Option Nat) : Action Unit := do
  let old := (← get).limitOf r
  let limit : Limit := ⟨if value then new else old.value, if bound then new else old.bound⟩
  if !isWithin limit.value limit.bound then
    refuse "error setting limit (Invalid argument)".toList
  if !isWithin limit.bound old.bound then
    refuse "error setting limit (Operation not permitted)".toList
  modify fun s => { s with limits := put s.limits r.letter limit }

/-- The number that a limit is set to. -/
def limitOperand (r : Resource) (operands : List Bytes) : Action (Option Nat) := do
  match operands with
  | [text] =>
    if text = "unlimited".toList then return none
    else if text.all Char.isDigit then return some (Numeral.ofDigits 10 text * r.unit)
    else refuse "bad number".toList
  | _ => refuse "too many arguments".toList

/-- The command `ulimit`. -/
def ulimitCommand (args : List Bytes) : Action Nat := do
  let (options, operands) ← commandOptions "HSatfdscmlpnvwr" args
  let letters := options.map (·.1)
  let bound := (letters.filter ['H', 'S'].contains).getLast? = some 'H'
  let either := !letters.any ['H', 'S'].contains
  let s ← get
  let shown (r : Resource) : Bytes :=
    limitText r (if bound then (s.limitOf r).bound else (s.limitOf r).value)
  let chosen := ((letters.filter (! ['H', 'S', 'a'].contains ·)).getLast?).getD 'f'
  match resources.find? (·.letter = chosen) with
  | none => return 0
  | some r =>
    if letters.contains 'a' then
      if !operands.isEmpty then refuse "too many arguments".toList
      print <| resources.flatMap fun r =>
        r.name.toList ++ List.replicate (20 - r.name.length) ' ' ++ ' ' :: shown r
    else if operands.isEmpty then print (shown r)
    else
      let new ← limitOperand r operands
      setLimit r (either || !bound) (either || bound) new
      return 0

/-- The command `umask`. -/
def umaskCommand (args : List Bytes) : Action Nat := do
  let (options, operands) ← commandOptions "S" args
  let permissions := (← get).permissions
  let change (new : Permissions) : Action Nat := do
    modify fun s => { s with permissions := new }
    return 0
  match operands with
  | [] => print ((if options.isEmpty then permissions.mask else permissions.render) ++ ['\n'])
  | text :: _ =>
    if text.head?.any Char.isDigit then
      if text.all fun c => '0' ≤ c && c ≤ '7' then change (.ofMask (Numeral.ofDigits 8 text))
      else refuseText "Illegal number: " text ""
    else
      match permissions.change? text with
      | some new => change new
      | none => refuseText "Illegal mode: " text ""

/-- The command `times`: no time has passed. -/
def timesCommand : Action Nat :=
  print "0m0.000000s 0m0.000000s\n0m0.000000s 0m0.000000s\n".toList

end Shell

end FiniteStructures
