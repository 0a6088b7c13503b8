import FiniteStructures.Process.Shell.Setting

/-!
The commands that take texts apart: `read` cuts a line of its input into values of variables, and
`getopts` takes options from arguments one at a time.
-/

namespace FiniteStructures

namespace Shell

/-! ## Lines -/

/-- A character of a line, and whether it may separate values. -/
abbrev LineChar := Char × Bool

/-- A line of a text. -/
structure InputLine where
  chars : List LineChar
  /-- Whether there is a line end. -/
  ended : Bool
  /-- The number of bytes that the line takes. -/
  size : Nat

/-- The line at the beginning of a text, which may be joined to the next one unless `raw`.  What
was read is kept last first, with the number of its bytes. -/
def lineOf (raw : Bool) : Bytes → List LineChar → (size : Nat) → InputLine
  | [], line, size => ⟨line.reverse, false, size⟩
  | '\\' :: d :: rest, line, size =>
    if raw then lineOf raw (d :: rest) (('\\', true) :: line) (size + 1)
    else if d = '\n' then lineOf raw rest line (size + 2)
    else lineOf raw rest ((d, false) :: line) (size + 2)
  | c :: rest, line, size =>
    if c = '\n' then ⟨line.reverse, true, size + 1⟩
    else if c.toNat = 0 || (c = '\\' && !raw) then lineOf raw rest line (size + 1)
    else lineOf raw rest ((c, true) :: line) (size + 1)

/-- The next line of the input. -/
def readLine (raw : Bool) : Action InputLine := do
  match ← stream? 0 with
  | none => return ⟨[], false, 0⟩
  | some (number, s) =>
    if !s.readable then return ⟨[], false, 0⟩
    let line := lineOf raw (unread (← get).world s) [] 0
    updateWorld fun w => consume w number s line.size
    return line

section

/-! Below, `separators` are the characters that separate values. -/

variable (separators : Bytes)

/-- A blank among the separators. -/
def isGap (c : LineChar) : Bool := c.2 && separators.contains c.1 && Fields.isBlank c.1

def isSeparator (c : LineChar) : Bool := c.2 && separators.contains c.1

/-- What follows a value: blanks among the separators, one other separator, and blanks again. -/
def afterValue (line : List LineChar) : List LineChar :=
  match line.dropWhile (isGap separators) with
  | c :: rest => if isSeparator separators c then rest.dropWhile (isGap separators) else c :: rest
  | [] => []

/-- Where the last value of a line ends: `stop` is where it would end if nothing but blanks among
the separators followed, and one other separator if there were only blanks before it.  Characters
that cannot separate values do not count. -/
def lastEnd : (place : Nat) → (stop : Option Nat) → (blanks : Bool) → List LineChar → Option Nat
  | _, stop, _, [] => stop
  | place, stop, blanks, c :: rest =>
    if !c.2 then lastEnd (place + 1) stop blanks rest
    else if isGap separators c then lastEnd (place + 1) (stop.or (some place)) blanks rest
    else if isSeparator separators c && blanks then lastEnd (place + 1) stop false rest
    else lastEnd (place + 1) none false rest

/-- The last value of a line: all that is left, unless that is one value and its end. -/
def lastValue (line : List LineChar) : List LineChar :=
  let n := (line.takeWhile (!isSeparator separators ·)).length
  match line.drop n with
  | c :: rest =>
    match lastEnd separators (n + 1) (some n) (isGap separators c) rest with
    | some stop => line.take stop
    | none => line
  | [] => line

/-- Cuts a line into `n` values. -/
def lineValues : (n : Nat) → List LineChar → List Bytes
  | 0, _ => []
  | 1, line => [(lastValue separators line).map (·.1)]
  | n + 1, line =>
    let first := line.takeWhile (!isSeparator separators ·)
    first.map (·.1) :: lineValues n (afterValue separators (line.drop first.length))

end

/-- The command `read`. -/
def readCommand (args : List Bytes) : Action Nat := do
  let (options, names) ← commandOptions "p:r" args
  if names.isEmpty then refuse "arg count".toList
  let line ← readLine (options.any (·.1 = 'r'))
  let separators := (← get).separators
  let chars := line.chars.dropWhile (isGap separators)
  (names.zip (lineValues separators names.length chars)).forM fun (name, value) =>
    assignNamed name value
  return if line.ended then 0 else 1

/-! ## Options -/

/-- The word of an option that is being read, if it has letters left. -/
def restOfWord (words : List Bytes) (next : Nat) (place : Option Nat) : Bytes :=
  match place with
  | some place => if next ≤ 1 then [] else (words.getD (next - 2) []).drop place
  | none => []

/-- An option taken from arguments. -/
structure TakenOption where
  /-- The value of the variable for the letter. -/
  letter : Char
  value : Option Bytes
  /-- The next argument, and what is left of the word before it. -/
  next : Nat
  rest : Option Bytes
  complaint : Option String
  ended : Bool

/-- The letter of an option and what is known about it: nothing, or whether it takes a value. -/
def knownOption? (known : Bytes) (c : Char) : Option Bool :=
  match known.dropWhile (· != c) with
  | _ :: ':' :: _ => if c = ':' then none else some true
  | _ :: _ => if c = ':' then none else some false
  | [] => none

/-- Takes the option with a letter; `rest` is what follows the letter in its word, and `next` is the
number of the next argument. -/
def takeOption (known : Bytes) (words : List Bytes) (c : Char) (rest : Bytes) (next : Nat) :
    TakenOption :=
  let silent := known.head? = some ':'
  let letter := String.singleton c
  match knownOption? known c with
  | none =>
    ⟨'?', if silent then some [c] else none, next, some rest,
      if silent then none else some ("Illegal option -" ++ letter), false⟩
  | some false => ⟨c, some [], next, some rest, none, false⟩
  | some true =>
    if !rest.isEmpty then ⟨c, some rest, next, none, none, false⟩
    else
      match words[next - 1]? with
      | some value => ⟨c, some value, next + 1, none, none, false⟩
      | none =>
        if silent then ⟨':', some [c], next, some rest, none, false⟩
        else ⟨'?', none, next, some rest, some ("No arg for -" ++ letter ++ " option"), false⟩

/-- Takes the next option from words, of which the first has the number 1. -/
def nextOptionOf (known : Bytes) (words : List Bytes) (next : Nat) (place : Option Nat) :
    Option TakenOption :=
  match restOfWord words next place with
  | c :: rest => some (takeOption known words c rest next)
  | [] =>
    match words[next - 1]? with
    | some ['-', '-'] => some ⟨'?', none, next + 1, none, none, true⟩
    | some ('-' :: c :: rest) => some (takeOption known words c rest (next + 1))
    | _ => none

/-- The command `getopts`. -/
def getoptsCommand (args : List Bytes) : Action Nat := do
  match ← noOptions args with
  | known :: name :: given =>
    let s ← get
    let words := if given.isEmpty then s.arguments else given
    let (next, place) := if words.length + 1 < s.nextOption.1 then (1, none) else s.nextOption
    let taken := (nextOptionOf known words next place).getD ⟨'?', none, next, none, none, true⟩
    if let some text := taken.complaint then complainLine text.toList
    match taken.value with
    | some value => assign "OPTARG".toList value
    | none =>
      if taken.complaint.isSome then
        modify fun s => { s with vars := s.vars.filter fun v => v.1 ≠ "OPTARG".toList }
    assign "OPTIND".toList (Bytes.ofNat taken.next)
    assignNamed name [taken.letter]
    let word := words.getD (taken.next - 2) []
    modify fun s => { s with
      nextOption := (taken.next, taken.rest.map fun rest => word.length - rest.length) }
    return if taken.ended then 1 else 0
  | _ => refuse "Usage: getopts optstring var [arg...]".toList

end Shell

end FiniteStructures
