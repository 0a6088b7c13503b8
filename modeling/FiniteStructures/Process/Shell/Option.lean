import FiniteStructures.Process.Shell.Expansion

/-!
Options.  The commands of a shell have options with values; a shell has options that are on or off,
chosen by the words of its command line and by `set`.
-/

namespace FiniteStructures

/-- What stands after the options of a shell. -/
structure OptionWords where
  /-- The words after the options. -/
  operands : List Bytes
  /-- Letters that mean something only where they stand. -/
  letters : Bytes
  /-- A dash, or two of them, that ended the options. -/
  mark : Bytes

namespace Shell

/-! ## Options of commands -/

/-- The options of a word after its dash, and the arguments left.  An option that takes a value,
which a colon after it in `known` says, takes the rest of the word or else the next argument. -/
def optionsOfWord (known : Bytes) (args : List Bytes) :
    Bytes → Action (List (Char × Bytes) × List Bytes)
  | [] => return ([], args)
  | c :: rest => do
    match known.dropWhile (· != c) with
    | [] => refuseText "Illegal option -" [c] ""
    | _ :: ':' :: _ =>
      match rest, args with
      | [], [] => refuseText "No arg for -" [c] " option"
      | [], value :: args => return ([(c, value)], args)
      | value, args => return ([(c, value)], args)
    | _ =>
      let (more, args) ← optionsOfWord known args rest
      return ((c, []) :: more, args)

/-- The options at the beginning of at most `n` arguments, and the arguments after them. -/
def optionsUpTo (known : Bytes) : (n : Nat) → List Bytes → Action (List (Char × Bytes) × List Bytes)
  | 0, args => return ([], args)
  | n + 1, args => do
    match args with
    | ['-', '-'] :: rest => return ([], rest)
    | ('-' :: c :: word) :: rest =>
      let (found, rest) ← optionsOfWord known rest (c :: word)
      let (more, rest) ← optionsUpTo known n rest
      return (found ++ more, rest)
    | args => return ([], args)

/-- The options of a command, and its other arguments. -/
def commandOptions (known : String) (args : List Bytes) :
    Action (List (Char × Bytes) × List Bytes) :=
  optionsUpTo known.toList args.length args

/-- The arguments of a command without options. -/
def noOptions (args : List Bytes) : Action (List Bytes) := do return (← commandOptions "" args).2

/-! ## Options of the shell -/

/-- The option that another one excludes. -/
def rival? : Char → Option Char
  | 'V' => some 'E'
  | 'E' => some 'V'
  | _ => none

/-- Turns an option on or off. -/
def setOption (on : Bool) (letter : Char) : Action Unit :=
  modify fun s =>
    let others := s.options.filter (· != letter)
    if on then { s with options := letter :: others.filter fun c => rival? letter ≠ some c }
    else { s with options := others }

/-- The option with a letter, if there is one. -/
def chooseLetter (on : Bool) (letter : Char) : Action Unit := do
  if letter.isAlpha && optionNames.any (·.1 = letter) then setOption on letter
  else refuseText "Illegal option -" [letter] ""

/-- The settings of all options, as a table or as commands that bring them about. -/
def optionTable (s : Shell) (asTable : Bool) : String :=
  let row (o : Char × String) : String :=
    let on := s.hasOption o.1
    if asTable then
      o.2 ++ String.ofList (List.replicate (16 - o.2.length) ' ') ++ (if on then "on" else "off")
    else (if on then "set -o " else "set +o ") ++ o.2
  String.join ((if asTable then ["Current option settings\n"] else []) ++
    optionNames.map fun o => row o ++ "\n")

/-- Turns a named option on or off; without a name, shows the settings. -/
def chooseNamed (on : Bool) : Option Bytes → Action Unit
  | none => do discard <| print (optionTable (← get) on).toList
  | some name =>
    match optionNames.find? fun o => o.2.toList = name with
    | some o => setOption on o.1
    | none => refuseText "Illegal option -o " name ""

/-- Turns the options of a word on or off, but not the letters in `other`.  Gives those letters and
the arguments left. -/
def chooseLetters (other : Bytes) (on : Bool) : Bytes → List Bytes → Action (Bytes × List Bytes)
  | [], args => return ([], args)
  | c :: rest, args => do
    if other.contains c then
      let (letters, args) ← chooseLetters other on rest args
      return (c :: letters, args)
    else if c = 'o' then
      chooseNamed on args.head?
      chooseLetters other on rest args.tail
    else
      chooseLetter on c
      chooseLetters other on rest args

/-- Turns options on and off as at most `n` arguments say. -/
def chooseUpTo (other : Bytes) : (n : Nat) → List Bytes → Action OptionWords
  | 0, args => return ⟨args, [], []⟩
  | n + 1, args => do
    match args with
    | ['-'] :: rest => return ⟨rest, [], ['-']⟩
    | ['-', '-'] :: rest => return ⟨rest, [], ['-', '-']⟩
    | (sign :: word) :: rest =>
      if sign = '-' || sign = '+' then
        let (letters, rest) ← chooseLetters other (sign = '-') word rest
        let more ← chooseUpTo other n rest
        return { more with letters := letters ++ more.letters }
      else return ⟨args, [], []⟩
    | args => return ⟨args, [], []⟩

/-- Turns options on and off as arguments say. -/
def choose (other : String) (args : List Bytes) : Action OptionWords :=
  chooseUpTo other.toList args.length args

/-- Turns off the control of jobs, for which there is no terminal. -/
def settleOptions : Action Unit := do
  let s ← get
  if s.hasOption 'm' then
    warn "can't access tty; job control turned off".toList
    setOption false 'm'

end Shell

end FiniteStructures
