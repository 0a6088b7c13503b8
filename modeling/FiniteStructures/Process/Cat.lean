import FiniteStructures.Process.Shell.Connection

/-!
The program `cat`, which writes files one after another, with its options: lines may be numbered
and their ends marked, blank lines joined, and characters that do not print shown by others.
-/

namespace FiniteStructures

namespace Cat

/-- What is shown besides the characters of the files. -/
structure Options where
  numbers : Bool
  /-- Only lines that are not blank are numbered. -/
  skipsBlank : Bool
  squeezes : Bool
  ends : Bool
  tabs : Bool
  codes : Bool

def Options.plain : Options := ⟨false, false, false, false, false, false⟩

/-- Long options and the letters for them. -/
def longOptions : List (String × Char) :=
  [("number-nonblank", 'b'), ("number", 'n'), ("squeeze-blank", 's'), ("show-nonprinting", 'v'),
    ("show-ends", 'E'), ("show-tabs", 'T'), ("show-all", 'A'), ("help", 'h'), ("version", 'V')]

/-- Options with the one of a letter. -/
def Options.with? (o : Options) (letter : Char) : Option Options :=
  match letter with
  | 'A' => some { o with codes := true, ends := true, tabs := true }
  | 'b' => some { o with numbers := true, skipsBlank := true }
  | 'e' => some { o with codes := true, ends := true }
  | 'E' => some { o with ends := true }
  | 'n' => some { o with numbers := true }
  | 's' => some { o with squeezes := true }
  | 't' => some { o with codes := true, tabs := true }
  | 'T' => some { o with tabs := true }
  | 'u' => some o
  | 'v' => some { o with codes := true }
  | _ => none

/-- Why the arguments make no sense, or that only something about the program is asked for. -/
inductive Refusal where
  | wrong (text : Bytes)
  | about

/-- Options with those of the letters of a word. -/
def withLetters (o : Options) : Bytes → Except Refusal Options
  | [] => .ok o
  | c :: rest =>
    match o.with? c with
    | some o => withLetters o rest
    | none => .error (.wrong ("invalid option -- '".toList ++ [c, '\'']))

/-- Options with a long one, which may be shortened. -/
def withLong (o : Options) (text : Bytes) : Except Refusal Options :=
  let name := text.takeWhile (· != '=')
  let found :=
    match longOptions.filter fun (l : String × Char) => l.1.toList = name with
    | [] => longOptions.filter fun (l : String × Char) => name.isPrefixOf l.1.toList
    | exact => exact
  let quoted (name : Bytes) : Bytes := "'--".toList ++ name ++ ['\'']
  match found with
  | [] => .error (.wrong ("unrecognized option ".toList ++ quoted text))
  | [(long, letter)] =>
    if name.length < text.length then
      .error (.wrong
        ("option ".toList ++ quoted long.toList ++ " doesn't allow an argument".toList))
    else
      match o.with? letter with
      | some o => .ok o
      | none => .error .about
  | several =>
    .error (.wrong ("option ".toList ++ quoted text ++ " is ambiguous; possibilities:".toList ++
      several.flatMap fun (l : String × Char) => ' ' :: quoted l.1.toList))

/-- The options and the files among arguments. -/
def arguments (o : Options) : List Bytes → Except Refusal (Options × List Bytes)
  | [] => .ok (o, [])
  | ['-', '-'] :: rest => .ok (o, rest)
  | ('-' :: '-' :: long) :: rest => do arguments (← withLong o long) rest
  | ('-' :: c :: letters) :: rest => do arguments (← withLetters o (c :: letters)) rest
  | file :: rest => do
    let (o, files) ← arguments o rest
    return (o, file :: files)

/-! ## Text -/

/-- Where in the text the next character stands. -/
structure Place where
  /-- The number of the last line that was numbered. -/
  line : Nat
  /-- The number of blank lines before, up to two; nothing inside a line. -/
  blanks : Option Nat

/-- A character as it is shown. -/
def shown (o : Options) (c : Char) : Bytes :=
  let caret (n : Nat) : Bytes := ['^', Char.ofNat n]
  let plain (n : Nat) : Bytes :=
    if n = 127 then caret 63 else if n < 32 then caret (n + 64) else [Char.ofNat n]
  let n := c.toNat
  if c = '\t' then if o.tabs then caret 73 else [c]
  else if !o.codes then [c]
  else if n < 128 then plain n
  else "M-".toList ++ plain (n - 128)

/-- The number of the next line. -/
def numeral (n : Nat) : Bytes :=
  let digits := Bytes.ofNat n
  List.replicate (6 - digits.length) ' ' ++ digits ++ ['\t']

/-- A line end at a place. -/
def lineEnd (o : Options) (p : Place) : Bytes × Place :=
  let mark : Bytes := if o.ends then ['$', '\n'] else ['\n']
  match p.blanks with
  | none => (mark, { p with blanks := some 0 })
  | some n =>
    if o.squeezes && 1 ≤ n then ([], { p with blanks := some 2 })
    else
      let next : Place := { p with blanks := some (min 2 (n + 1)) }
      if o.numbers && !o.skipsBlank then
        (numeral (p.line + 1) ++ mark, { next with line := p.line + 1 })
      else (mark, next)

/-- A text as it is shown, with the pieces before it kept last first. -/
def rendered (o : Options) : Place → Bytes → List Bytes → Bytes × Place
  | p, [], pieces => (pieces.reverse.flatten, p)
  | p, '\n' :: rest, pieces =>
    let (text, p) := lineEnd o p
    rendered o p rest (text :: pieces)
  | p, c :: rest, pieces =>
    let before := if o.numbers && p.blanks.isSome then numeral (p.line + 1) else []
    let line := if before.isEmpty then p.line else p.line + 1
    let text := if c = '\r' && o.ends && rest.head? = some '\n' then ['^', 'M'] else shown o c
    rendered o ⟨line, none⟩ rest (text :: before :: pieces)

/-! ## Files -/

/-- A file name in complaints: between quotes if it has characters that mean something to a
shell. -/
def named (name : Bytes) : Bytes :=
  let isActive (c : Char) : Bool :=
    " \t\n!\"$&'()*;<=>?[\\^|:".toList.contains c || c = Char.ofNat 0x60
  let needed := name.isEmpty || name.any isActive || name.head? = some '#' || name.head? = some '~'
  let isWeak (c : Char) : Bool :=
    c.isAlphanum || " '%+,-./:@]_".toList.contains c || c = Char.ofNat 0x7b || c = Char.ofNat 0x7d
  if !needed then name
  else if name.contains '\'' && name.all isWeak then ['"'] ++ name ++ ['"']
  else
    let inner := name.flatMap fun c => if c = '\'' then "'\\''".toList else [c]
    ['\''] ++ inner ++ ['\'']

open Shell

/-- Complains about something. -/
def complain (program text : Bytes) : Action Unit := complainLine (program ++ ": ".toList ++ text)

/-- Complains about a file. -/
def complainOf (program name : Bytes) (what : String) : Action Unit :=
  complain program (named name ++ ": ".toList ++ what.toList)

/-- A file that is read, or why it cannot be. -/
def source (name : Bytes) : Action (Except FileError (Option Nat × OpenStream)) := do
  if name = ['-'] then
    match ← stream? 0 with
    | some (number, s) =>
      return if s.readable then .ok (some number, s) else .error .badDescriptor
    | none => return .error .badDescriptor
  else
    match ← openFile .read name with
    | .ok s => return .ok (none, s)
    | .error e => return .error e

/-- A stream leads to the file that is written to, so that copying it would not end. -/
def feedsItself (content : Bytes) (s out : OpenStream) : Bool :=
  match s.stream, out.stream with
  | .file a, .file b => a = b && !content.isEmpty
  | _, _ => false

/-- Writes a file; tells whether that was possible, and the place after it.  Nothing more can be
done when the output refuses the text. -/
def copy (program : Bytes) (o : Options) (out : OpenStream) (name : Bytes) (p : Place) :
    Action (Except Unit (Bool × Place)) := do
  match ← source name with
  | .error e =>
    complainOf program name e.message
    return .ok (false, p)
  | .ok (number, s) =>
    let content := unread (← get).world s
    if s.stream = .directory then
      complainOf program name FileError.isADirectory.message
      return .ok (false, p)
    else if feedsItself content s out then
      complainOf program name "input file is output file"
      return .ok (false, p)
    else
      if let some number := number then
        updateWorld fun w => consume w number s content.length
      let (text, p) := rendered o p content []
      match ← if text.isEmpty then pure (.ok ()) else write 1 text with
      | .ok _ => return .ok (true, p)
      | .error e =>
        complain program ("write error: ".toList ++ e.message.toList)
        return .error ()

/-- Writes files; `status` is the one so far. -/
def copyAll (program : Bytes) (o : Options) (out : OpenStream) : (status : Nat) → Place →
    List Bytes → Action Nat
  | status, _, [] => return status
  | status, p, name :: rest => do
    match ← copy program o out name p with
    | .error _ => return 1
    | .ok (true, p) => copyAll program o out status p rest
    | .ok (false, p) => copyAll program o out 1 p rest

/-- Runs the program, which is named `program` in complaints. -/
def run (program : Bytes) (args : List Bytes) : Action Nat := do
  match arguments .plain args with
  | .error (.wrong text) =>
    complain program text
    complainLine ("Try '".toList ++ program ++ " --help' for more information.".toList)
    return 1
  | .error .about =>
    discard <| write 1 ("Usage: ".toList ++ program ++ " [OPTION]... [FILE]...\n".toList)
    return 0
  | .ok (o, files) =>
    match ← stream? 1 with
    | none =>
      complain program "standard output: Bad file descriptor".toList
      return 1
    | some (_, out) =>
      let files := if files.isEmpty then [['-']] else files
      let status ← copyAll program o out 0 ⟨0, some 0⟩ files
      if files.contains ['-'] && (← stream? 0).isNone then
        complain program "closing standard input: Bad file descriptor".toList
        return 1
      return status

end Cat

end FiniteStructures
