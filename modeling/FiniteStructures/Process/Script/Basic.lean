import FiniteStructures.Process.Bytes

/-!
Shell scripts.  A script is a command; its words are made of parts, some of which stand for a
value that is only known when the script runs, and such a part may hold words and commands again.
-/

namespace FiniteStructures

namespace Script

/-- What happens to a parameter that has no value. -/
inductive Fallback where
  /-- Another word is used. -/
  | use
  /-- Another word is used and becomes the value. -/
  | assign
  /-- The script ends with a word as complaint. -/
  | refuse
  /-- A word is used if there *is* a value. -/
  | replace
deriving DecidableEq, Repr

/-- Which part of a value a pattern takes away. -/
inductive Trim where
  | shortHead
  | longHead
  | shortTail
  | longTail
deriving DecidableEq, Repr

/-- How a file is opened. -/
inductive Opening where
  | read
  | write
  | append
  | update
  /-- For writing, even if it exists and must not be overwritten. -/
  | force
deriving DecidableEq, Repr

mutual

/-- A part of a word. -/
inductive Part where
  | char (c : Char) (quoted : Bool)
  /-- A pair of quotes, which makes a field even if nothing is between them. -/
  | quotes
  | param (name : Bytes) (use : ParamUse) (quoted : Bool)
  /-- What a command writes. -/
  | output (body : Command) (quoted : Bool)
  /-- The value of an arithmetic expression. -/
  | number (expression : List Part) (quoted : Bool)

/-- How a parameter is used. -/
inductive ParamUse where
  | value
  | length
  /-- With something for the case that the parameter is not set, or that it is not set or empty. -/
  | fallback (kind : Fallback) (orEmpty : Bool) (word : List Part)
  | trim (kind : Trim) (pattern : List Part)
  /-- In no way that has a meaning. -/
  | bad

/-- Where a channel leads. -/
inductive Redirection where
  | file (channel : Nat) (how : Opening) (name : List Part)
  /-- Where another channel leads; a dash closes the channel. -/
  | copy (channel : Nat) (source : List Part)
  /-- Into the document with a number. -/
  | document (channel : Nat) (number : Nat)

/-- A command.  Those that complain have the number of their line. -/
inductive Command where
  | skip
  | simple (line : Nat) (assignments : List (Bytes × List Part)) (words : List (List Part))
      (redirections : List Redirection)
  | sequence (first second : Command)
  /-- The second command runs if the first succeeds, or else if it fails. -/
  | andThen (first second : Command)
  | orElse (first second : Command)
  | negated (body : Command)
  /-- Each command reads what the one before it writes. -/
  | pipeline (parts : List Command)
  | background (body : Command)
  | conditional (condition body otherwise : Command)
  /-- Runs the body as long as the condition succeeds, or as long as it fails. -/
  | loop (whileTrue : Bool) (condition body : Command)
  /-- Runs the body for each word; without words, for each argument. -/
  | each (line : Nat) (name : Bytes) (words : Option (List (List Part))) (body : Command)
  | choice (line : Nat) (subject : List Part) (arms : List (List (List Part) × Command))
  | redirected (line : Nat) (body : Command) (redirections : List Redirection)
  /-- Runs the body without a lasting effect on the shell. -/
  | isolated (line : Nat) (body : Command) (redirections : List Redirection)
  | define (name : Bytes) (body : Command)

end

instance : Inhabited Command := ⟨.skip⟩

abbrev Word := List Part

/-- The text of a word without quotes and without parts that stand for values. -/
def plainText? (w : Word) : Option Bytes :=
  w.mapM fun p =>
    match p with
    | .char c false => some c
    | _ => none

/-- The word has a quote in it. -/
def isQuoted (w : Word) : Bool :=
  w.any fun p =>
    match p with
    | .quotes => true
    | .char _ quoted | .param _ _ quoted | .output _ quoted | .number _ quoted => quoted

/-- A plain word. -/
def plain (text : Bytes) : Word := text.map (Part.char · false)

/-- A word that stands for itself. -/
def quoted (text : Bytes) : Word := text.map (Part.char · true)

/-- A name before an equals sign and the word after it. -/
def assignment? (w : Word) : Option (Bytes × Word) :=
  let name := w.takeWhile fun p =>
    match p with
    | .char c false => Bytes.isNamePart c
    | _ => false
  match plainText? name, w.drop name.length with
  | some name, .char '=' false :: value => if Bytes.isName name then some (name, value) else none
  | _, _ => none

/-- The words of the language. -/
def reserved : List String :=
  ["!", "\x7b", "\x7d", "case", "do", "done", "elif", "else", "esac", "fi", "for", "if", "in",
    "then", "until", "while"]

/-- The commands that no function may replace. -/
def specialNames : List String :=
  [".", ":", "break", "continue", "eval", "exec", "exit", "export", "local", "readonly", "return",
    "set", "shift", "times", "trap", "unset"]

end Script

end FiniteStructures
