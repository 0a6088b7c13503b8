import FiniteStructures.Process.Script.Alias
import FiniteStructures.Process.Script.Basic

/-!
Reading words and tokens.  What a character means depends on where it stands: outside of quotes,
between them, in braces, in an expression or in a document.  A `Place` says where; reading goes on
up to the end of the place.  Parts with commands in them are read by a function that is given, so
that words do not depend on the grammar of commands.

A backslash before a line end joins the lines, everywhere but between single quotes.

The text of an alias is put before the rest of the input, with a mark between them.
-/

namespace FiniteStructures

namespace Script

/-- Why a script cannot be read. -/
structure SyntaxError where
  line : Nat
  message : String
deriving DecidableEq, Repr

/-- A document whose lines are still to come. -/
structure PendingDocument where
  number : Nat
  delimiter : Bytes
  /-- Whether parameters stand for themselves. -/
  literal : Bool
  /-- Whether tabs at the beginning of lines are left out. -/
  indented : Bool
deriving DecidableEq, Repr

/-- What a redirection connects a channel to; the word after it says the name. -/
inductive RedirectKind where
  | file (how : Opening)
  | copy
  | document (indented : Bool)
deriving DecidableEq, Repr

inductive Token where
  | endOfFile
  | newline
  | op (text : String)
  | word (w : Word)
  | redirect (channel : Nat) (kind : RedirectKind)

/-- An alias whose text is being read. -/
structure OpenAlias where
  name : Bytes
  /-- Whether its text ends in a blank. -/
  endsInBlank : Bool
  /-- The aliases whose texts ended just before its own began. -/
  before : List Bytes
deriving DecidableEq, Repr

/-- A script being read. -/
structure Reader where
  input : List Char
  line : Nat
  aliases : Aliases
  /-- The aliases in whose texts the input begins, innermost first. -/
  inside : List OpenAlias
  /-- The aliases whose texts ended with the last character read. -/
  ended : List Bytes
  /-- Whether the next word may be an alias because the text of one has ended in a blank. -/
  expands : Bool
  /-- A token that was looked at. -/
  ahead : Option Token
  pending : List PendingDocument
  /-- The documents read, by number. -/
  documents : List (Nat × Word)
  /-- The number of the next document. -/
  fresh : Nat

/-- Readers of scripts. -/
abbrev Parse := StateT Reader (Except SyntaxError)

/-- What is to be read when commands are to be read. -/
inductive Extent where
  /-- The commands up to the end of a line. -/
  | line
  /-- One command or more, up to a word that ends them. -/
  | body
  /-- Any number of commands, up to a word that ends them. -/
  | optional
  /-- Any number of commands and a closing parenthesis. -/
  | closed
  /-- One command without operators. -/
  | single
deriving DecidableEq, Repr

namespace Reader

/-- A reader of a text whose documents get numbers from `fresh` on. -/
def ofText (text : Bytes) (fresh : Nat) (aliases : Aliases) : Reader :=
  ⟨text, 1, aliases, [], [], false, none, [], [], fresh⟩

/-- No script has as many parts of a kind as this in a row. -/
def most : Nat := 1000000000

/-- Ends reading with a complaint. -/
def refuse {α : Type} (message : String) : Parse α := do
  throw ⟨(← get).line, "Syntax error: " ++ message⟩

/-- The word of the language that a token is. -/
def keyword? : Token → Option String
  | .word w =>
    match plainText? w with
    | some text => reserved.find? fun r => r.toList = text
    | none => none
  | _ => none

/-- How a token is named in complaints; `words` says whether words of the language count. -/
def tokenName (words : Bool) (t : Token) : String :=
  match t with
  | .endOfFile => "end of file"
  | .newline => "newline"
  | .op text => "\"" ++ text ++ "\""
  | .redirect _ _ => "redirection"
  | .word _ =>
    match keyword? t with
    | some r => if words then "\"" ++ r ++ "\"" else "word"
    | none => "word"

/-- Ends reading at a token that must not stand there. -/
def unexpected {α : Type} (t : Token) (words : Bool) (expected : Option String) : Parse α :=
  refuse (tokenName words t ++ " unexpected" ++
    (expected.map fun e => " (expecting " ++ e ++ ")").getD "")

/-! ## Texts of aliases -/

/-- Stands in the input where the text of an alias ends; no byte has this code. -/
def textEnd : Char := Char.ofNat 256

/-- The text of an alias comes next. -/
def enterAlias (a : Alias) (s : Reader) : Reader :=
  if a.text.isEmpty then s
  else { s with
    input := a.text ++ textEnd :: s.input
    aliases := s.aliases.enter a.name
    inside := ⟨a.name, [some ' ', some '\t'].contains a.text.getLast?, s.ended⟩ :: s.inside
    ended := [] }

/-- The end of the text of the innermost alias. -/
def leaveAlias (s : Reader) : Reader :=
  match s.inside with
  | [] => s
  | a :: inside => { s with
    inside
    ended := a.name :: a.before ++ s.ended
    expands := s.expands || a.endsInBlank }

/-- The aliases whose texts have ended can be used again. -/
def settle (s : Reader) : Reader :=
  if s.ended.isEmpty then s
  else { s with aliases := s.aliases.leave s.ended.contains, ended := [] }

/-- Passes over the ends of texts in a piece of the input, and gives the rest of the piece. -/
def withoutEnds (piece : List Char) : Parse Bytes := do
  modify fun s => piece.foldl (fun s c => if c = textEnd then leaveAlias s else s) s
  return piece.filter (· != textEnd)

/-! ## Characters -/

/-- The first character of the input, which is not the end of a text, and the reader after it. -/
def uncons : List Char → Reader → Option Char × Reader
  | [], s => (none, { s with input := [] })
  | c :: rest, s => if c = textEnd then uncons rest (leaveAlias s) else (some c, { s with input := rest })

/-- The next character, even if it is a backslash that would join lines. -/
def nextAsItIs? : Parse (Option Char) :=
  modifyGet fun s =>
    let s := settle s
    uncons s.input s

/-- Puts a character back. -/
def back (c : Char) : Parse Unit := modify fun s => { s with input := c :: s.input }

def newLine : Parse Unit := modify fun s => { s with line := s.line + 1 }

/-- The next character after at most `n` line ends that join lines. -/
def nextAfter : (n : Nat) → Parse (Option Char)
  | 0 => return none
  | n + 1 => do
    match ← nextAsItIs? with
    | some '\\' =>
      match ← nextAsItIs? with
      | some '\n' =>
        newLine
        nextAfter n
      | some d =>
        back d
        return some '\\'
      | none => return some '\\'
    | c => return c

/-- The next character. -/
def next? : Parse (Option Char) := nextAfter most

/-- Passes over the next character if it is the given one. -/
def take (c : Char) : Parse Bool := do
  match ← next? with
  | none => return false
  | some d =>
    if c = d then return true
    back d
    return false

/-- Characters that satisfy a condition, at most `n`. -/
def takeUpTo (p : Char → Bool) : (n : Nat) → Parse Bytes
  | 0 => return []
  | n + 1 => do
    match ← next? with
    | none => return []
    | some c =>
      if p c then return c :: (← takeUpTo p n)
      back c
      return []

/-- All characters that come next and satisfy a condition. -/
def takeAll (p : Char → Bool) : Parse Bytes := takeUpTo p most

/-- Reads with another input, and returns to the rest of this one. -/
def within {α : Type} (input : List Char) (line : Nat) (p : Parse α) : Parse α := do
  let s ← get
  set { s with input, line, inside := [], ended := [], ahead := none, pending := [] }
  let a ← p
  modify fun t =>
    let t := settle { t with ended := t.ended ++ t.inside.map (·.name) }
    { t with
      input := s.input
      line := s.line
      inside := s.inside
      ended := s.ended
      ahead := s.ahead
      pending := s.pending }
  return a

/-! ## Places -/

/-- What ends a place. -/
inductive Boundary where
  | word
  | brace
  | quote
  /-- Two closing parentheses, after that many single ones. -/
  | expression (depth : Nat)
  | document
deriving DecidableEq, Repr

/-- Where a character stands. -/
structure Place where
  /-- Whether characters are quoted. -/
  quoted : Bool
  boundary : Boundary
  /-- Whether the place is in braces, with nothing but quotes between them. -/
  braced : Bool
  /-- Whether the place is in a document. -/
  inDocument : Bool
  /-- Whether the word ends a document, so that nothing stands for a value. -/
  delimiter : Bool

/-- A word of a command. -/
def Place.word : Place := ⟨false, .word, false, false, false⟩

/-- A document. -/
def Place.document : Place := ⟨true, .document, false, true, false⟩

/-- Characters that end a word of a command. -/
def endsWord (c : Char) : Bool := ['<', '>', ';', '&', '|', '(', ')', ' ', '\t'].contains c

/-- The characters that name a parameter by themselves. -/
def isSpecial (c : Char) : Bool := c.isDigit || ['!', '#', '$', '*', '-', '?', '@'].contains c

/-- The rest of a text between single quotes. -/
def singleQuoted : Parse Bytes := do
  let s ← get
  let text := s.input.takeWhile (· != '\'')
  let line := s.line + text.count '\n'
  match s.input.drop text.length with
  | [] =>
    set { s with input := [], line }
    refuse "Unterminated quoted string"
  | _ :: rest =>
    set { s with input := rest, line }
    withoutEnds text

/-- What a backslash makes of the character after it. -/
def escaped (place : Place) : Parse Word := do
  match ← nextAsItIs? with
  | none => return [.char '\\' true]
  | some c =>
    let bare := !place.quoted || c == '\\' || c == Char.ofNat 0x60 || c == '$' ||
      (c == '"' && (!place.inDocument || place.braced)) || (c == Char.ofNat 0x7d && place.braced)
    return if bare then [.char c true] else [.char '\\' true, .char c true]

/-- The text between backquotes, in which a backslash takes the meaning from some characters. -/
def backquoted (place : Place) : (n : Nat) → Parse Bytes
  | 0 => return []
  | n + 1 => do
    match ← next? with
    | none => refuse "EOF in backquote substitution"
    | some c =>
      if c == Char.ofNat 0x60 then return []
      else if c == '\\' then
        match ← next? with
        | none => refuse "EOF in backquote substitution"
        | some d =>
          let bare := d == '\\' || d == Char.ofNat 0x60 || d == '$' || (place.quoted && d == '"')
          let rest ← backquoted place n
          return if bare then d :: rest else '\\' :: d :: rest
      else
        if c == '\n' then newLine
        return c :: (← backquoted place n)

section

/-! Below, `commands` reads commands, and `inner` reads up to the end of a place. -/

variable (commands : Extent → Parse Command) (inner : Place → Parse Word)

/-- What stands in braces after the name of a parameter and an operator. -/
def operand (place : Place) (quoted : Bool) : Parse Word :=
  inner { place with quoted, boundary := .brace, braced := true }

/-- The use of a parameter in braces, after its name. -/
def paramUse (place : Place) : Parse ParamUse := do
  let orEmpty ← take ':'
  match ← next? with
  | none =>
    discard <| operand inner place place.quoted
    return .bad
  | some c =>
    let fallback (kind : Fallback) : Parse ParamUse := do
      return .fallback kind orEmpty (← operand inner place place.quoted)
    let trim (short long : Trim) : Parse ParamUse := do
      let twice ← take c
      return .trim (if twice then long else short) (← operand inner place false)
    if c == Char.ofNat 0x7d then
      if orEmpty then discard <| operand inner place place.quoted
      return .value
    else if c == '-' then fallback .use
    else if c == '=' then fallback .assign
    else if c == '?' then fallback .refuse
    else if c == '+' then fallback .replace
    else if !orEmpty && c == '#' then trim .shortHead .longHead
    else if !orEmpty && c == '%' then trim .shortTail .longTail
    else
      discard <| operand inner place place.quoted
      return .bad

/-- The name of a parameter in braces. -/
def paramName (c : Char) : Parse Bytes := do
  if Bytes.isNameStart c then return c :: (← takeAll Bytes.isNamePart)
  else if c.isDigit then return c :: (← takeAll Char.isDigit)
  else return [c]

/-- The length of a parameter, after the number sign and the first character of the name. -/
def paramLength (place : Place) (c : Char) : Parse Part := do
  let name ← paramName c
  let closed ← take (Char.ofNat 0x7d)
  if closed then return .param name .length place.quoted
  discard <| operand inner place place.quoted
  return .param name .bad place.quoted

/-- A parameter in braces. -/
def bracedParam (place : Place) : Parse Part := do
  let used (name : Bytes) : Parse Part := do
    return .param name (← paramUse inner place) place.quoted
  let bad : Parse Part := do
    discard <| operand inner place place.quoted
    return .param [] .bad place.quoted
  match ← next? with
  | none => bad
  | some c =>
    if c == '#' then
      match ← next? with
      | none => bad
      | some d =>
        if d == Char.ofNat 0x7d then
          back d
          used ['#']
        else if Bytes.isNamePart d then paramLength inner place d
        else
          if ← take (Char.ofNat 0x7d) then
            return .param [d] (if isSpecial d then .length else .bad) place.quoted
          back d
          used ['#']
    else if Bytes.isNameStart c || isSpecial c then
      let name ← paramName c
      used name
    else
      if c == Char.ofNat 0x7d then back c
      bad

/-- What follows a dollar sign. -/
def dollar (place : Place) : Parse Word := do
  match ← next? with
  | none => return [.char '$' place.quoted]
  | some c =>
    if c == '(' then
      if ← take '(' then
        let w ← inner { place with quoted := true, boundary := .expression 0, braced := false }
        return [.number w place.quoted]
      let s ← get
      set { s with pending := [] }
      let body ← commands .closed
      modify fun t => { t with pending := s.pending }
      return [.output body place.quoted]
    else if c == Char.ofNat 0x7b then return [← bracedParam inner place]
    else if Bytes.isNameStart c then
      let name ← paramName c
      return [.param name .value place.quoted]
    else if isSpecial c then return [.param [c] .value place.quoted]
    else
      back c
      return [.char '$' place.quoted]

/-- A pair of double quotes; all arguments between quotes need not be a field. -/
def doubleQuoted (place : Place) : Parse Word := do
  let w ← inner { place with quoted := true, boundary := .quote }
  match w with
  | [.param ['@'] .value true] => return w
  | _ => return if place.inDocument then w else .quotes :: w

/-- What a character begins; nothing if it ends the place.  A parenthesis in an expression changes
the place. -/
def part? (place : Place) (c : Char) : Parse (Option (Word × Place)) := do
  let found (w : Word) : Parse (Option (Word × Place)) := return some (w, place)
  let itself : Parse (Option (Word × Place)) := found [.char c place.quoted]
  if c == '\n' then
    if place.boundary = .word then
      back c
      return none
    newLine
    itself
  else if c == '\\' then found (← escaped place)
  else if c == '\'' && !place.quoted then
    let text ← singleQuoted
    found (if place.inDocument then quoted text else .quotes :: quoted text)
  else if c == '"' then
    if place.boundary = .quote then return none
    match place.boundary with
    | .expression _ | .document => itself
    | _ => found (← doubleQuoted inner place)
  else if c == '$' && !place.delimiter then found (← dollar commands inner place)
  else if c == Char.ofNat 0x60 && !place.delimiter then
    let text ← backquoted place most
    found [.output (← within text 1 (commands .optional)) place.quoted]
  else
    match place.boundary with
    | .brace => if c == Char.ofNat 0x7d then return none else itself
    | .word =>
      if endsWord c then
        back c
        return none
      itself
    | .expression depth =>
      if c == '(' then
        return some ([.char c true], { place with boundary := .expression (depth + 1) })
      else if c == ')' then
        if 0 < depth then
          return some ([.char c true], { place with boundary := .expression (depth - 1) })
        if ← take ')' then return none
        itself
      else itself
    | .quote | .document => itself

end

/-- What is wrong if the script ends in a place. -/
def unfinished? (place : Place) : Option String :=
  match place.boundary with
  | .word | .document => none
  | .expression _ => some "Missing '))'"
  | .quote => some (if place.inDocument then "Missing '\x7d'" else "Unterminated quoted string")
  | .brace =>
    some (if place.quoted && !place.inDocument then "Unterminated quoted string"
      else "Missing '\x7d'")

/-- The parts up to the end of a place; those read are kept last first, and `n` bounds the number
of characters. -/
def parts (commands : Extent → Parse Command) : (n : Nat) → Place → Word → Parse Word
  | 0, _, read => return read.reverse
  | n + 1, place, read => do
    match ← next? with
    | none =>
      match unfinished? place with
      | none => return read.reverse
      | some message => refuse message
    | some c =>
      match ← part? commands (fun p => parts commands n p []) place c with
      | none => return read.reverse
      | some (w, place) => parts commands n place (w.reverse ++ read)

/-- The parts up to the end of a place. -/
def word (commands : Extent → Parse Command) (place : Place) : Parse Word := do
  parts commands most place []

/-! ## Documents -/

/-- A line ends in a backslash that joins it to the next one. -/
def continues (line : Bytes) : Bool := (line.reverse.takeWhile (· == '\\')).length % 2 = 1

/-- The lines of a document, at most `n`, and what follows the line that ends it.  After a line
that is continued, the next one is taken as it is. -/
def documentLines (d : PendingDocument) : (n : Nat) → (joins : Bool) → List Char →
    List Char × List Char
  | 0, _, input => ([], input)
  | n + 1, joins, input =>
    let line := input.takeWhile (· != '\n')
    let rest := input.drop line.length
    let line := line.filter (· != textEnd)
    let line := if d.indented && !joins then line.dropWhile (· == '\t') else line
    if input.isEmpty then ([], [])
    else if !joins && line = d.delimiter then ([], rest.tail)
    else
      let (more, after) := documentLines d n (!d.literal && continues line) rest.tail
      (line ++ rest.take 1 ++ more, after)

/-- Reads the documents whose lines begin here. -/
def readDocuments (commands : Extent → Parse Command) : List PendingDocument → Parse Unit
  | [] => return
  | d :: rest => do
    let s ← get
    let (text, after) := documentLines d (s.input.length + 1) false s.input
    set { s with pending := [] }
    let w ← if d.literal then pure (quoted text)
      else within text s.line (word commands Place.document)
    let read := s.input.take (s.input.length - after.length)
    discard <| withoutEnds read
    modify fun t => { t with
      input := after
      line := s.line + read.count '\n'
      documents := (d.number, w) :: t.documents }
    readDocuments commands rest

/-! ## Tokens -/

/-- Passes over the characters of a comment, at most `n`. -/
def skipComment : (n : Nat) → Parse Unit
  | 0 => return
  | n + 1 => do
    match ← nextAsItIs? with
    | none => return
    | some c => if c == '\n' then back c else skipComment n

/-- Passes over blanks, at most `n`, and a comment. -/
def skipBlanks : (n : Nat) → Parse Unit
  | 0 => return
  | n + 1 => do
    match ← next? with
    | none => return
    | some c =>
      if c == ' ' || c == '\t' then skipBlanks n
      else if c == '#' then skipComment most
      else back c

/-- The kind of a redirection, after its first character. -/
def redirectKind (c : Char) : Parse RedirectKind := do
  if c == '>' then
    if ← take '>' then return .file .append
    if ← take '|' then return .file .force
    if ← take '&' then return .copy
    return .file .write
  else
    if ← take '<' then return .document (← take '-')
    if ← take '&' then return .copy
    if ← take '>' then return .file .update
    return .file .read

/-- A redirection, after the word before it, if that word may stand there. -/
def redirect? (w : Word) (c : Char) : Parse (Option Token) := do
  let channel? : Option (Option Nat) :=
    match plainText? w with
    | some [] => some none
    | some [d] => if d.isDigit then some (some (d.toNat - '0'.toNat)) else none
    | _ => none
  match channel? with
  | none => return none
  | some channel =>
    discard next?
    let kind ← redirectKind c
    return some (.redirect (channel.getD (if c == '<' then 0 else 1)) kind)

/-- Reads a token. -/
def readToken (commands : Extent → Parse Command) (delimiter : Bool) : Parse Token := do
  skipBlanks most
  let double (c : Char) : Parse Token := do
    if ← take c then return .op (String.ofList [c, c]) else return .op (String.singleton c)
  match (← get).input with
  | [] =>
    readDocuments commands (← get).pending
    return .endOfFile
  | c :: rest =>
    if c == '\n' then
      modify fun s => { s with input := rest, line := s.line + 1 }
      readDocuments commands (← get).pending
      return .newline
    else if c == '(' || c == ')' then
      modify fun s => { s with input := rest }
      return .op (String.singleton c)
    else if c == '&' || c == '|' || c == ';' then
      modify fun s => { s with input := rest }
      double c
    else
      let w ← word commands { Place.word with delimiter }
      match (← get).input with
      | d :: _ =>
        if d == '<' || d == '>' then return (← redirect? w d).getD (.word w) else return .word w
      | [] => return .word w

/-- What a word is looked up among. -/
structure Lookup where
  keywords : Bool
  aliases : Bool
deriving DecidableEq, Repr

namespace Lookup

def nothing : Lookup := ⟨false, false⟩

def words : Lookup := ⟨true, false⟩

def all : Lookup := ⟨true, true⟩

end Lookup

/-- Reads a token.  A word that is an alias is replaced by its text, at most `n` times. -/
def expandedToken (commands : Extent → Parse Command) (delimiter : Bool) :
    (n : Nat) → Lookup → Parse Token
  | 0, _ => refuse "word too long"
  | n + 1, lookup => do
    let t ← readToken commands delimiter
    let s ← get
    let lookup := { lookup with aliases := lookup.aliases || s.expands }
    set { s with expands := false }
    match t with
    | .word w =>
      if !lookup.aliases || (lookup.keywords && (keyword? t).isSome) then return t
      match (plainText? w).bind s.aliases.find? with
      | some a =>
        if a.inUse then return t
        modify (enterAlias a)
        expandedToken commands delimiter n lookup
      | none => return t
    | t => return t

/-- The next token. -/
def token (commands : Extent → Parse Command) (lookup : Lookup) : Parse Token := do
  match (← get).ahead with
  | some t =>
    modify fun s => { s with ahead := none }
    return t
  | none => expandedToken commands false most lookup

/-- Looks at the next token. -/
def peek (commands : Extent → Parse Command) (lookup : Lookup) : Parse Token := do
  let t ← token commands lookup
  modify fun s => { s with ahead := some t }
  return t

end Reader

end Script

end FiniteStructures
