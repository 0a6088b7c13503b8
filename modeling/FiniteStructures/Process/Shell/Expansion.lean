import FiniteStructures.Process.Arithmetic
import FiniteStructures.Process.Pattern
import FiniteStructures.Process.Shell.Job

/-!
From words to fields.  A word becomes a row of pieces when its parameters, commands and expressions
get their values; the pieces are then cut into fields at the separators that stand in values
without quotes, and a field that is an active pattern becomes the names of the files it matches.
-/

namespace FiniteStructures

/-- A piece of the value of a word. -/
inductive Piece where
  /-- A character; whether it can be a pattern's, and whether it can be a separator. -/
  | char (c : Char) (quoted splits : Bool)
  /-- Makes a field even if nothing is in it. -/
  | quotes
  /-- The end of an argument with another one after it. -/
  | stop
  /-- Here begins a value in which fields may end; `quoted` if they only end where arguments do. -/
  | value (quoted : Bool)
deriving DecidableEq, Repr

/-- The value of a parameter. -/
inductive ParamValue where
  | one (text : Bytes)
  | many (texts : List Bytes)
deriving DecidableEq, Repr

/-- What a word is expanded for. -/
structure Manner where
  /-- For fields, so that arguments stay apart. -/
  fields : Bool
  /-- As an operand without quotes, so that separators in it count. -/
  operand : Bool
deriving DecidableEq, Repr

namespace Shell

open Script

/-! ## Parameters -/

/-- The options with names, in the order in which they are listed. -/
def optionNames : List (Char × String) :=
  [('e', "errexit"), ('f', "noglob"), ('I', "ignoreeof"), ('i', "interactive"), ('m', "monitor"),
    ('n', "noexec"), ('s', "stdin"), ('x', "xtrace"), ('v', "verbose"), ('V', "vi"), ('E', "emacs"),
    ('C', "noclobber"), ('a', "allexport"), ('b', "notify"), ('u', "nounset"), ('p', "privileged"),
    (Char.ofNat 1, "nolog"), (Char.ofNat 2, "debug")]

/-- The letters of the options that are on, last one first; two options have none. -/
def optionLetters (s : Shell) : Bytes :=
  ((optionNames.map (·.1)).filter fun c => c.isAlpha && s.hasOption c).reverse

/-- The value of a parameter that is set. -/
def param? (s : Shell) (name : Bytes) : Option ParamValue :=
  match name with
  | ['@'] | ['*'] => some (.many s.arguments)
  | ['#'] => some (.one (Bytes.ofNat s.arguments.length))
  | ['?'] => some (.one (Bytes.ofNat s.status))
  | ['$'] => some (.one (Bytes.ofNat s.process))
  | ['!'] => s.lastJob.map fun job => .one (Bytes.ofNat job)
  | ['-'] => some (.one (optionLetters s))
  | _ =>
    if name.all Char.isDigit then
      match Numeral.ofDigits 10 name with
      | 0 => some (.one s.name)
      | n + 1 => s.arguments[n]?.map .one
    else (s.value? name).map .one

/-- What stands between arguments that are joined. -/
def joint (s : Shell) : Bytes :=
  match s.value? "IFS".toList with
  | none => [' ']
  | some ifs => ifs.take 1

/-- The value of a parameter as one text. -/
def joined (s : Shell) : ParamValue → Bytes
  | .one text => text
  | .many texts => Bytes.join (joint s) texts

/-- The pieces of a text. -/
def textPieces (text : Bytes) (quoted : Bool) : List Piece := text.map (.char · quoted (!quoted))

/-- The piece that begins the value of a parameter; between quotes only arguments need it. -/
def valueStart (s : Shell) (name : Bytes) (quoted : Bool) : List Piece :=
  if !quoted then [.value false]
  else if name = ['@'] && !s.arguments.isEmpty then [.value true]
  else []

/-- The arguments of a value stay apart. -/
def keepsApart (s : Shell) (m : Manner) (name : Bytes) (quoted : Bool) : Bool :=
  m.fields && (if quoted then name = ['@'] else (s.value? "IFS".toList).isSome)

/-- The pieces of a value. -/
def valuePieces (s : Shell) (m : Manner) (name : Bytes) (quoted : Bool) : ParamValue → List Piece
  | .one text => valueStart s name quoted ++ textPieces text quoted
  | .many texts =>
    valueStart s name quoted ++
      if keepsApart s m name quoted then
        [Piece.stop].intercalate (texts.map (textPieces · quoted))
      else textPieces (Bytes.join (joint s) texts) quoted

/-- The text of pieces. -/
def piecesText (pieces : List Piece) : Bytes :=
  pieces.filterMap fun p =>
    match p with
    | .char c _ _ => some c
    | _ => none

/-- The pattern of pieces. -/
def piecesPattern (pieces : List Piece) : Pattern :=
  pieces.filterMap fun p =>
    match p with
    | .char c quoted _ => some (c, quoted)
    | _ => none

/-- What stands between arguments in a value from which a part is taken away. -/
def argumentEnd : Char := Char.ofNat 0

/-- A value without the part that a pattern matches.  Of several arguments only one is compared
with the pattern, the one in which the part begins; for the longest part at the end that is the
first one. -/
def trim (kind : Trim) (p : Pattern) (text : Bytes) : Bytes :=
  let first := text.takeWhile (· != argumentEnd)
  let cuts := List.range (text.length + 1)
  let isMatch (part : Bytes) := p.accepts (part.takeWhile (· != argumentEnd))
  let head (n : Nat) := isMatch (text.take n)
  let tail (n : Nat) := isMatch (text.drop n)
  match kind with
  | .shortHead => ((cuts.find? head).map text.drop).getD text
  | .longHead => ((cuts.reverse.find? head).map text.drop).getD text
  | .shortTail => ((cuts.reverse.find? tail).map text.take).getD text
  | .longTail => (((cuts.take (first.length + 1)).find? tail).map text.take).getD text

/-- Arguments without the part of them that a pattern matches. -/
def trimAll (kind : Trim) (p : Pattern) (texts : List Bytes) : List Bytes :=
  (trim kind p (Bytes.join [argumentEnd] texts)).splitOn argumentEnd

/-! ## Home directories -/

/-- The home directory of a user; no name stands for the user that runs the shell. -/
def homeOf (s : Shell) (user : Bytes) : Option Bytes :=
  if user.isEmpty then s.value? "HOME".toList
  else if user = "root".toList then some "/root".toList
  else none

/-- Replaces a tilde and a name by a home directory at the beginning of a word, and in an
assignment also after colons. -/
def tilde (s : Shell) (colons : Bool) (w : Word) : Word :=
  match w with
  | .char '~' false :: rest =>
    let user := rest.takeWhile fun p =>
      match p with
      | .char c false => c != '/' && !(colons && c == ':')
      | _ => false
    let after := rest.drop user.length
    let ends :=
      match after with
      | [] | .char '/' false :: _ | .char ':' false :: _ => true
      | _ => false
    match if ends then (plainText? user).bind (homeOf s) else none with
    | some home => quoted home ++ after
    | none => w
  | w => w

/-- Applies `tilde` after each colon of the rest of an assignment, at most `n` parts of it. -/
def tildes (s : Shell) : (n : Nat) → Word → Word
  | 0, w => w
  | n + 1, w =>
    let piece := w.takeWhile fun p =>
      match p with
      | .char ':' false => false
      | _ => true
    match w.drop piece.length with
    | colon :: rest => tilde s true piece ++ colon :: tildes s n rest
    | [] => tilde s true w

/-! ## Values of words -/

/-- The value of an expression; variables get the values that it assigns. -/
def calculate (text : Bytes) : Action Int := do
  let s ← get
  let lookup (name : Bytes) : Bytes := (((param? s name).map (joined s)).getD [])
  match Arithmetic.evaluate lookup text with
  | .ok (n, assigned) =>
    assigned.forM fun (name, n) => assign name (Bytes.ofInt n)
    return n
  | .error (.malformed what) =>
    refuseText ("arithmetic expression: " ++ what ++ ": \"") text "\""
  | .error (.notANumber text) => refuseText "Illegal number: " text ""

section

/-! Below, `inner` expands words that stand in a part of a word. -/

variable (again : Step) (inner : Manner → Word → Action (List Piece))

/-- The pieces of a parameter that has no value, or is not to be used with it. -/
def fallbackPieces (m : Manner) (name : Bytes) (kind : Fallback) (orEmpty : Bool) (word : Word)
    (quoted : Bool) : Action (List Piece) := do
  let operand : Manner := { m with operand := !quoted }
  match kind with
  | .use | .replace => inner operand (tilde (← get) false word)
  | .assign =>
    let text := piecesText (← inner ⟨false, false⟩ (tilde (← get) false word))
    if !Bytes.isName name then refuseText "" name ": bad variable name"
    assign name text
    return valueStart (← get) name quoted ++ textPieces text quoted
  | .refuse =>
    let text := piecesText (← inner ⟨false, false⟩ word)
    let reason := if !word.isEmpty then text
      else ("parameter not set" ++ if orEmpty then " or null" else "").toList
    refuseText "" (name ++ ": ".toList ++ reason) ""

/-- The pieces of a parameter. -/
def paramPieces (m : Manner) (name : Bytes) (use : ParamUse) (quoted : Bool) :
    Action (List Piece) := do
  let value? := param? (← get) name
  let required : Action (Option ParamValue) := do
    if value?.isNone && (← get).hasOption 'u' then refuseText "" name ": parameter not set"
    return value?
  match use with
  | .value =>
    match ← required with
    | some value => return valuePieces (← get) m name quoted value
    | none => return []
  | .length =>
    let text := ((← required).map (joined (← get))).getD []
    return valueStart (← get) name quoted ++ textPieces (Bytes.ofNat text.length) quoted
  | .trim kind pattern =>
    let value? ← required
    let p := piecesPattern (← inner ⟨false, false⟩ (tilde (← get) false pattern))
    let s ← get
    match value?, keepsApart s m name quoted with
    | none, _ => return []
    | some (.many texts), true => return valuePieces s m name quoted (.many (trimAll kind p texts))
    | some value, _ =>
      return valueStart s name quoted ++ textPieces (trim kind p (joined s value)) quoted
  | .bad => refuseText "Bad substitution" [] ""
  | .fallback kind orEmpty word =>
    let s ← get
    let missing :=
      match value? with
      | none => true
      | some value => orEmpty && (joined s value).isEmpty
    if missing = (kind != .replace) then fallbackPieces inner m name kind orEmpty word quoted
    else
      match value? with
      | some value =>
        return if kind = .replace then valueStart s name quoted
          else valuePieces s m name quoted value
      | none => return if kind = .replace then valueStart s name quoted else []

/-- The pieces of a part of a word. -/
def partPieces (m : Manner) : Part → Action (List Piece)
  | .char c quoted => return [.char c quoted (m.operand && !quoted)]
  | .quotes => return [.quotes]
  | .param name use quoted => paramPieces inner m name use quoted
  | .output body quoted => do return start quoted ++ textPieces (← capture again body) quoted
  | .number expression quoted => do
    let text := piecesText (← inner ⟨false, false⟩ expression)
    return start quoted ++ textPieces (Bytes.ofInt (← calculate text)) quoted
where
  start (quoted : Bool) : List Piece := if quoted then [] else [.value false]

end

/-- Puts a piece before each row of characters of an operand that may be separators. -/
def beginRows : (inRow : Bool) → List (List Piece) → List (List Piece)
  | _, [] => []
  | inRow, [.char c quoted true] :: rest =>
    ((if inRow then [] else [.value false]) ++ [.char c quoted true]) :: beginRows true rest
  | _, ps :: rest => ps :: beginRows false rest

/-- The pieces of a word whose parts are nested at most `n` deep. -/
def pieces (again : Step) : (n : Nat) → Manner → Word → Action (List Piece)
  | 0, _, _ => return []
  | n + 1, m, w => do
    return (beginRows false (← w.mapM (partPieces again (pieces again n) m))).flatten

/-- How deep the parts of words may be nested. -/
def deepestWord : Nat := 1000

/-- The value of a word as one text. -/
def text (again : Step) (w : Word) : Action Bytes := do
  return piecesText (← pieces again deepestWord ⟨false, false⟩ w)

/-- The value of a text in which parameters and commands stand for values. -/
def textWithin (again : Step) (source : Bytes) : Action Bytes := do
  let read := Reader.word (Reader.commands Reader.deepest) Reader.Place.document
  match read.run (Reader.ofText source (← get).nextDocument (← get).aliases) with
  | .ok (w, _) => text again w
  | .error _ => return source

/-- The value of a word as one text, a home directory at its beginning being known. -/
def pathText (again : Step) (w : Word) : Action Bytes := do text again (tilde (← get) false w)

/-- The value of the right side of an assignment. -/
def assignedText (again : Step) (w : Word) : Action Bytes := do
  text again (tildes (← get) (w.length + 1) w)

/-- The pattern that a word stands for. -/
def pattern (again : Step) (w : Word) : Action Pattern := do
  return piecesPattern (← pieces again deepestWord ⟨false, false⟩ (tilde (← get) false w))

/-! ## Fields -/

/-- Fields complete so far, last first, and the field being built, last character first. -/
structure Fields where
  complete : List Pattern
  current : Option Pattern
  /-- Whether blanks have just ended a field; another separator then belongs to them. -/
  afterBlanks : Bool
  /-- Whether fields end only where arguments do. -/
  quoted : Bool
  /-- Whether that was so in the value before. -/
  afterQuoted : Bool

namespace Fields

def empty : Fields := ⟨[], none, false, false, false⟩

/-- Ends a field, even if nothing is in it. -/
def endField (f : Fields) : Fields :=
  { f with complete := (f.current.getD []).reverse :: f.complete, current := none }

def isBlank (c : Char) : Bool := c == ' ' || c == '\t' || c == '\n'

/-- A separator.  Blanks do not count before a field, and any other separator after a field belongs
to the blanks before it; but in a value after quoted arguments, and where those end, every separator
ends a field. -/
def separator (f : Fields) (blank : Bool) : Fields :=
  let gentle := blank && !f.quoted && !f.afterQuoted
  if f.afterBlanks then { f with afterBlanks := blank }
  else if f.current.isNone && gentle then f
  else { f.endField with afterBlanks := gentle }

def add (separators : Bytes) (f : Fields) : Piece → Fields
  | .quotes => { f with current := some (f.current.getD []) }
  | .stop => f.separator true
  | .value quoted => { f with afterBlanks := false, quoted, afterQuoted := f.quoted }
  | .char c quoted splits =>
    if splits && separators.contains c then f.separator (isBlank c)
    else { f with current := some ((c, quoted) :: f.current.getD []), afterBlanks := false }

end Fields

/-- Cuts pieces into fields. -/
def cut (separators : Bytes) (pieces : List Piece) : List Pattern :=
  let f := pieces.foldl (Fields.add separators) .empty
  (if f.current.isSome || f.quoted then f.endField else f).complete.reverse

/-- The path to which a name leads from a directory. -/
def enter (path : Path) (name : Bytes) : Path :=
  if name.isEmpty || name = ['.'] then path
  else if name = ['.', '.'] then path.dropLast
  else path ++ [name]

/-- The names in a directory that a piece of a pattern matches.  A dot at their beginning must be in
the pattern. -/
def matchingNames (s : Shell) (path : Path) (piece : Pattern) : List Bytes :=
  let dotted := piece.text.head? = some '.' || piece.text.take 2 = ['\\', '.']
  let own : List Bytes := if dotted then [['.'], ['.', '.']] else []
  (own ++ s.world.tree.children path).filter fun name =>
    piece.accepts name && (dotted || name.head? ≠ some '.')

/-- The files that continue names of directories by a piece of a pattern. -/
def globPiece (s : Shell) (last : Bool) (piece : Pattern) (found : List (Bytes × Path)) :
    List (Bytes × Path) :=
  let slash : Bytes := if last then [] else ['/']
  let next := found.flatMap fun (text, path) =>
    let names := if piece.isActive then matchingNames s path piece else [piece.text]
    names.map fun name => (text ++ name ++ slash, enter path name)
  next.filter fun f =>
    match s.world.tree.find? f.2 with
    | some node => last || node = .directory
    | none => false

/-- The names of the files that a pattern matches, in order. -/
def glob (s : Shell) (p : Pattern) : List Bytes :=
  let pieces := Pattern.pieces p []
  let start : List (Bytes × Path) :=
    if p.head?.map (·.1) = some '/' then [([], [])] else [([], s.current)]
  let found := (pieces.dropLast.foldl (fun found piece => globPiece s false piece found) start)
  ((globPiece s true (pieces.getLastD []) found).map (·.1)).mergeSort Bytes.le

/-- The texts that a field stands for. -/
def fieldTexts (s : Shell) (p : Pattern) : List Bytes :=
  if s.hasOption 'f' || !p.isActive then [p.text]
  else
    match glob s p with
    | [] => [p.text]
    | names => names

/-- The fields of a word. -/
def fields (again : Step) (w : Word) : Action (List Bytes) := do
  let w := tilde (← get) false w
  let pieces ← pieces again deepestWord ⟨true, false⟩ w
  let s ← get
  return (cut s.separators pieces).flatMap (fieldTexts s)

/-- The fields of words. -/
def allFields (again : Step) (words : List Word) : Action (List Bytes) := do
  return (← words.mapM (fields again)).flatten

end Shell

end FiniteStructures
