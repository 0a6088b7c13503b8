import FiniteStructures.Process.Fraction

/-!
Escapes and formats.  An escape is a backslash and a letter or digits that together stand for a
character.  A format is a text with fields, each a percent sign and a letter with options between
them, that are filled with arguments; a format is used again as long as there are arguments left.
-/

namespace FiniteStructures

namespace Format

/-! ## Escapes -/

def isOctal (c : Char) : Bool := '0' ≤ c && c ≤ '7'

/-- The characters that letters after a backslash stand for. -/
def control? : Char → Option Char
  | 'a' => some (Char.ofNat 7)
  | 'b' => some (Char.ofNat 8)
  | 'e' => some (Char.ofNat 27)
  | 'f' => some (Char.ofNat 12)
  | 'n' => some '\n'
  | 'r' => some '\r'
  | 't' => some '\t'
  | 'v' => some (Char.ofNat 11)
  | '\\' => some '\\'
  | _ => none

/-- The character of an escape, from the text after the backslash, and what follows it.  A
backslash before any other character stands for itself. -/
def escape (text : Bytes) : Char × Bytes :=
  match text with
  | [] => ('\\', [])
  | c :: rest =>
    let digits := (text.take 3).takeWhile isOctal
    if !digits.isEmpty then
      (Char.ofNat (Numeral.ofDigits 8 digits % 256), text.drop digits.length)
    else
      match control? c with
      | some d => (d, rest)
      | none => ('\\', text)

/-- Replaces the escapes of an argument, at most `n` characters.  Octal codes may have a zero
before them, and `\c` ends the text; tells whether it was there. -/
def unescape : (n : Nat) → Bytes → Bytes × Bool
  | 0, _ => ([], false)
  | n + 1, text =>
    match text with
    | [] => ([], false)
    | '\\' :: 'c' :: _ => ([], true)
    | '\\' :: rest =>
      let rest :=
        match rest with
        | '0' :: d :: more => if isOctal d then d :: more else rest
        | _ => rest
      let (c, rest) := escape rest
      let (text, ended) := unescape n rest
      (c :: text, ended)
    | c :: rest =>
      let (text, ended) := unescape n rest
      (c :: text, ended)

/-- Replaces the escapes of an argument. -/
def unescapeAll (text : Bytes) : Bytes × Bool := unescape (text.length + 1) text

/-! ## Fields -/

/-- A field: its options, and the letter that says what it shows. -/
structure Field where
  flags : Bytes
  width : Nat
  precision : Option Nat
  letter : Char
deriving DecidableEq, Repr

namespace Field

def has (f : Field) (flag : Char) : Bool := f.flags.contains flag

/-- Fills up to the width: with zeros after the sign where `zeros`, else with blanks. -/
def pad (f : Field) (zeros : Bool) (sign body : Bytes) : Bytes :=
  let missing := f.width - (sign.length + body.length)
  if f.has '-' then sign ++ body ++ List.replicate missing ' '
  else if zeros && f.has '0' then sign ++ List.replicate missing '0' ++ body
  else List.replicate missing ' ' ++ sign ++ body

/-- A text, cut to the precision. -/
def text (f : Field) (s : Bytes) : Bytes := f.pad false [] (s.take (f.precision.getD s.length))

/-- The sign before a signed number. -/
def sign (f : Field) (negative : Bool) : Bytes :=
  if negative then ['-'] else if f.has '+' then ['+'] else if f.has ' ' then [' '] else []

/-- Digits with zeros before them up to the precision; the precision 0 shows no zero. -/
def digits (f : Field) (ds : Bytes) : Bytes :=
  match f.precision with
  | none => ds
  | some p => if p = 0 && ds = ['0'] then [] else List.replicate (p - ds.length) '0' ++ ds

/-- A signed integer. -/
def integer (f : Field) (n : Int) : Bytes :=
  f.pad f.precision.isNone (f.sign (n < 0)) (f.digits (Bytes.ofNat n.natAbs))

/-- An integer without sign, in the base that the letter says. -/
def natural (f : Field) (n : Nat) : Bytes :=
  match f.letter with
  | 'o' =>
    let ds := f.digits (Numeral.render 8 n)
    f.pad f.precision.isNone [] (if f.has '#' && ds.head? ≠ some '0' then '0' :: ds else ds)
  | 'u' => f.pad f.precision.isNone [] (f.digits (Numeral.render 10 n))
  | letter =>
    let before : Bytes := if f.has '#' && n ≠ 0 then ['0', 'x'] else []
    let shown := f.pad f.precision.isNone before (f.digits (Numeral.render 16 n))
    if letter == 'X' then shown.map Char.toUpper else shown

/-- A number with a fraction. -/
def fraction (f : Field) (x : Fraction) : Bytes × Bytes :=
  let places := f.precision.getD 6
  let point := f.has '#'
  match f.letter.toLower with
  | 'f' => ([], x.fixed places point)
  | 'e' => ([], x.scientific places point)
  | 'a' => (['0', 'x'], x.hexadecimal f.precision point)
  | _ => ([], x.general places point)

/-- A number with a fraction, or one of the values beyond, which are not filled up with zeros. -/
def quantity (f : Field) (x : Quantity) : Bytes :=
  let cased (text : Bytes) : Bytes := if f.letter.isUpper then text.map Char.toUpper else text
  match x with
  | .finite x =>
    let (before, body) := f.fraction x
    f.pad true (f.sign x.negative ++ cased before) (cased body)
  | .infinite negative => f.pad false (f.sign negative) (cased "inf".toList)
  | .undefined negative => f.pad false (f.sign negative) (cased "nan".toList)

end Field

/-! ## Filling -/

/-- A format being filled. -/
structure Filling where
  /-- The arguments left. -/
  args : List Bytes
  /-- What is written, last character first. -/
  written : Bytes
  /-- Complaints about arguments, last one first. -/
  complaints : List Bytes

/-- How filling ended. -/
inductive Ending where
  /-- The end of the format was reached. -/
  | complete
  /-- An argument asked for an end. -/
  | ended
  | refused (why : Bytes)
deriving DecidableEq, Repr

abbrev Fill := StateM Filling

def put (text : Bytes) : Fill Unit :=
  modify fun s => { s with written := text.reverse ++ s.written }

def complain (text : Bytes) : Fill Unit :=
  modify fun s => { s with complaints := text :: s.complaints }

/-- The next argument. -/
def next? : Fill (Option Bytes) := do
  let arg := (← get).args.head?
  modify fun s => { s with args := s.args.tail }
  return arg

/-- The value of a numeric argument: what `read` makes of it.  A quote is followed by a character
whose code is meant. -/
def numeric {α : Type} (default : α) (ofCode : Nat → α) (read : Bytes → Option (α × Bytes × Bool)) :
    Fill α := do
  match ← next? with
  | none => return default
  | some [] => return default
  | some (c :: rest) =>
    if c == '"' || c == '\'' then return ofCode ((rest.headD (Char.ofNat 0)).toNat)
    let text := c :: rest
    match read text with
    | none =>
      complain (text ++ ": expected numeric value".toList)
      return default
    | some (value, left, fits) =>
      if !left.isEmpty then complain (text ++ ": not completely converted".toList)
      else if !fits then complain (text ++ ": Numerical result out of range".toList)
      return value

def signed : Fill Int :=
  numeric 0 Int.ofNat fun text => (Numeral.read? text).map fun n => (n.signed, n.rest, n.fitsSigned)

def natural : Fill Nat :=
  numeric 0 id fun text => (Numeral.read? text).map fun n => (n.natural, n.rest, n.fitsNatural)

def quantity : Fill Quantity :=
  let whole (n : Nat) : Quantity := .finite ⟨false, n, 1⟩
  numeric (whole 0) whole fun text =>
    (Fraction.read? text).map fun ((value, fits), rest) => (value, rest, fits)

/-- A width or precision: digits, or a star that takes an argument. -/
def measure (format : Bytes) : Fill (Option Int × Bytes) := do
  match format with
  | '*' :: rest => return (some (← signed), rest)
  | _ =>
    let digits := format.takeWhile Char.isDigit
    return (if digits.isEmpty then none else some (Numeral.ofDigits 10 digits),
      format.drop digits.length)

/-- Shows an argument in a field; `directive` is the text of the field. -/
def show? (f : Field) (directive : Bytes) : Fill Ending := do
  match f.letter with
  | 's' => put (f.text ((← next?).getD []))
  | 'b' =>
    let (text, ended) := unescapeAll ((← next?).getD [])
    put (f.text text)
    if ended then return .ended
  | 'c' => put (f.pad false [] [((← next?).getD []).headD (Char.ofNat 0)])
  | letter =>
    if "di".toList.contains letter then put (f.integer (← signed))
    else if "ouxX".toList.contains letter then put (f.natural (← natural))
    else if "aAeEfFgG".toList.contains letter then put (f.quantity (← quantity))
    else return .refused (directive ++ ": invalid directive".toList)
  return .complete

/-- Reads a field after its percent sign and shows an argument in it. -/
def field (format : Bytes) : Fill (Ending × Bytes) := do
  let flags := format.takeWhile "#-+ 0".toList.contains
  let (width, rest) ← measure (format.drop flags.length)
  let (precision, rest) ←
    match rest with
    | '.' :: rest => do
      let (p, rest) ← measure rest
      pure ((if p.any (· < 0) then none else some (p.getD 0)), rest)
    | rest => pure (none, rest)
  match rest with
  | [] => return (.refused "missing format character".toList, [])
  | letter :: after =>
    let flags := if width.any (· < 0) then '-' :: flags else flags
    let f : Field := ⟨flags, (width.getD 0).natAbs, precision.map Int.toNat, letter⟩
    let directive := '%' :: format.take (format.length - after.length)
    return (← show? f directive, after)

/-- Fills a format once, at most `n` parts of it. -/
def once : (n : Nat) → Bytes → Fill Ending
  | 0, _ => return .complete
  | n + 1, format => do
    match format with
    | [] => return .complete
    | '\\' :: rest =>
      let (c, rest) := escape rest
      put [c]
      once n rest
    | '%' :: '%' :: rest =>
      put ['%']
      once n rest
    | '%' :: rest =>
      match ← field rest with
      | (.complete, rest) => once n rest
      | (outcome, _) => return outcome
    | c :: rest =>
      put [c]
      once n rest

/-- Fills a format as often as there are arguments for, and at least once; at most `n` times. -/
def fill (format : Bytes) : (n : Nat) → Fill Ending
  | 0 => return .complete
  | n + 1 => do
    let before := (← get).args.length
    match ← once (format.length + 1) format with
    | .complete =>
      let left := (← get).args.length
      if left = 0 || left = before then return .complete else fill format n
    | outcome => return outcome

/-- What a format gives with arguments. -/
def run (format : Bytes) (args : List Bytes) : Ending × Filling :=
  (fill format (args.length + 1)).run ⟨args, [], []⟩

end Format

end FiniteStructures
