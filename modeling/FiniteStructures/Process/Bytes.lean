import FiniteStructures.Text.Utf8

/-!
Texts as programs see them: bytes without a meaning of their own.  A byte is kept as the character
with its code, so that texts in ASCII can be written down and compared as they are.
-/

namespace FiniteStructures

/-- Characters that stand for bytes, each with a code below 256. -/
abbrev Bytes := List Char

namespace Bytes

def ofList (bytes : List UInt8) : Bytes := bytes.map fun b => Char.ofNat b.toNat

def toList (bytes : Bytes) : List UInt8 := bytes.map fun c => c.toNat.toUInt8

/-- The bytes of a text. -/
def ofText (text : String) : Bytes := ofList (Text.encode text)

/-- The decimal numeral of a number. -/
def ofNat (n : Nat) : Bytes := (toString n).toList

def ofInt (n : Int) : Bytes := (toString n).toList

/-- Order by the codes of the bytes. -/
def le (a b : Bytes) : Bool := compare a b != .gt
where
  compare : Bytes → Bytes → Ordering
    | [], [] => .eq
    | [], _ => .lt
    | _, [] => .gt
    | c :: a, d :: b => if c = d then compare a b else if c.toNat < d.toNat then .lt else .gt

/-- The texts one after another, with a text between each two. -/
def join (between : Bytes) (texts : List Bytes) : Bytes := between.intercalate texts

/-- A text between single quotes; single quotes in it stand between double ones.  At most `n`
pieces. -/
def quotePieces : (n : Nat) → Bytes → Bytes
  | 0, _ => []
  | n + 1, text =>
    let plain := text.takeWhile (· != '\'')
    let marks := (text.drop plain.length).takeWhile (· == '\'')
    let rest := text.drop (plain.length + marks.length)
    ['\''] ++ plain ++ ['\''] ++ (if marks.isEmpty then [] else ['"'] ++ marks ++ ['"']) ++
      (if rest.isEmpty then [] else quotePieces n rest)

/-- A text as a word of a script that stands for it. -/
def quote (text : Bytes) : Bytes := quotePieces (text.length + 1) text

/-- A letter, digit or underscore: the characters of names. -/
def isNamePart (c : Char) : Bool := c.isAlpha || c.isDigit || c == '_'

/-- The characters with which names begin. -/
def isNameStart (c : Char) : Bool := c.isAlpha || c == '_'

/-- The text is a name. -/
def isName (text : Bytes) : Bool := text.head?.any isNameStart && text.all isNamePart

/-- A blank of a line of commands or numbers in the encoding of ASCII. -/
def isSpace (c : Char) : Bool := c == ' ' || (9 ≤ c.toNat && c.toNat ≤ 13)

end Bytes

end FiniteStructures
