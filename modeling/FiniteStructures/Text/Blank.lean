/-!
Blanks, lines and words of a text.  The blanks are the characters with the property White_Space
of the Unicode standard.
-/

namespace FiniteStructures

namespace Text

/-- First and last members of the runs of blanks. -/
def blankRanges : List (Nat × Nat) :=
  [(0x09, 0x0D), (0x20, 0x20), (0x85, 0x85), (0xA0, 0xA0), (0x1680, 0x1680), (0x2000, 0x200A),
    (0x2028, 0x2029), (0x202F, 0x202F), (0x205F, 0x205F), (0x3000, 0x3000)]

/-- The character is a blank. -/
def isBlank (c : Char) : Bool := blankRanges.any fun r => r.1 ≤ c.toNat && c.toNat ≤ r.2

/-- The text without blanks at its ends. -/
def trim (text : List Char) : List Char :=
  ((text.dropWhile isBlank).reverse.dropWhile isBlank).reverse

/-- The members of a list between those that separate; a list without any is one piece. -/
def pieces (separates : Char → Bool) (text : List Char) : List (List Char) :=
  go text []
where
  /-- The current piece is kept last character first. -/
  go : List Char → List Char → List (List Char)
    | [], piece => [piece.reverse]
    | c :: rest, piece =>
      if separates c then piece.reverse :: go rest [] else go rest (c :: piece)

/-- The words between the blanks. -/
def words (text : List Char) : List (List Char) := (pieces isBlank text).filter (!·.isEmpty)

/-- A line without the carriage return that may stand before the line feed. -/
def endLine (line : List Char) : List Char :=
  if line.getLast? = some '\r' then line.dropLast else line

/-- The lines of a text.  The last line needs no line feed, and a carriage return belongs to the
line end only before a line feed. -/
def lines (text : List Char) : List (List Char) :=
  let all := pieces (· == '\n') text
  let last := all.getLastD []
  all.dropLast.map endLine ++ if last.isEmpty then [] else [last]

/-- The text after a given beginning. -/
def after? (beginning text : List Char) : Option (List Char) :=
  if beginning.isPrefixOf text then some (text.drop beginning.length) else none

end Text

end FiniteStructures
