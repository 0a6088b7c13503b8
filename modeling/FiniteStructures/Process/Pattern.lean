import FiniteStructures.Process.Bytes

/-!
Patterns for texts.  In a pattern each character is marked as quoted or not.  Without quotes a
star stands for any text, a question mark for any character, brackets for one character of a set,
and a backslash takes the meaning away from the character after it.
-/

namespace FiniteStructures

/-- Characters, each with whether it is quoted. -/
abbrev Pattern := List (Char × Bool)

namespace Pattern

/-- The text of a pattern without the marks. -/
def text (p : Pattern) : Bytes := p.map (·.1)

/-- The named sets of characters. -/
def named? (name : Bytes) (c : Char) : Option Bool :=
  let classes : List (String × Bool) :=
    [("alpha", c.isAlpha), ("digit", c.isDigit), ("alnum", c.isAlphanum), ("upper", c.isUpper),
      ("lower", c.isLower), ("space", Bytes.isSpace c), ("blank", c == ' ' || c == '\t'),
      ("punct", 33 ≤ c.toNat && c.toNat ≤ 126 && !c.isAlphanum),
      ("print", 32 ≤ c.toNat && c.toNat ≤ 126), ("graph", 33 ≤ c.toNat && c.toNat ≤ 126),
      ("cntrl", c.toNat < 32 || c.toNat == 127),
      ("xdigit", c.isDigit || ('a' ≤ c && c ≤ 'f') || ('A' ≤ c && c ≤ 'F'))]
  classes.lookup (String.ofList name)

/-- A character of a set without special meaning, and what follows it. -/
def member? : Pattern → Option (Char × Pattern)
  | ('\\', false) :: (c, _) :: rest => some (c, rest)
  | (c, _) :: rest => some (c, rest)
  | [] => none

/-- Looks for a character in a set up to the closing bracket, at most `n` members on.  Gives
whether it was found and what follows the set; nothing if the set is not closed. -/
def search (c : Char) : (n : Nat) → (first found : Bool) → Pattern → Option (Bool × Pattern)
  | 0, _, _, _ => none
  | n + 1, first, found, p =>
    match p with
    | [] => none
    | (']', false) :: rest =>
      if first then single n found p else some (found, rest)
    | ('[', false) :: (':', false) :: rest =>
      let name := text (rest.takeWhile fun d => d.1 != ':')
      match rest.drop name.length with
      | (':', _) :: (']', _) :: after =>
        match named? name c with
        | some b => search c n false (found || b) after
        | none => single n found p
      | _ => single n found p
    | _ => single n found p
where
  /-- One member, or a range of members. -/
  single (n : Nat) (found : Bool) (p : Pattern) : Option (Bool × Pattern) :=
    match member? p with
    | none => none
    | some (low, ('-', false) :: (']', false) :: rest) =>
      search c n false (found || c == low) (('-', false) :: (']', false) :: rest)
    | some (low, ('-', false) :: rest) =>
      match member? rest with
      | some (high, after) => search c n false (found || (low ≤ c && c ≤ high)) after
      | none => none
    | some (low, rest) => search c n false (found || c == low) rest

/-- Whether a character is in the set that begins a pattern, after the opening bracket, and what
follows the set. -/
def set? (p : Pattern) (c : Char) : Option (Bool × Pattern) :=
  match p with
  | (d, false) :: rest =>
    if d == '!' then (search c p.length true false rest).map fun r => (!r.1, r.2)
    else search c (p.length + 1) true false p
  | _ => search c (p.length + 1) true false p

/-- A text matches a pattern; `n` bounds the length of the pattern. -/
def matchesUpTo : (n : Nat) → Pattern → Bytes → Bool
  | 0, _, _ => false
  | _ + 1, [], text => text.isEmpty
  | n + 1, ('*', false) :: rest, text =>
    (List.range (text.length + 1)).any fun k => matchesUpTo n rest (text.drop k)
  | n + 1, ('?', false) :: rest, text => !text.isEmpty && matchesUpTo n rest text.tail
  | n + 1, ('[', false) :: rest, c :: text =>
    match set? rest c with
    | some (found, after) => found && matchesUpTo n after text
    | none => c == '[' && matchesUpTo n rest text
  | n + 1, ('\\', false) :: (c, _) :: rest, text =>
    text.head? = some c && matchesUpTo n rest text.tail
  | n + 1, (c, _) :: rest, text => text.head? = some c && matchesUpTo n rest text.tail

/-- A text matches a pattern. -/
def accepts (p : Pattern) (text : Bytes) : Bool := matchesUpTo (p.length + 1) p text

/-- The pattern has a character with a meaning of its own. -/
def isActive (p : Pattern) : Bool :=
  p.any fun (c, quoted) => !quoted && (c == '*' || c == '?' || c == '[')

/-- Cuts a pattern at its slashes. -/
def pieces : Pattern → Pattern → List Pattern
  | [], piece => [piece.reverse]
  | (c, quoted) :: rest, piece =>
    if c == '/' then piece.reverse :: pieces rest [] else pieces rest ((c, quoted) :: piece)

end Pattern

end FiniteStructures
