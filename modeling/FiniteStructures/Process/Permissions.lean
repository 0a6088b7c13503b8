import FiniteStructures.Process.Numeral

/-!
What may be done with a file: its user, its group and all others may read, write and execute it.
A mask says what is not allowed, as three octal digits; changes are also written with letters.
-/

namespace FiniteStructures

/-- The letters of what each class of users may do. -/
structure Permissions where
  user : Bytes
  group : Bytes
  others : Bytes
deriving DecidableEq, Repr

namespace Permissions

def letters : Bytes := ['r', 'w', 'x']

/-- New files can only be written by their users. -/
def usual : Permissions := ⟨letters, ['r', 'x'], ['r', 'x']⟩

/-! ## Masks -/

/-- The letters of those bits of an octal digit that are not set. -/
def ofMaskDigit (digit : Nat) : Bytes :=
  (if digit / 4 % 2 = 0 then ['r'] else []) ++ (if digit / 2 % 2 = 0 then ['w'] else []) ++
    if digit % 2 = 0 then ['x'] else []

/-- The octal digit whose bits stand for the letters that are missing. -/
def maskDigit (given : Bytes) : Nat :=
  (if given.contains 'r' then 0 else 4) + (if given.contains 'w' then 0 else 2) +
    if given.contains 'x' then 0 else 1

/-- What a mask allows. -/
def ofMask (mask : Nat) : Permissions :=
  ⟨ofMaskDigit (mask / 64), ofMaskDigit (mask / 8), ofMaskDigit mask⟩

/-- The mask as a number of four octal digits. -/
def mask (p : Permissions) : Bytes :=
  '0' :: [p.user, p.group, p.others].flatMap fun given => Bytes.ofNat (maskDigit given)

/-- The permissions by classes of users. -/
def render (p : Permissions) : Bytes :=
  "u=".toList ++ p.user ++ ",g=".toList ++ p.group ++ ",o=".toList ++ p.others

/-! ## Changes -/

/-- What a letter allows: itself, or what a class of users may do.  With `X`, files can be executed
if somebody can do so already. -/
def granted (p : Permissions) (letter : Char) : Bytes :=
  match letter with
  | 'u' => p.user
  | 'g' => p.group
  | 'o' => p.others
  | 'X' => if [p.user, p.group, p.others].any (·.contains 'x') then ['x'] else []
  | c => [c]

/-- Changes what a class of users may do. -/
def applied (operator : Char) (given old : Bytes) : Bytes :=
  letters.filter fun c =>
    if operator = '+' then old.contains c || given.contains c
    else if operator = '-' then old.contains c && !given.contains c
    else given.contains c

/-- Changes what classes of users may do; no class means all of them. -/
def apply (p : Permissions) (classes : Bytes) (operator : Char) (text : Bytes) : Permissions :=
  let given := text.flatMap p.granted
  let change (name : Char) (old : Bytes) : Bytes :=
    if classes.isEmpty || classes.contains 'a' || classes.contains name then
      applied operator given old
    else old
  ⟨change 'u' p.user, change 'g' p.group, change 'o' p.others⟩

def isOperator (c : Char) : Bool := ['+', '-', '='].contains c

/-- Applies operators with letters after each of them, and gives the text that follows. -/
def applyAll (classes : Bytes) : (n : Nat) → Permissions → Bytes → Permissions × Bytes
  | 0, p, text => (p, text)
  | n + 1, p, text =>
    match text with
    | c :: rest =>
      if isOperator c then
        let given := rest.takeWhile "rwxXsugo".toList.contains
        applyAll classes n (p.apply classes c given) (rest.drop given.length)
      else (p, text)
    | [] => (p, [])

/-- Permissions changed by clauses with commas between them, at most `n`. -/
def changeUpTo : (n : Nat) → Permissions → Bytes → Option Permissions
  | 0, _, _ => none
  | n + 1, p, text =>
    if text.isEmpty then some p
    else
      let classes := text.takeWhile "ugoa".toList.contains
      let rest := text.drop classes.length
      if !rest.head?.any isOperator then none
      else
        match applyAll classes rest.length p rest with
        | (p, []) => some p
        | (p, ',' :: rest) => changeUpTo n p rest
        | _ => none

/-- Permissions changed by a text with letters. -/
def change? (p : Permissions) (text : Bytes) : Option Permissions :=
  changeUpTo (text.length + 1) p text

end Permissions

end FiniteStructures
