/-!
Characters from bytes in UTF-8.  The forgiving reading puts the replacement character for every
longest piece that begins a character but does not complete one; the strict reading refuses such
pieces.
-/

namespace FiniteStructures

namespace Text

/-- What the next bytes are: a character, or a number of bytes that are none, with the rest. -/
inductive Utf8Step where
  | character (c : Char) (rest : List UInt8)
  | invalid (rest : List UInt8)
deriving Repr

/-- The number of continuation bytes and the range of the first of them, by the lead byte. -/
def continuation? (lead : UInt8) : Option (Nat × UInt8 × UInt8) :=
  if 0xC2 ≤ lead ∧ lead ≤ 0xDF then some (1, 0x80, 0xBF)
  else if lead = 0xE0 then some (2, 0xA0, 0xBF)
  else if lead = 0xED then some (2, 0x80, 0x9F)
  else if 0xE1 ≤ lead ∧ lead ≤ 0xEF then some (2, 0x80, 0xBF)
  else if lead = 0xF0 then some (3, 0x90, 0xBF)
  else if lead = 0xF4 then some (3, 0x80, 0x8F)
  else if 0xF1 ≤ lead ∧ lead ≤ 0xF3 then some (3, 0x80, 0xBF)
  else none

/-- Reads `n` continuation bytes, the first of them in the given range. -/
def continuationBytes : (n : Nat) → (low high : UInt8) → (code : Nat) → List UInt8 → Utf8Step
  | 0, _, _, code, rest => .character (Char.ofNat code) rest
  | _ + 1, _, _, _, [] => .invalid []
  | n + 1, low, high, code, b :: rest =>
    if low ≤ b ∧ b ≤ high then
      continuationBytes n 0x80 0xBF (code * 64 + (b.toNat - 0x80)) rest
    else .invalid (b :: rest)

/-- The payload bits of a lead byte with `n` continuation bytes. -/
def leadBits (lead : UInt8) (n : Nat) : Nat := lead.toNat % Nat.pow 2 (6 - n)

/-- The next character, or the next piece that is none. -/
def utf8Step (b : UInt8) (rest : List UInt8) : Utf8Step :=
  if b < 0x80 then .character (Char.ofNat b.toNat) rest
  else
    match continuation? b with
    | none => .invalid rest
    | some (n, low, high) => continuationBytes n low high (leadBits b n) rest

/-- Reads at most `n` characters, every step using up a byte; those read are kept last first. -/
def decodeSteps : (n : Nat) → List UInt8 → (done : List (Option Char)) → List (Option Char)
  | 0, _, done => done.reverse
  | _ + 1, [], done => done.reverse
  | n + 1, b :: rest, done =>
    match utf8Step b rest with
    | .character c rest => decodeSteps n rest (some c :: done)
    | .invalid rest => decodeSteps n rest (none :: done)

/-- The characters of the bytes, with no character for each piece that is none. -/
def decode (bytes : List UInt8) : List (Option Char) := decodeSteps bytes.length bytes []

/-- The text of the bytes, with replacement characters. -/
def decodeForgiving (bytes : List UInt8) : List Char :=
  (decode bytes).map fun c => c.getD (Char.ofNat 0xFFFD)

/-- The text of the bytes, if they are valid. -/
def decodeStrict? (bytes : List UInt8) : Option (List Char) := (decode bytes).mapM id

/-- The bytes of a text. -/
def encode (text : String) : List UInt8 := text.toUTF8.toList

end Text

end FiniteStructures
