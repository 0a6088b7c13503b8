import FiniteStructures.Process.Bytes

/-!
Numerals in the notation of the language C: an optional sign, then digits that are hexadecimal
after `0x`, octal after another zero, and else decimal.  Blanks may stand before the sign.
Integers have 64 bits.
-/

namespace FiniteStructures

/-- A number read from the beginning of a text. -/
structure Numeral where
  negative : Bool
  magnitude : Nat
  /-- The text after the numeral. -/
  rest : Bytes
deriving DecidableEq, Repr

namespace Numeral

/-- The number of different integers, 2⁶⁴. -/
def modulus : Nat := 18446744073709551616

/-- The largest signed integer. -/
def largest : Int := 9223372036854775807

/-- The least signed integer. -/
def least : Int := -9223372036854775808

/-- The signed integer of 64 bits with the same remainder. -/
def wrap (n : Int) : Int := Int.bmod n modulus

/-- The value of a digit, of letters too. -/
def digitValue (c : Char) : Nat :=
  if c.isDigit then c.toNat - '0'.toNat
  else if 'a' ≤ c && c ≤ 'z' then c.toNat - 'a'.toNat + 10
  else if 'A' ≤ c && c ≤ 'Z' then c.toNat - 'A'.toNat + 10
  else 36

/-- The number of a row of digits. -/
def ofDigits (base : Nat) (digits : Bytes) : Nat :=
  digits.foldl (fun n c => base * n + digitValue c) 0

/-- The digits of a base at the beginning of a text. -/
def digits (base : Nat) (text : Bytes) : Bytes := text.takeWhile (digitValue · < base)

/-- Reads the digits of a numeral without its sign. -/
def unsigned? (negative : Bool) (text : Bytes) : Option Numeral :=
  let take (base : Nat) (text : Bytes) : Option Numeral :=
    let ds := digits base text
    if ds.isEmpty then none else some ⟨negative, ofDigits base ds, text.drop ds.length⟩
  match text with
  | '0' :: x :: rest =>
    if (x == 'x' || x == 'X') && !(digits 16 rest).isEmpty then take 16 rest else take 8 text
  | '0' :: _ => take 8 text
  | _ => take 10 text

/-- Reads a numeral at the beginning of a text. -/
def read? (text : Bytes) : Option Numeral :=
  match text.dropWhile Bytes.isSpace with
  | '-' :: rest => unsigned? true rest
  | '+' :: rest => unsigned? false rest
  | rest => unsigned? false rest

/-- The number, whatever its size. -/
def value (n : Numeral) : Int := if n.negative then -n.magnitude else n.magnitude

/-- The nearest signed integer. -/
def signed (n : Numeral) : Int := max least (min largest n.value)

/-- A signed integer has the value. -/
def fitsSigned (n : Numeral) : Bool := least ≤ n.value && n.value ≤ largest

/-- The value as an integer without sign: negative numbers wrap around, others end at the
largest one. -/
def natural (n : Numeral) : Nat :=
  if modulus ≤ n.magnitude then modulus - 1
  else if n.negative then (modulus - n.magnitude) % modulus
  else n.magnitude

/-- An integer without sign has the magnitude. -/
def fitsNatural (n : Numeral) : Bool := n.magnitude < modulus

/-- The digits of a number in a base of at most 16. -/
def render (base n : Nat) : Bytes := Nat.toDigits base n

end Numeral

end FiniteStructures
