import FiniteStructures.Process.Numeral

/-!
Numbers with a fraction.  A text in decimal or hexadecimal notation is read as the nearest binary
fraction of double width, or as one of the values beyond; what is written is that binary fraction,
rounded to a number of places, a tie going to the even neighbour.
-/

namespace FiniteStructures

/-- A number that is not negative, as a quotient, with the sign that is written before it.  The
denominator is a power of two. -/
structure Fraction where
  negative : Bool
  numerator : Nat
  denominator : Nat
deriving DecidableEq, Repr

/-- What a text about a number can mean. -/
inductive Quantity where
  | finite (x : Fraction)
  | infinite (negative : Bool)
  | undefined (negative : Bool)
deriving DecidableEq, Repr

namespace Fraction

/-- The nearest natural number, a tie going to the even one. -/
def round (numerator denominator : Nat) : Nat :=
  let q := numerator / denominator
  let twice := 2 * (numerator % denominator)
  if denominator < twice ∨ (twice = denominator ∧ q % 2 = 1) then q + 1 else q

/-- A quotient multiplied by a power of two. -/
def shifted (numerator denominator : Nat) (shift : Int) : Nat × Nat :=
  if 0 ≤ shift then (numerator * Nat.pow 2 shift.toNat, denominator)
  else (numerator, denominator * Nat.pow 2 (-shift).toNat)

/-- The greatest power of two that is not above a quotient. -/
def log2 (numerator denominator : Nat) : Int :=
  let guess : Int := Nat.log2 numerator - Nat.log2 denominator
  let (n, d) := shifted numerator denominator (-guess)
  if n < d then guess - 1 else guess

/-- The least power of two in binary fractions, and the least one with all digits. -/
def leastExponent : Int := -1074

def leastNormal : Int := -1022

/-- The binary fraction nearest to a quotient; tells whether the quotient is in the range in which
that is near enough. -/
def nearest (negative : Bool) (numerator denominator : Nat) : Quantity × Bool :=
  if numerator = 0 then (.finite ⟨negative, 0, 1⟩, true)
  else
    let top := log2 numerator denominator
    let unit := max (top - 52) leastExponent
    let (n, d) := shifted numerator denominator (-unit)
    let digits := round n d
    let (value, one) := shifted digits 1 unit
    if Nat.pow 2 1024 * one ≤ value then (.infinite negative, false)
    else (.finite ⟨negative, value, one⟩, leastNormal ≤ top || digits * d = n)

/-! ## Reading -/

/-- Powers beyond this one make every numeral of usual length zero or infinite. -/
def exponentLimit : Int := 20000

/-- The exponent after a letter, and what follows it. -/
def exponent (letter : Char) (text : Bytes) : Int × Bytes :=
  match text with
  | e :: rest =>
    let (negative, digits) : Bool × Bytes :=
      match rest with
      | '-' :: rest => (true, rest)
      | '+' :: rest => (false, rest)
      | rest => (false, rest)
    let ds := digits.takeWhile Char.isDigit
    if e.toLower == letter && !ds.isEmpty then
      let n : Int := min exponentLimit (Numeral.ofDigits 10 ds)
      (if negative then -n else n, digits.drop ds.length)
    else (0, text)
  | [] => (0, text)

/-- Reads the digits of a base, the point and the exponent of a number; each place stands for
`perPlace` in the exponent, whose base is `power`. -/
def digits? (negative : Bool) (base power perPlace : Nat) (letter : Char) (text : Bytes) :
    Option ((Quantity × Bool) × Bytes) :=
  let whole := Numeral.digits base text
  let rest := text.drop whole.length
  let places := if rest.head? = some '.' then Numeral.digits base rest.tail else []
  if whole.isEmpty && places.isEmpty then none
  else
    let rest := if rest.head? = some '.' then rest.drop (places.length + 1) else rest
    let (e, rest) := exponent letter rest
    let scale : Int := e - perPlace * places.length
    let n := Numeral.ofDigits base (whole ++ places)
    let value := if 0 ≤ scale then nearest negative (n * Nat.pow power scale.toNat) 1
      else nearest negative n (Nat.pow power (-scale).toNat)
    some (value, rest)

/-- A text begins with a word in any case. -/
def startsWith (word : String) (text : Bytes) : Bool :=
  word.toList.isPrefixOf (text.map Char.toLower)

/-- What follows the word for no number: it may have a remark in parentheses. -/
def afterRemark (text : Bytes) : Bytes :=
  match text with
  | '(' :: rest =>
    match rest.dropWhile Bytes.isNamePart with
    | ')' :: rest => rest
    | _ => text
  | _ => text

/-- Reads a number without its sign. -/
def unsigned? (negative : Bool) (text : Bytes) : Option ((Quantity × Bool) × Bytes) :=
  let infinite (n : Nat) : Option ((Quantity × Bool) × Bytes) :=
    some ((.infinite negative, true), text.drop n)
  if startsWith "infinity" text then infinite 8
  else if startsWith "inf" text then infinite 3
  else if startsWith "nan" text then
    some ((.undefined negative, true), afterRemark (text.drop 3))
  else
    match if startsWith "0x" text then digits? negative 16 2 4 'p' (text.drop 2) else none with
    | some read => some read
    | none => digits? negative 10 10 1 'e' text

/-- Reads a number at the beginning of a text; tells whether it is in the range of numbers, and what
follows it. -/
def read? (text : Bytes) : Option ((Quantity × Bool) × Bytes) :=
  match text.dropWhile Bytes.isSpace with
  | '-' :: rest => unsigned? true rest
  | '+' :: rest => unsigned? false rest
  | rest => unsigned? false rest

/-! ## Writing -/

/-- A number of digits with a point before the last `places` of them. -/
def withPoint (n places : Nat) (point : Bool) : Bytes :=
  let digits := Bytes.ofNat n
  let digits := List.replicate (places + 1 - digits.length) '0' ++ digits
  let split := digits.length - places
  digits.take split ++ (if 0 < places || point then ['.'] else []) ++ digits.drop split

/-- The magnitude with a number of places after the point. -/
def fixed (x : Fraction) (places : Nat) (point : Bool) : Bytes :=
  withPoint (round (x.numerator * Nat.pow 10 places) x.denominator) places point

/-- How often a number below one must be multiplied by ten until it is one or more. -/
def leadingZeros (denominator : Nat) : (n : Nat) → (numerator : Nat) → Nat
  | 0, _ => 0
  | n + 1, numerator =>
    if denominator ≤ numerator then 0 else leadingZeros denominator n (10 * numerator) + 1

/-- Digits and exponent in the notation with one digit before the point. -/
def scale (x : Fraction) (places : Nat) : Nat × Int :=
  if x.numerator = 0 then (0, 0)
  else
    let e : Int :=
      if x.denominator ≤ x.numerator then (Bytes.ofNat (x.numerator / x.denominator)).length - 1
      else -(leadingZeros x.denominator 400 x.numerator)
    let shift : Int := places - e
    let n :=
      if 0 ≤ shift then round (x.numerator * Nat.pow 10 shift.toNat) x.denominator
      else round x.numerator (x.denominator * Nat.pow 10 (-shift).toNat)
    if n = Nat.pow 10 (places + 1) then (n / 10, e + 1) else (n, e)

/-- An exponent with its sign and two digits or more. -/
def exponentText (e : Int) : Bytes :=
  let digits := Bytes.ofNat e.natAbs
  'e' :: (if e < 0 then '-' else '+') :: (List.replicate (2 - digits.length) '0' ++ digits)

/-- The magnitude in the notation with one digit before the point. -/
def scientific (x : Fraction) (places : Nat) (point : Bool) : Bytes :=
  let (n, e) := x.scale places
  withPoint n places point ++ exponentText e

/-- Without the zeros at the end of the places, and without a point that has none after it. -/
def stripZeros (text : Bytes) : Bytes :=
  let mantissa := text.takeWhile (· != 'e')
  let stripped :=
    if mantissa.contains '.' then
      let kept := mantissa.reverse.dropWhile (· == '0')
      (if kept.head? = some '.' then kept.tail else kept).reverse
    else mantissa
  stripped ++ text.drop mantissa.length

/-- The hexadecimal digits of a number, at least so many. -/
def hexDigits (n places : Nat) : Bytes :=
  let digits := Nat.toDigits 16 n
  List.replicate (places - digits.length) '0' ++ digits

/-- The magnitude in hexadecimal notation with one digit before the point, without the `0x` before
it; as many places as are needed if their number is not given. -/
def hexadecimal (x : Fraction) (places : Option Nat) (point : Bool) : Bytes :=
  let e := if x.numerator = 0 then 0 else max leastNormal (log2 x.numerator x.denominator)
  let (n, d) := shifted x.numerator x.denominator (52 - e)
  let count := places.getD 13
  let mantissa := round (n * Nat.pow 16 count) (d * Nat.pow 16 13)
  let unit := Nat.pow 16 count
  let after := if count = 0 then [] else hexDigits (mantissa % unit) count
  let after := if places.isNone then (after.reverse.dropWhile (· == '0')).reverse else after
  Nat.toDigits 16 (mantissa / unit) ++ (if !after.isEmpty || point then ['.'] else []) ++ after ++
    'p' :: (if e < 0 then '-' else '+') :: Bytes.ofNat e.natAbs

/-- The shorter of the two notations with a number of digits that count. -/
def general (x : Fraction) (digits : Nat) (point : Bool) : Bytes :=
  let digits := max 1 digits
  let (_, e) := x.scale (digits - 1)
  let text :=
    if -4 ≤ e ∧ e < digits then x.fixed (digits - 1 - e).toNat point
    else x.scientific (digits - 1) point
  if point then text else stripZeros text

end Fraction

end FiniteStructures
