import FiniteStructures.Process.Numeral

/-!
Arithmetic of expressions with integers of 64 bits.  The operators are those of the language C
without increments and commas; assignments take effect as soon as they are evaluated, and of a
choice or a connective only the part that decides is evaluated.

    assignment    name = …, or a choice
    choice        either ? … : …
    either, both  || and &&, which group to the right
    climb         the other operators with two operands, which group to the left
    primary       a number, a name, a sign and a primary, or parentheses
-/

namespace FiniteStructures

namespace Arithmetic

inductive Token where
  | number (n : Int)
  | name (name : Bytes)
  | op (text : String)
  | bad
deriving DecidableEq, Repr

/-- Why an expression has no value. -/
inductive Fault where
  | malformed (what : String)
  | notANumber (text : Bytes)
deriving DecidableEq, Repr

/-- Operators, the longer ones first. -/
def operators : List String :=
  ["<<=", ">>=", "<<", ">>", "<=", ">=", "==", "!=", "&&", "||", "+=", "-=", "*=", "/=", "%=", "&=",
    "^=", "|=", "+", "-", "*", "/", "%", "<", ">", "=", "!", "~", "&", "|", "^", "(", ")", "?", ":"]

/-- The tokens of an expression; `n` bounds the length of the text. -/
def tokens : (n : Nat) → Bytes → List Token
  | 0, _ => []
  | n + 1, text =>
    match text with
    | [] => []
    | c :: rest =>
      if c == ' ' || c == '\t' || c == '\n' then tokens n rest
      else if c.isDigit then
        match Numeral.read? text with
        | some number => .number number.signed :: tokens n number.rest
        | none => [.bad]
      else if Bytes.isNameStart c then
        let name := text.takeWhile Bytes.isNamePart
        .name name :: tokens n (text.drop name.length)
      else
        match operators.find? fun op => op.toList.isPrefixOf text with
        | some op => .op op :: tokens n (text.drop op.length)
        | none => [.bad]

/-- Tokens to come, and the values given to names so far, last first. -/
structure State where
  rest : List Token
  assigned : List (Bytes × Int)

abbrev Eval := StateT State (Except Fault)

/-- Ends the evaluation. -/
def refuse {α : Type} (what : String) : Eval α := throw (.malformed what)

def peek : Eval (Option Token) := do return (← get).rest.head?

def skip : Eval Unit := modify fun s => { s with rest := s.rest.tail }

/-- The token of an operator comes next; it is passed over. -/
def take (op : String) : Eval Bool := do
  if (← peek) = some (.op op) then
    skip
    return true
  else return false

/-- How tightly an operator with two operands binds. -/
def strength? (op : String) : Option Nat :=
  if ["*", "/", "%"].contains op then some 8
  else if ["+", "-"].contains op then some 7
  else if ["<<", ">>"].contains op then some 6
  else if ["<", "<=", ">", ">="].contains op then some 5
  else if ["==", "!="].contains op then some 4
  else if op = "&" then some 3
  else if op = "^" then some 2
  else if op = "|" then some 1
  else none

def ofBool (b : Bool) : Int := if b then 1 else 0

/-- The bits of a signed integer. -/
def bits (a : Int) : Nat := (a % (Numeral.modulus : Int)).toNat

/-- The value of an operator at two operands. -/
def apply (op : String) (a b : Int) : Eval Int :=
  let bitwise (f : Nat → Nat → Nat) : Int := Numeral.wrap (f (bits a) (bits b))
  let places := bits b % 64
  match op with
  | "*" => return Numeral.wrap (a * b)
  | "/" => if b = 0 then refuse "division by zero" else return Numeral.wrap (Int.tdiv a b)
  | "%" => if b = 0 then refuse "division by zero" else return Int.tmod a b
  | "+" => return Numeral.wrap (a + b)
  | "-" => return Numeral.wrap (a - b)
  | "<<" => return Numeral.wrap (a * (Nat.pow 2 places : Nat))
  | ">>" => return Int.fdiv a (Nat.pow 2 places : Nat)
  | "<" => return ofBool (a < b)
  | "<=" => return ofBool (a ≤ b)
  | ">" => return ofBool (a > b)
  | ">=" => return ofBool (a ≥ b)
  | "==" => return ofBool (a = b)
  | "!=" => return ofBool (a ≠ b)
  | "&" => return bitwise Nat.land
  | "^" => return bitwise Nat.xor
  | "|" => return bitwise Nat.lor
  | _ => refuse "expecting EOF"

/-- The operator of an assignment; plain assignment has none. -/
def assignment? (op : String) : Option String :=
  if op = "=" then some ""
  else if ["<<=", ">>=", "+=", "-=", "*=", "/=", "%=", "&=", "^=", "|="].contains op then
    some (String.ofList op.toList.dropLast)
  else none

/-! ## Values

Below, `lookup` gives the text of a name's value. -/

section

variable (lookup : Bytes → Bytes)

/-- The value of a name; a text that is empty is zero. -/
def valueOf (name : Bytes) : Eval Int := do
  match (← get).assigned.lookup name with
  | some n => return n
  | none =>
    let text := lookup name
    if text.all Bytes.isSpace then return 0
    match Numeral.read? text with
    | some n =>
      if n.fitsSigned && n.rest.all Bytes.isSpace then return n.signed
      else throw (.notANumber text)
    | none => throw (.notANumber text)

/-- Gives a name a value. -/
def assign (name : Bytes) (n : Int) : Eval Int := do
  modify fun s => { s with assigned := (name, n) :: s.assigned }
  return n

mutual

/-- An assignment or a choice; nothing takes effect where `idle`. -/
def assignment : (n : Nat) → (idle : Bool) → Eval Int
  | 0, _ => refuse "expecting primary"
  | n + 1, idle => do
    match (← get).rest with
    | .name name :: .op op :: rest =>
      match assignment? op with
      | none => choice n idle
      | some change =>
        modify fun s => { s with rest }
        let value ← assignment n idle
        if idle then return value
        else if change.isEmpty then assign name value
        else assign name (← apply change (← valueOf lookup name) value)
    | _ => choice n idle

def choice : (n : Nat) → (idle : Bool) → Eval Int
  | 0, _ => refuse "expecting primary"
  | n + 1, idle => do
    let a ← either n idle
    if ← take "?" then
      let b ← assignment n (idle || a = 0)
      if !(← take ":") then refuse "expecting ':'"
      let c ← choice n (idle || a ≠ 0)
      return if a ≠ 0 then b else c
    else return a

def either : (n : Nat) → (idle : Bool) → Eval Int
  | 0, _ => refuse "expecting primary"
  | n + 1, idle => do
    let a ← both n idle
    if ← take "||" then
      let b ← either n (idle || a ≠ 0)
      return ofBool (a ≠ 0 || b ≠ 0)
    else return a

def both : (n : Nat) → (idle : Bool) → Eval Int
  | 0, _ => refuse "expecting primary"
  | n + 1, idle => do
    let a ← climb n 1 idle
    if ← take "&&" then
      let b ← both n (idle || a = 0)
      return ofBool (a ≠ 0 && b ≠ 0)
    else return a

/-- Operands with operators of a strength or more. -/
def climb : (n : Nat) → (least : Nat) → (idle : Bool) → Eval Int
  | 0, _, _ => refuse "expecting primary"
  | n + 1, least, idle => do extend n least idle (← primary n idle)

/-- More operators after the value `a`. -/
def extend : (n : Nat) → (least : Nat) → (idle : Bool) → (a : Int) → Eval Int
  | 0, _, _, _ => refuse "expecting primary"
  | n + 1, least, idle, a => do
    match ← peek with
    | some (.op op) =>
      match strength? op with
      | some strength =>
        if strength < least then return a
        skip
        let b ← climb n (strength + 1) idle
        extend n least idle (← if idle then pure b else apply op a b)
      | none => return a
    | _ => return a

def primary : (n : Nat) → (idle : Bool) → Eval Int
  | 0, _ => refuse "expecting primary"
  | n + 1, idle => do
    match ← peek with
    | some (.number value) =>
      skip
      return value
    | some (.name name) =>
      skip
      if idle then return 0 else valueOf lookup name
    | some (.op op) =>
      skip
      match op with
      | "(" =>
        let value ← assignment n idle
        if ← take ")" then return value else refuse "expecting ')'"
      | "+" => primary n idle
      | "-" => return Numeral.wrap (-(← primary n idle))
      | "!" => return ofBool ((← primary n idle) = 0)
      | "~" => return -(← primary n idle) - 1
      | _ => refuse "expecting primary"
    | _ => refuse "expecting primary"

end

/-- The value of an expression, and the values it gives to names, first one first. -/
def evaluate (text : Bytes) : Except Fault (Int × List (Bytes × Int)) := do
  let tokens := tokens (text.length + 1) text
  let (value, s) ← (assignment lookup (10 * (tokens.length + 2)) false).run ⟨tokens, []⟩
  if s.rest.isEmpty then return (value, s.assigned.reverse) else throw (.malformed "expecting EOF")

end

end Arithmetic

end FiniteStructures
