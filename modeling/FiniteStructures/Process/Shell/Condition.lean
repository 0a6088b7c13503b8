import FiniteStructures.Process.Numeral
import FiniteStructures.Process.Shell.Basic

/-!
The conditions of `test`.  A condition is a row of texts: operands, tests of one operand, comparisons
of two, and connectives, of which `-a` binds more tightly than `-o`.  Short rows are read by their
length first, so that operands that look like operators do no harm.

    either     conditions connected by -o
    both       conditions connected by -a
    negated    ! and a condition
    primary    a test, a comparison, parentheses, or an operand that must not be empty
-/

namespace FiniteStructures

namespace Condition

/-- What a text is at its place. -/
inductive Role where
  | nothing
  | operand
  | unary (op : Bytes)
  | binary (op : Bytes)
  | not
  | and
  | or
  | opening
  | closing
deriving DecidableEq, Repr

/-- Tests of one operand. -/
def unaryOps : List String :=
  ["-r", "-w", "-x", "-e", "-f", "-d", "-c", "-b", "-p", "-u", "-g", "-k", "-s", "-t", "-z", "-n",
    "-h", "-O", "-G", "-L", "-S"]

/-- Comparisons of two operands. -/
def binaryOps : List String :=
  ["=", "!=", "<", ">", "-eq", "-ne", "-ge", "-gt", "-le", "-lt", "-nt", "-ot", "-ef"]

/-- What a text would be as an operator. -/
def operator? (text : Bytes) : Option Role :=
  let s := String.ofList text
  if unaryOps.contains s then some (.unary text)
  else if binaryOps.contains s then some (.binary text)
  else [("!", .not), ("-a", .and), ("-o", .or), ("(", .opening), (")", .closing)].lookup s

def isBinary (text : Bytes) : Bool := binaryOps.contains (String.ofList text)

/-- The role of the first of some texts.  A test is an operand if no operand follows it, or if a
comparison and another text follow. -/
def role (texts : List Bytes) : Role :=
  match texts with
  | [] => .nothing
  | text :: rest =>
    match operator? text with
    | none => .operand
    | some (.unary op) =>
      match rest with
      | [] => .operand
      | [_] => .unary op
      | next :: _ => if isBinary next then .operand else .unary op
    | some .opening => if rest.isEmpty then .operand else .opening
    | some r => r

/-- The texts from the one looked at on; errors are complaints. -/
abbrev Check := StateT (List Bytes) (Except Bytes)

/-- Looks at a later text. -/
def advance (n : Nat) : Check Role := do
  modify (·.drop n)
  return role (← get)

/-- The role of a later text. -/
def ahead (n : Nat) : Check Role := do return role ((← get).drop n)

/-- The number of an operand. -/
def number (text : Bytes) : Check Int := do
  let refuse {α : Type} : Check α := throw ("Illegal number: ".toList ++ text)
  let body := text.dropWhile Bytes.isSpace
  let (negative, digits) : Bool × Bytes :=
    match body with
    | '-' :: rest => (true, rest)
    | '+' :: rest => (false, rest)
    | rest => (false, rest)
  let ds := digits.takeWhile Char.isDigit
  let value : Int := Numeral.ofDigits 10 ds
  let value := if negative then -value else value
  if ds.isEmpty || !(digits.drop ds.length).all Bytes.isSpace then refuse
  else if value < Numeral.least || Numeral.largest < value then refuse
  else return value

section

/-! Below, `look` gives what a file name leads to. -/

variable (look : Bytes → Option FileNode)

/-- A test of one operand. -/
def unary (op text : Bytes) : Check Bool := do
  let node := look text
  let isContent (p : Bytes → Bool) : Bool :=
    match node with
    | some (.regular content) => p content
    | some (.program _) => p ['x']
    | _ => false
  match String.ofList op with
  | "-z" => return text.isEmpty
  | "-n" => return !text.isEmpty
  | "-t" =>
    discard <| number text
    return false
  | "-f" => return isContent fun _ => true
  | "-s" => return isContent (!·.isEmpty) || node = some .directory
  | "-d" => return node = some .directory
  | "-c" => return node = some .null || node = some .full
  | "-x" =>
    match node with
    | some .directory | some (.program _) => return true
    | _ => return false
  | op => return ["-e", "-r", "-w", "-O", "-G"].contains op && node.isSome

/-- A comparison. -/
def binary (left op right : Bytes) : Check Bool := do
  let compare (p : Int → Int → Bool) : Check Bool := do return p (← number left) (← number right)
  match String.ofList op with
  | "=" => return left = right
  | "!=" => return left ≠ right
  | "<" => return Bytes.le left right && left ≠ right
  | ">" => return Bytes.le right left && left ≠ right
  | "-eq" => compare fun a b => a = b
  | "-ne" => compare fun a b => a ≠ b
  | "-ge" => compare fun a b => a ≥ b
  | "-gt" => compare fun a b => a > b
  | "-le" => compare fun a b => a ≤ b
  | "-lt" => compare fun a b => a < b
  | "-ef" => return (look left).isSome && left = right
  | _ => return false

mutual

def either : (n : Nat) → Role → Check Bool
  | 0, _ => return false
  | n + 1, r => do
    let a ← both n r
    if (← ahead 1) = .or then
      let b ← either n (← advance 2)
      return a || b
    else return a

def both : (n : Nat) → Role → Check Bool
  | 0, _ => return false
  | n + 1, r => do
    let a ← negated n r
    if (← ahead 1) = .and then
      let b ← both n (← advance 2)
      return a && b
    else return a

def negated : (n : Nat) → Role → Check Bool
  | 0, _ => return false
  | n + 1, r => do
    if r ≠ .not then primary n r
    else
      let next ← ahead 1
      if next ≠ .nothing then discard <| advance 1
      return !(← negated n next)

def primary : (n : Nat) → Role → Check Bool
  | 0, _ => return false
  | n + 1, r => do
    match r with
    | .nothing => return false
    | .opening =>
      let next ← advance 1
      if next = .closing then return false
      let a ← either n next
      if (← advance 1) ≠ .closing then throw "closing paren expected".toList
      return a
    | .unary op =>
      discard <| advance 1
      match ← get with
      | [] => throw (op ++ ": argument expected".toList)
      | text :: _ => unary look op text
    | _ =>
      match ← get with
      | left :: op :: rest =>
        if (← ahead 1) ≠ .binary op then return !left.isEmpty
        discard <| advance 2
        match rest with
        | [] => throw (op ++ ": argument expected".toList)
        | right :: _ => binary look left op right
      | [left] => return !left.isEmpty
      | [] => return false

end

/-- The truth value of a condition that begins with a role. -/
def evaluate (r : Role) (texts : List Bytes) : Except Bytes Bool := do
  let (value, left) ← (either look (5 * (texts.length + 2)) r).run texts
  match left with
  | text :: _ :: _ => throw (text ++ ": unexpected operator".toList)
  | _ => return value

/-- The truth value of a condition, read by its length first. -/
def holds : List Bytes → Except Bytes Bool
  | [] => return false
  | [a, op, b] =>
    if isBinary op then evaluate look .operand [a, op, b]
    else if a = ['('] && b = [')'] then evaluate look (role [op]) [op]
    else if a = ['!'] then do return !(← evaluate look (role [op, b]) [op, b])
    else evaluate look (role [a, op, b]) [a, op, b]
  | [a, b, c, d] =>
    if a = ['('] && d = [')'] then evaluate look (role [b, c]) [b, c]
    else if a = ['!'] then do return !(← holds [b, c, d])
    else evaluate look (role [a, b, c, d]) [a, b, c, d]
  | texts => evaluate look (role texts) texts

end

end Condition

end FiniteStructures
