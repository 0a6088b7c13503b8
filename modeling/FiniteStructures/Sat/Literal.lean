import FiniteStructures.Tensor.Basic

/-!
Literals, clauses and formulas in conjunctive normal form, and the truth values that an
assignment gives them.  A literal is a nonzero integer of 32 bits: a variable, numbered from 1,
or its negation.  Variable 1 stands for truth, so the constants are the literals 1 and -1.

Variables are counted without a sign, so a count may be too large for a literal.  Its 32 bits are
then read with a sign: variable 2³¹ has the literal -2³¹, and 2³¹ + 1 the one of -(2³¹ - 1).
-/

namespace FiniteStructures

/-- A variable or, with a minus sign, its negation. -/
structure Literal where
  value : Int
  value_ne_zero : value ≠ 0
  value_mem : -2147483648 ≤ value ∧ value < 2147483648
deriving DecidableEq

namespace Literal

instance : Hashable Literal := ⟨fun l => hash l.value⟩

instance : Repr Literal := ⟨fun l _ => repr l.value⟩

/-- The literal that holds. -/
def top : Literal := ⟨1, by decide, by decide⟩

/-- The literal that fails. -/
def bottom : Literal := ⟨-1, by decide, by decide⟩

instance : Inhabited Literal := ⟨top⟩

/-- Literals of 32 bits without a sign have variables below this number, 2³¹. -/
def varLimit : Nat := 2147483648

/-- The least integer of 32 bits, the only one whose negative has more. -/
def least : Int := -2147483648

/-- The literal with a given number of 32 bits; zero ends a clause and is none. -/
def ofInt (value : Int) : Outcome Literal :=
  if zero : value = 0 then .breach .zeroLiteral
  else if fits : -2147483648 ≤ value ∧ value < 2147483648 then .ok ⟨value, zero, fits⟩
  else .error .overflow

/-- The literal of a variable, whose number is read with a sign; no variable has the number 0 or one
from 2³² on. -/
def ofCount (v : Nat) : Literal :=
  if small : 0 < v ∧ v < 2147483648 then ⟨v, by omega, by omega⟩
  else if large : 2147483648 ≤ v ∧ v < 4294967296 then ⟨v - 4294967296, by omega, by omega⟩
  else top

/-- The literal of the variable `n + 1`. -/
def ofVar (n : Nat) : Literal := ofCount (n + 1)

/-- The variable, numbered from 1. -/
def var (l : Literal) : Nat := l.value.natAbs

def isNegated (l : Literal) : Bool := l.value < 0

/-- The literals of variable 1 have a fixed value. -/
def isConstant (l : Literal) : Bool := l.var == 1

/-- The literal of the same variable with the other sign; the least one stays as it is. -/
def opposite (l : Literal) : Literal :=
  if h : l.value = least then l
  else ⟨-l.value, Int.neg_ne_zero.mpr l.value_ne_zero, by
    have := l.value_mem
    unfold least at h
    omega⟩

/-- The opposite literal, if 32 bits are enough for it. -/
def neg (l : Literal) : Outcome Literal :=
  if l.value = least then .error .overflow else .ok l.opposite

/-- The literal of the variable, without a sign if 32 bits are enough for it. -/
def unsigned (l : Literal) : Literal := ofCount l.var

/-- Two literals with the smaller number first. -/
def ordered (a b : Literal) : Literal × Literal := if a.value ≤ b.value then (a, b) else (b, a)

/-- The name of a constant, the number of any other literal. -/
def render (l : Literal) : String :=
  if l = top then "TRUE" else if l = bottom then "FALSE" else toString l.value

end Literal

/-- A disjunction of literals. -/
abbrev Clause := List Literal

/-- A conjunction of clauses over the variables from 1 to `numVars`. -/
structure Cnf where
  numVars : Nat
  clauses : Array Clause
deriving DecidableEq

namespace Cnf

/-- Numbers of variables are below this number, 2³². -/
def countLimit : Nat := 4294967296

/-- A clause as text: each literal with a blank after it, then the terminating zero. -/
def clauseText (clause : Clause) : String :=
  String.join (clause.map fun l => toString l.value ++ " ") ++ "0\n"

/-- The text in the format of the solver competitions: a header with the numbers of variables and
clauses, and a line for each clause. -/
def toDimacs (cnf : Cnf) : String :=
  s!"p cnf {cnf.numVars} {cnf.clauses.size}\n" ++ String.join (cnf.clauses.toList.map clauseText)

end Cnf

/-- Truth values of the variables; the value at position 0 belongs to none. -/
structure Assignment where
  values : Array Bool
deriving DecidableEq

namespace Assignment

/-- Sets a variable to what makes the literal true, if it is among the variables. -/
def record (values : Array Bool) (l : Literal) : Array Bool :=
  values.setIfInBounds l.var (!l.isNegated)

/-- The assignment in which the given literals hold, a later one overriding an earlier one, and
variables without a literal are false. -/
def ofLiterals (numVars : Nat) (literals : List Literal) : Assignment :=
  ⟨literals.foldl record (Array.replicate (numVars + 1) false)⟩

/-- Number of variables. -/
def numVars (a : Assignment) : Nat := a.values.size - 1

/-- The truth value of a literal. -/
def value (a : Assignment) (l : Literal) : Outcome Bool :=
  if l.isConstant then .ok (l = Literal.top)
  else
    match a.values[l.var]? with
    | some b => .ok (b != l.isNegated)
    | none => .breach .outOfBounds

/-- The truth values of a tensor of literals. -/
def decode (a : Assignment) (t : Tensor Literal) : Outcome (Tensor Bool) := t.mapM a.value

end Assignment

end FiniteStructures
