import Std.Data.HashMap
import FiniteStructures.Domain
import FiniteStructures.Sat.Literal

/-!
The boolean domain of literals.  An `Instance` is a formula under construction.  Computing with
literals yields no truth value but a literal that the recorded clauses make equivalent to the
expression: each disjunction and each exclusive or of two literals that are not obviously related
gets a variable of its own, a gate, and the same gate is used whenever the same two literals meet
again.

    Compile α    a computation that may extend the formula and may fail; what it added before a
                 failure stays
-/

namespace FiniteStructures

/-- A formula under construction, with the gates minted so far. -/
structure Instance where
  numVars : Nat
  clauses : Array Clause
  /-- For each variable, whether it occurs in a clause; position 0 belongs to none. -/
  occurs : Array Bool
  orGates : Std.HashMap (Literal × Literal) Literal
  xorGates : Std.HashMap (Literal × Literal) Literal

/-- Sizes of an instance. -/
structure Stats where
  vars : Nat
  clauses : Nat
  orGates : Nat
  xorGates : Nat
deriving DecidableEq, Repr

/-- Computations that build a formula. -/
abbrev Compile := ExceptT Fault (StateM Instance)

namespace Instance

/-- The formula before any call: variable 1 and the clause that makes it true. -/
def initial : Instance where
  numVars := 1
  clauses := #[[Literal.top]]
  occurs := #[false, true]
  orGates := ∅
  xorGates := ∅

instance : Inhabited Instance := ⟨initial⟩

def stats (i : Instance) : Stats := ⟨i.numVars, i.clauses.size, i.orGates.size, i.xorGates.size⟩

/-- The formula as it stands. -/
def cnf (i : Instance) : Cnf := ⟨i.numVars, i.clauses⟩

end Instance

namespace Compile

/-- Runs a computation on an instance. -/
def exec {α : Type} (x : Compile α) (i : Instance) : Outcome α × Instance := x.run.run i

/-- Changes the instance. -/
def update (f : Instance → Instance) : Compile Unit := ExceptT.lift (modify f)

/-- Mints a variable that no clause mentions; there must be a number for it. -/
def fresh : Compile Literal := do
  let n := (← get).numVars
  if n + 1 < Cnf.countLimit then
    update fun i => { i with numVars := i.numVars + 1, occurs := i.occurs.push false }
    return Literal.ofVar n
  else
    (.error .overflow : Outcome Literal)

/-- A tensor of fresh variables. -/
def freshTensor (shape : List Nat) : Compile (Tensor Literal) :=
  Tensor.generate shape fun _ => fresh

/-- Notes that the variable of a literal occurs; it must have been minted. -/
def note (l : Literal) : Compile Unit := do
  if l.var < (← get).occurs.size then
    update fun i => { i with occurs := i.occurs.setIfInBounds l.var true }
  else
    (Outcome.breach (.unmintedVariable l.var) : Outcome Unit)

/-- Records a clause over minted variables. -/
def addClause (clause : Clause) : Compile Unit := do
  clause.forM note
  update fun i => { i with clauses := i.clauses.push clause }

/-- Requires a literal to hold. -/
def ensure (l : Literal) : Compile Unit := do
  if l ≠ Literal.top then addClause [l]

/-- The variables that occur in no clause, in increasing order. -/
def idle (i : Instance) : List Literal :=
  (List.range i.numVars).filterMap fun n =>
    if i.occurs[n + 1]? = some false then some (Literal.ofVar n) else none

/-- The formula built so far.  Each variable that occurs in no clause first gets the tautology
of itself and its negation, so that all declared variables occur. -/
def formula : Compile Cnf := do
  let missing := idle (← get)
  missing.forM fun l => do addClause [l, ← l.neg]
  return (← get).cnf

/-! ## Gates -/

/-- Mints a variable equivalent to `a ∨ b`. -/
def mintOr (a b : Literal) : Compile Literal := do
  let c ← fresh
  addClause [← a.neg, c]
  addClause [← b.neg, c]
  addClause [← c.neg, a, b]
  return c

/-- Mints a variable equivalent to the exclusive or of `a` and `b`. -/
def mintXor (a b : Literal) : Compile Literal := do
  let c ← fresh
  addClause [← a.neg, ← b.neg, ← c.neg]
  addClause [a, b, ← c.neg]
  addClause [a, ← b.neg, c]
  addClause [← a.neg, b, c]
  return c

/-- The gate for `a ∨ b`, minted at its first use; `a` has the smaller number. -/
def orGate (key : Literal × Literal) : Compile Literal := do
  match (← get).orGates[key]? with
  | some c => return c
  | none =>
    let c ← mintOr key.1 key.2
    update fun i => { i with orGates := i.orGates.insert key c }
    return c

/-- The gate for the exclusive or of two literals without sign, minted at its first use. -/
def xorGate (key : Literal × Literal) : Compile Literal := do
  match (← get).xorGates[key]? with
  | some c => return c
  | none =>
    let c ← mintXor key.1 key.2
    update fun i => { i with xorGates := i.xorGates.insert key c }
    return c

/-- Negation changes the sign and needs no gate. -/
def neg (a : Literal) : Compile Literal := (a.neg : Outcome Literal)

/-- Disjunction: constants, equal and opposite literals need no gate. -/
def or (a b : Literal) : Compile Literal := do
  if a = Literal.top ∨ b = Literal.top then return Literal.top
  if a = (← b.neg) then return Literal.top
  if a = Literal.bottom ∨ a = b then return b
  if b = Literal.bottom then return a
  orGate (Literal.ordered a b)

/-- Exclusive or: constants, equal and opposite literals need no gate, and signs are moved out of
the gate. -/
def xor (a b : Literal) : Compile Literal := do
  if a = Literal.bottom then return b
  if b = Literal.bottom then return a
  if a = Literal.top then return ← b.neg
  if b = Literal.top then return ← a.neg
  if a = b then return Literal.bottom
  if a = (← b.neg) then return Literal.top
  let c ← xorGate (Literal.ordered a.unsigned b.unsigned)
  if a.isNegated != b.isNegated then return ← c.neg
  return c

/-- Conjunction, as a disjunction of opposite literals. -/
def and : Literal → Literal → Compile Literal := Derived.and neg or

end Compile

/-- Literals: a predicate over them is compiled. -/
instance : BooleanDomain Literal Compile where
  truth := Literal.top
  falsity := Literal.bottom
  neg := Compile.neg
  or := Compile.or
  xor := Compile.xor
  and := Compile.and
  all := Derived.all Literal.top Compile.and
  any := Derived.any Literal.bottom Compile.or
  one := Derived.one Literal.bottom Compile.neg Compile.or Compile.and

end FiniteStructures
