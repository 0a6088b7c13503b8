import FiniteStructures.Tensor.Basic

/-!
Boolean domains.  A predicate over finite structures is written once, over an element type `E`
that need not be `Bool`: over truth values it is evaluated, over literals it is compiled to a
formula.  Only the constants, negation, disjunction and exclusive or are primitive; the rest is
derived here, each list operation in one pass from left to right.  A domain may compute
conjunctions and the list operations `all`, `any` and `one` in a way of its own.

The effects `m` of computing with elements belong to the domain: truth values can only fail,
literals also grow a formula.
-/

namespace FiniteStructures

/-- A boolean algebra over `E` whose operations run in `m`. -/
class BooleanDomain (E : Type) (m : outParam (Type → Type)) where
  truth : E
  falsity : E
  neg : E → m E
  or : E → E → m E
  /-- Exclusive or, addition modulo two. -/
  xor : E → E → m E
  and : E → E → m E
  /-- Conjunction of a list. -/
  all : List E → m E
  /-- Disjunction of a list. -/
  any : List E → m E
  /-- Exactly one element of the list is true. -/
  one : List E → m E

/-! ## Derived from the primitive operations -/

namespace Derived

variable {E : Type} {m : Type → Type} [Monad m]

/-- Conjunction, through negations and `or`. -/
def and (neg : E → m E) (or : E → E → m E) (a b : E) : m E := do
  let na ← neg a
  let nb ← neg b
  neg (← or na nb)

/-- Conjunction of a list. -/
def all (truth : E) (and : E → E → m E) (elems : List E) : m E := elems.foldlM and truth

/-- Disjunction of a list. -/
def any (falsity : E) (or : E → E → m E) (elems : List E) : m E := elems.foldlM or falsity

/-- One step of `one`: whether some element was true, and whether two were. -/
def oneStep (or and : E → E → m E) (state : E × E) (e : E) : m (E × E) := do
  let both ← and state.1 e
  let twice ← or state.2 both
  let seen ← or state.1 e
  return (seen, twice)

/-- Exactly one element of the list is true. -/
def one (falsity : E) (neg : E → m E) (or and : E → E → m E) (elems : List E) : m E := do
  let (seen, twice) ← elems.foldlM (oneStep or and) (falsity, falsity)
  and seen (← neg twice)

end Derived

namespace BooleanDomain

variable {E : Type} {m : Type → Type} [BooleanDomain E m]

/-- A truth value as an element. -/
def constant (value : Bool) : E := if value then truth else falsity

variable [Monad m]

/-- Implication. -/
def leq (a b : E) : m E := do or (← neg a) b

/-- Equivalence. -/
def equ (a b : E) : m E := do neg (← xor a b)

/-- Parity of a list. -/
def parity (elems : List E) : m E := elems.foldlM xor falsity

/-- One step of `lexLess`: whether the digits so far decide for less, and whether they agree. -/
def lexStep (state : E × E) (digits : E × E) : m (E × E) := do
  let digitLess ← and (← neg digits.1) digits.2
  let here ← and state.2 digitLess
  let less ← or state.1 here
  let same ← equ digits.1 digits.2
  let equal ← and state.2 same
  return (less, equal)

variable [MonadLiftT Outcome m]

/-- Lexicographic order of lists of one length, the first digit being the most significant. -/
def lexLess (a b : List E) : m E := do
  if a.length ≠ b.length then
    (Outcome.arity a.length b.length : Outcome Unit)
  let (less, _) ← (a.zip b).foldlM lexStep (falsity, truth)
  return less

/-- The order `lexLess` with equality. -/
def lexLeq (a b : List E) : m E := do neg (← lexLess b a)

end BooleanDomain

/-- Truth values: a predicate over them is evaluated, lists are scanned for what decides them. -/
instance : BooleanDomain Bool Outcome where
  truth := true
  falsity := false
  neg a := .ok (!a)
  or a b := .ok (a || b)
  xor a b := .ok (a ^^ b)
  and a b := .ok (a && b)
  all elems := .ok (elems.all id)
  any elems := .ok (elems.any id)
  one elems := .ok (elems.countP id == 1)

end FiniteStructures
