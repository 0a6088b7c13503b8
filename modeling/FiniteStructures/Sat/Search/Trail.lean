import FiniteStructures.Sat.Literal

/-!
What a search knows of the variables.  The literals that hold are kept in the order in which they
were found.  Levels cut this order into parts: level 0 has what holds in every model, and each
later level begins with a literal that was only supposed to hold.  Taking back a level frees its
variables, which keep their last value as a preference.
-/

namespace FiniteStructures

/-- What is known of a variable. -/
inductive Fixed where
  | free
  | no
  | yes
deriving DecidableEq, Repr, Inhabited

namespace Literal

/-- Position of a literal among the literals of all variables. -/
def slot (l : Literal) : Nat := 2 * l.var + (if l.isNegated then 1 else 0)

end Literal

/-- Literals that hold, with the reasons.  In the arrays by variables, position 0 belongs to
none. -/
structure Trail where
  values : Array Fixed
  levels : Array Nat
  /-- The number of the clause that made the variable's value necessary. -/
  reasons : Array (Option Nat)
  /-- The values that variables had last. -/
  preferences : Array Bool
  /-- The literals that hold, oldest first. -/
  literals : Array Literal
  /-- Where the levels from 1 on begin among the literals. -/
  starts : Array Nat
  /-- The number of literals whose consequences are drawn. -/
  followed : Nat

namespace Trail

/-- No variables. -/
def empty : Trail := ⟨#[.free], #[0], #[none], #[false], #[], #[], 0⟩

/-- The largest variable. -/
def numVars (t : Trail) : Nat := t.values.size - 1

/-- Adds free variables up to a given one. -/
def grow (t : Trail) (var : Nat) : Trail :=
  let n := var + 1 - t.values.size
  { t with
    values := t.values ++ Array.replicate n .free
    levels := t.levels ++ Array.replicate n 0
    reasons := t.reasons ++ Array.replicate n none
    preferences := t.preferences ++ Array.replicate n false }

/-- What is known of a literal: whether it holds. -/
def value (t : Trail) (l : Literal) : Fixed :=
  match t.values.getD l.var .free with
  | .free => .free
  | .yes => if l.isNegated then .no else .yes
  | .no => if l.isNegated then .yes else .no

/-- The level at which the variable of a literal got its value. -/
def level (t : Trail) (l : Literal) : Nat := t.levels.getD l.var 0

/-- The current level. -/
def depth (t : Trail) : Nat := t.starts.size

/-- Makes a literal hold at the current level. -/
def push (t : Trail) (l : Literal) (reason : Option Nat) : Trail :=
  let depth := t.depth
  { t with
    values := t.values.setIfInBounds l.var (if l.isNegated then .no else .yes)
    levels := t.levels.setIfInBounds l.var depth
    reasons := t.reasons.setIfInBounds l.var reason
    preferences := t.preferences.setIfInBounds l.var (!l.isNegated)
    literals := t.literals.push l }

/-- Begins a level with a literal that is supposed to hold. -/
def suppose (t : Trail) (l : Literal) : Trail :=
  let start := t.literals.size
  { t with starts := t.starts.push start }.push l none

/-- Frees the variables of the last `n` literals. -/
def undo : (n : Nat) → Trail → Trail
  | 0, t => t
  | n + 1, t =>
    match t.literals.back? with
    | none => t
    | some l =>
      undo n { t with
        values := t.values.setIfInBounds l.var .free
        literals := t.literals.pop }

/-- The literals of the levels above a given one. -/
def above (t : Trail) (level : Nat) : List Literal :=
  match t.starts[level]? with
  | none => []
  | some start => (t.literals.extract start t.literals.size).toList

/-- Takes back the levels above a given one. -/
def retract (t : Trail) (level : Nat) : Trail :=
  match t.starts[level]? with
  | none => t
  | some start =>
    let t := undo (t.literals.size - start) t
    { t with starts := t.starts.shrink level, followed := min t.followed start }

end Trail

end FiniteStructures
