/-!
The order in which a search looks for a variable to suppose something about.  Variables that were
part of a conflict move to the front, so that a search stays with the part of the formula that
causes trouble; at first a smaller variable comes before a larger one.

The order is a chain that can be walked both ways.  A cursor stands where the search for a free
variable goes on: all variables before it have a value.
-/

namespace FiniteStructures

/-- The variables from 1 on in some order.  Position 0 of the arrays, as a variable, is none. -/
structure Agenda where
  /-- The variable before each variable. -/
  previous : Array Nat
  /-- The variable after each variable. -/
  following : Array Nat
  /-- Ranks; a variable of higher rank comes first. -/
  ranks : Array Int
  first : Nat
  last : Nat
  cursor : Nat
  /-- The rank of the next variable that moves to the front. -/
  top : Int

namespace Agenda

/-- No variables. -/
def empty : Agenda := ⟨#[0], #[0], #[0], 0, 0, 0, 1⟩

/-- The next variable, at the end. -/
def add (a : Agenda) : Agenda :=
  let v := a.ranks.size
  { a with
    previous := a.previous.push a.last
    following := (if a.last = 0 then a.following else a.following.setIfInBounds a.last v).push 0
    ranks := a.ranks.push (-v)
    first := if a.first = 0 then v else a.first
    last := v
    cursor := if a.cursor = 0 then v else a.cursor }

/-- Adds `n` variables. -/
def grow : (n : Nat) → Agenda → Agenda
  | 0, a => a
  | n + 1, a => grow n a.add

/-- Moves a variable to the front. -/
def promote (a : Agenda) (v : Nat) : Agenda :=
  if v = a.first then a
  else
    let before := a.previous.getD v 0
    let after := a.following.getD v 0
    { a with
      previous :=
        ((if after = 0 then a.previous else a.previous.setIfInBounds after before).setIfInBounds
          v 0).setIfInBounds a.first v
      following := (a.following.setIfInBounds before after).setIfInBounds v a.first
      ranks := a.ranks.setIfInBounds v a.top
      first := v
      last := if after = 0 then before else a.last
      top := a.top + 1 }

/-- Moves variables to the front, their order among themselves being kept. -/
def promoteAll (a : Agenda) (vars : List Nat) : Agenda :=
  (vars.mergeSort fun v w => a.ranks.getD v 0 ≤ a.ranks.getD w 0).foldl promote a

/-- Notes that a variable has become free. -/
def release (a : Agenda) (v : Nat) : Agenda :=
  if a.ranks.getD a.cursor 0 < a.ranks.getD v 0 then { a with cursor := v } else a

/-- The first free variable among the `n` variables from the cursor on, with the cursor there. -/
def next? (free : Nat → Bool) : (n : Nat) → Agenda → Option Nat × Agenda
  | 0, a => (none, a)
  | n + 1, a =>
    if a.cursor ≠ 0 ∧ free a.cursor then (some a.cursor, a)
    else
      let v := a.following.getD a.cursor 0
      if v = 0 then (none, a) else next? free n { a with cursor := v }

end Agenda

end FiniteStructures
