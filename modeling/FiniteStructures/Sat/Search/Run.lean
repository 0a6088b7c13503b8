import FiniteStructures.Sat.Search.Conflict

/-!
Runs of a search.  Consequences are drawn; a conflict teaches a clause, and where there is none
another literal is supposed to hold.  The run ends with a model when every variable has a value,
and without one when a conflict depends on no supposition.
-/

namespace FiniteStructures

/-- What a run found. -/
inductive Verdict where
  | model
  | noModel
  /-- The run was broken off. -/
  | undecided
deriving DecidableEq, Repr

namespace Search

/-- The literal that gives a variable the value it had last. -/
def preferred? (t : Trail) (v : Nat) : Option Literal :=
  if v = 0 then none
  else if t.preferences.getD v false then some (Literal.ofCount v)
  else some (Literal.ofCount v).opposite

/-- Supposes the first free variable to have the value it had last; tells whether there was one. -/
def suppose (s : Search) : Bool × Search :=
  let free v := s.trail.values.getD v .no = .free
  let (found, agenda) := s.agenda.next? free (s.trail.numVars + 1)
  match found.bind (preferred? s.trail) with
  | none => (false, { s with agenda })
  | some l => (true, { s with agenda, trail := s.trail.suppose l })

/-- Drops all suppositions when there have been many conflicts, each time after half as many more
conflicts as the time before. -/
def restart (s : Search) : Search :=
  if s.conflicts < s.restartAt then s
  else
    let patience := s.patience * 3 / 2
    { s with patience, restartAt := s.conflicts + patience }.retract 0

/-- Runs at most `n` steps. -/
def run : (n : Nat) → Search → Verdict × Search
  | 0, s => (.undecided, s)
  | n + 1, s =>
    if s.refuted then (.noModel, s)
    else
      match s.propagate (s.trail.numVars + 1) with
      | (some c, s) =>
        if s.trail.depth = 0 then (.noModel, { s with refuted := true })
        else run n (s.learn c).restart
      | (none, s) =>
        match s.suppose with
        | (false, s) => (.model, s)
        | (true, s) => run n s

/-- The truth value of a variable; free variables are false. -/
def holds (s : Search) (var : Nat) : Bool := s.trail.values.getD var .free = .yes

/-- The clause has a literal that holds. -/
def satisfies (s : Search) (clause : Clause) : Bool :=
  clause.any fun l => s.trail.value l = .yes

end Search

end FiniteStructures
