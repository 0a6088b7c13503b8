import FiniteStructures.Sat.Search.Agenda
import FiniteStructures.Sat.Search.Trail

/-!
Clauses under watch.  Each clause with two literals or more is watched through two of them.  As
long as both may hold the clause demands nothing, so only a literal that begins to fail makes the
clauses looked at that are watched through it.  A clause that then has but one literal which does
not fail makes it hold, and one that has none is in conflict with the trail.
-/

namespace FiniteStructures

/-- A search for a model of clauses. -/
structure Search where
  /-- The clauses given and those learned. -/
  clauses : Array Clause
  /-- The two literals through which each clause is watched. -/
  watched : Array (Literal × Literal)
  /-- For each literal, by its slot, the numbers of the clauses watched through it. -/
  watchers : Array (List Nat)
  trail : Trail
  agenda : Agenda
  /-- The clauses have no model. -/
  refuted : Bool
  /-- The number of conflicts met. -/
  conflicts : Nat
  /-- The number of conflicts at which all suppositions are dropped next. -/
  restartAt : Nat
  /-- The number of conflicts between the last two times. -/
  patience : Nat

namespace Search

/-- No clauses. -/
def empty : Search := ⟨#[], #[], #[[], []], Trail.empty, Agenda.empty, false, 0, 100, 100⟩

instance : Inhabited Search := ⟨empty⟩

/-- Makes room for a variable. -/
def grow (s : Search) (var : Nat) : Search :=
  let n := var - s.trail.numVars
  if n = 0 then s
  else
    { s with
      watchers := s.watchers ++ Array.replicate (2 * n) []
      trail := s.trail.grow var
      agenda := s.agenda.grow n }

/-- Takes back the levels above a given one. -/
def retract (s : Search) (level : Nat) : Search :=
  { s with
    agenda := (s.trail.above level).foldl (fun a l => a.release l.var) s.agenda
    trail := s.trail.retract level }

/-- Watches a clause through a literal. -/
def watch (s : Search) (c : Nat) (l : Literal) : Search :=
  { s with watchers := s.watchers.modify l.slot (c :: ·) }

/-- How long a literal keeps a clause quiet: literals that do not fail come before those that do,
and of these the later come first. -/
def rank (t : Trail) (l : Literal) : Nat :=
  if t.value l = .no then t.level l else t.depth + 1

/-- Adds a clause.  Levels are taken back until it is not in conflict with the trail, and if then
only one of its literals does not fail, that literal holds. -/
def add (s : Search) (clause : Clause) : Search :=
  let s := clause.foldl (fun s l => s.grow l.var) s
  let c := s.clauses.size
  match clause.mergeSort fun l m => rank s.trail m ≤ rank s.trail l with
  | [] => { s with refuted := true }
  | [l] =>
    let s := s.retract 0
    match s.trail.value l with
    | .no => { s with refuted := true }
    | .yes => s
    | .free => { s with trail := s.trail.push l none }
  | l :: m :: _ =>
    let s := { s with
      clauses := s.clauses.push clause
      watched := s.watched.push (l, m) }
    let s := (s.watch c l).watch c m
    let top := s.trail.level m
    if s.trail.value m ≠ .no then s
    else if s.trail.value l = .no ∧ s.trail.level l = top then
      if top = 0 then { s with refuted := true } else s.retract (top - 1)
    else
      let s := s.retract top
      if s.trail.value l = .free then { s with trail := s.trail.push l (some c) } else s

/-! ## Consequences -/

/-- Looks at clauses watched through a literal that fails; `kept` has those that stay watched
through it.  Gives a clause in conflict with the trail, if there is one. -/
def visit (p : Literal) : List Nat → (kept : List Nat) → Search → Option Nat × Search
  | [], kept, s => (none, { s with watchers := s.watchers.setIfInBounds p.slot kept })
  | c :: rest, kept, s =>
    let (l, m) := s.watched.getD c (p, p)
    let other := if l = p then m else l
    if s.trail.value other = .yes then visit p rest (c :: kept) s
    else
      match (s.clauses.getD c []).find? fun l => l ≠ other && l ≠ p && s.trail.value l ≠ .no with
      | some l =>
        visit p rest kept
          ({ s with watched := s.watched.setIfInBounds c (other, l) }.watch c l)
      | none =>
        if s.trail.value other = .no then
          (some c, { s with watchers := s.watchers.setIfInBounds p.slot (kept ++ c :: rest) })
        else
          visit p rest (c :: kept) { s with trail := s.trail.push other (some c) }

/-- Draws the consequences of at most `n` literals, up to the first conflict. -/
def propagate : (n : Nat) → Search → Option Nat × Search
  | 0, s => (none, s)
  | n + 1, s =>
    match s.trail.literals[s.trail.followed]? with
    | none => (none, s)
    | some l =>
      let p := l.opposite
      let ids := s.watchers.getD p.slot []
      match visit p ids []
          { s with trail := { s.trail with followed := s.trail.followed + 1 } } with
      | (some c, s) => (some c, s)
      | (none, s) => propagate n s

end Search

end FiniteStructures
