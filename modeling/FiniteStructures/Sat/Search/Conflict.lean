import FiniteStructures.Sat.Search.Watch

/-!
Learning from conflicts.  A clause in conflict with the trail is resolved with the reasons of its
literals, the last found first, until only one literal of the current level is left.  What remains
follows from the clauses; added to them it makes that literal hold at an earlier level, so that
suppositions which had no part in the conflict are dropped.
-/

namespace FiniteStructures

/-- A clause on the way from a conflict to a lesson. -/
structure Lesson where
  /-- The variables met, by number. -/
  marked : Array Bool
  /-- The variables met. -/
  met : List Nat
  /-- How many literals of the current level are left. -/
  pending : Nat
  /-- The literals of earlier levels. -/
  earlier : List Literal

namespace Lesson

/-- Takes up a literal that fails, unless its variable was met before or has its value at
level 0. -/
def mark (t : Trail) (lesson : Lesson) (l : Literal) : Lesson :=
  if lesson.marked.getD l.var false then lesson
  else
    let level := t.level l
    if level = 0 then lesson
    else
      let lesson := { lesson with
        marked := lesson.marked.setIfInBounds l.var true
        met := l.var :: lesson.met }
      if level = t.depth then { lesson with pending := lesson.pending + 1 }
      else { lesson with earlier := l :: lesson.earlier }

end Lesson

namespace Search

/-- Resolves along the first `n` literals of the trail, the last one first. -/
def resolve (s : Search) : (n : Nat) → Lesson → Clause × List Nat
  | 0, lesson => (lesson.earlier, lesson.met)
  | n + 1, lesson =>
    match s.trail.literals[n]? with
    | none => resolve s n lesson
    | some l =>
      if !lesson.marked.getD l.var false then resolve s n lesson
      else if lesson.pending ≤ 1 then (l.opposite :: lesson.earlier, lesson.met)
      else
        let reason := ((s.trail.reasons.getD l.var none).bind (s.clauses[·]?)).getD []
        resolve s n
          (reason.foldl (Lesson.mark s.trail) { lesson with pending := lesson.pending - 1 })

/-- Learns from a conflict above level 0. -/
def learn (s : Search) (conflict : Nat) : Search :=
  let start : Lesson := ⟨Array.replicate (s.trail.numVars + 1) false, [], 0, []⟩
  let lesson := (s.clauses.getD conflict []).foldl (Lesson.mark s.trail) start
  let (clause, met) := s.resolve s.trail.literals.size lesson
  { s with agenda := s.agenda.promoteAll met, conflicts := s.conflicts + 1 }.add clause

end Search

end FiniteStructures
