import FiniteStructures.Proofs.Tensor.Indices

/-!
Runs of an odometer.  A run that is not done turns whenever the loop through the indices moves on, and
is done when the loop stops, so both meet the same indices,

    (Odometer.start shape).Gives (Shape.indices shape)

where `run.Gives l` says that the run gives the members of `l`, one at a time, and then ends.
-/

namespace FiniteStructures

namespace Odometer

/-- Asked again and again, the run gives these indices in this order, and then none. -/
inductive Gives : Odometer → List (List Nat) → Prop
  | done {run} (stop : run.next? = none) : Gives run []
  | next {run after index l} (step : run.next? = some (index, after)) (rest : Gives after l) :
      Gives run (index :: l)

theorem Gives.collect_eq {run : Odometer} {l : List (List Nat)} (h : run.Gives l)
    (met : List (List Nat)) : run.collect met = met.reverse ++ l := by
  induction h generalizing met with
  | done stop =>
    unfold collect
    split
    · rw [List.append_nil]
    · next step =>
      cases stop.symm.trans step
  | next step rest ih =>
    unfold collect
    split
    · next stop =>
      cases stop.symm.trans step
    · next same =>
      cases same.symm.trans step
      rw [ih, List.reverse_cons, List.append_assoc, List.singleton_append]

theorem next?_eq (shape index : List Nat) :
    (Odometer.mk shape index false).next? =
      some (index, ⟨shape, (turn shape index).1, (turn shape index).2⟩) := rfl

/-- From an index on, a run gives what the loop visits, also where the index does not lie on the
axes. -/
theorem gives_visit (shape index : List Nat) (visited : List (List Nat)) :
    ∃ l, (Odometer.mk shape index false).Gives l ∧
      Shape.visit shape index visited = visited.reverse ++ l := by
  fun_induction Shape.visit with
  | case1 index visited stop =>
    have step := next?_eq shape index
    rw [turn_none stop] at step
    exact ⟨[index], .next step (.done rfl), List.reverse_cons⟩
  | case2 index visited next moves ih =>
    obtain ⟨l, gives, same⟩ := ih
    have step := next?_eq shape index
    rw [turn_some moves] at step
    refine ⟨index :: l, .next step gives, ?_⟩
    rw [same, List.reverse_cons, List.append_assoc, List.singleton_append]

/-- A run and the loop meet the same indices in the same order. -/
theorem gives_start (shape : List Nat) : (start shape).Gives (Shape.indices shape) := by
  unfold start Shape.indices
  split
  · next empty =>
    rw [empty]
    exact .done rfl
  · next axes =>
    obtain ⟨l, gives, same⟩ := gives_visit shape (shape.map fun _ => 0) []
    rw [Bool.eq_false_iff.mpr axes, same]
    exact gives

theorem toList_eq (shape : List Nat) : toList shape = Shape.indices shape :=
  (gives_start shape).collect_eq []

example : toList [2, 2] = [[0, 0], [1, 0], [0, 1], [1, 1]] := by decide

end Odometer

end FiniteStructures
