import FiniteStructures.Proofs.Sat.Building

/-!
Formulas only grow.  Whatever literals a call is given and however it ends, it takes no variable, no
clause and no gate away from the formula, and the clauses that were there keep their order,

    i.Grows (exec x i).2      (Compile.Adds x)

This is so for every formula, also for one that no calls from the empty one lead to.
-/

namespace FiniteStructures

namespace Compile

open Instance

variable {α β : Type}

/-- The computation only adds to a formula, however it ends. -/
def Adds (x : Compile α) : Prop := ∀ i : Instance, i.Grows (exec x i).2

theorem adds_lift (o : Outcome α) : Adds (liftM o) := Grows.refl

theorem adds_bind {x : Compile α} {f : α → Compile β} (hx : Adds x) (hf : ∀ a, Adds (f a)) :
    Adds (x >>= f) := by
  intro i
  have first := hx i
  rw [exec_bind]
  revert first
  rcases exec x i with ⟨e | a, j⟩
  · exact id
  · exact fun first => first.trans (hf a j)

/-- The marks of occurrence are no part of what grows. -/
theorem grows_marks (i : Instance) (occurs : Array Bool) : i.Grows { i with occurs } :=
  ⟨Nat.le_refl _, List.prefix_rfl, fun g _ _ h => by cases g <;> exact h⟩

theorem grows_push (i : Instance) (c : Clause) : i.Grows { i with clauses := i.clauses.push c } :=
  ⟨Nat.le_refl _, by rw [Array.toList_push]; exact List.prefix_append _ _,
    fun g _ _ h => by cases g <;> exact h⟩

theorem adds_note (l : Literal) : Adds (note l) := by
  refine adds_bind Grows.refl fun _ => ?_
  exact Sequential.ite (Q := Adds) (fun i => grows_marks i _) (adds_lift _)

theorem sequential_adds : Sequential Adds := ⟨fun _ => Grows.refl, adds_bind⟩

theorem closed_adds : Closed Adds where
  toSequential := sequential_adds
  get := Grows.refl
  neg _ := adds_lift _
  fresh i := by
    rcases exec_fresh_cases i with ⟨-, run⟩ | ⟨-, run⟩ <;> rw [run]
    · exact grows_mint i
    · exact .refl i
  addClause c := adds_bind (sequential_adds.forM adds_note c) fun _ i => grows_push i c

theorem adds_freshTensor (shape : List Nat) : Adds (freshTensor shape) :=
  closed_adds.freshTensor (adds_lift _)

end Compile

open Compile

/-- Where there is no gate of the operands yet, noting one loses nothing. -/
theorem Instance.Grows.keep {i j : Instance} (h : i.Grows j) {g : Gate} {key : Literal × Literal}
    (new : g.find? i key = none) (c : Literal) : i.Grows (g.keep key c j) := by
  refine ⟨?_, ?_, ?_⟩
  · rw [Gate.numVars_keep]
    exact h.numVars_le
  · rw [Gate.clauses_keep]
    exact h.clauses
  · intro g' key' c' found
    rw [Gate.find?_keep, if_neg]
    · exact h.find? g' key' c' found
    · rintro ⟨rfl, rfl⟩
      rw [new] at found
      cases found

namespace Compile

theorem adds_gate (g : Gate) (key : Literal × Literal) : Adds (g.get key) := by
  intro i
  have minted := closed_adds.mint g key.1 key.2 i
  rcases Gate.exec_get_cases g key i with ⟨c, -, run⟩ | ⟨new, ⟨e, j, mint, run⟩ | ⟨c, j, mint, run⟩⟩
  · rw [run]
    exact .refl i
  · rw [mint] at minted
    rw [run]
    exact minted
  · rw [mint] at minted
    rw [run]
    exact minted.keep new c

theorem adds_connect (g : Gate) (a b : Literal) : Adds (g.connect a b) :=
  closed_adds.connect adds_gate g a b

theorem adds_and (a b : Literal) : Adds (and a b) :=
  adds_bind (adds_lift a.neg) fun na => adds_bind (adds_lift b.neg) fun nb =>
    adds_bind (adds_connect .or na nb) fun c => adds_lift c.neg

end Compile

end FiniteStructures
