import FiniteStructures.Proofs.Tensor.Moves

/-!
What reshaping gives.  Unless a number leaves its range, a tensor is reshaped exactly when each of
its axes has a landing, and lands on a result axis of its size,

    axes.length ≠ t.order           the numbers of axes and of landings differ
    ¬ Lands shape t.shape axes      some axis lands outside or on an axis of another size
    Lands shape t.shape axes        every cell lies in the old store, at the offset of
                                    o[i] = n[axes[i]]

so no axis map makes it read outside of the store (`reshape_reads_origin`).
-/

namespace FiniteStructures

open Outcome

namespace Tensor

variable {E : Type} {t u : Tensor E} {shape dims axes : List Nat}

/-- Each axis lands on an axis of its size, or some axis does not. -/
theorem lands_iff : Lands shape dims axes ↔
    axes.length = dims.length ∧ ∀ p ∈ dims.zip axes, shape[p.2]? = some p.1 := by
  unfold Lands
  rw [List.forall₂_iff_zip, eq_comm]
  exact and_congr_right fun _ => ⟨fun h p hp => h hp, fun h _ _ hp => h _ hp⟩

/-- An axis that does not fit is found, unless a stride overflows before it. -/
theorem mergeStrides_misfit {old : List Nat} {landings : List (Nat × Nat)} {stride : Nat}
    {steps : List Nat} (misfit : ∃ p ∈ landings, shape[p.2]? ≠ some p.1) :
    mergeStrides old shape landings stride steps = .shapes old shape ∨
      OutOfRange (mergeStrides old shape landings stride steps) := by
  induction landings generalizing stride steps with
  | nil => simp at misfit
  | cons p landings ih =>
    obtain ⟨d, axis⟩ := p
    unfold mergeStrides
    by_cases here : shape[axis]? = some d
    · have later : ∃ q ∈ landings, shape[q.2]? ≠ some q.1 := by simpa [here] using misfit
      have added (n : Nat) : Yields False (· = n) (Count.check n) := Count.yields_check False.elim
      simp only [here, ne_eq, not_true_eq_false, if_false]
      exact (added _).ends fun _ _ => (added _).ends fun _ _ => ih later
    · rw [if_pos here]
      exact .inl rfl

/-! ## Outcomes -/

theorem reshape_arity (length : axes.length ≠ t.order) :
    t.reshape shape axes = .arity t.order axes.length := by
  unfold reshape
  rw [if_pos length]
  rfl

theorem reshape_misfit (length : axes.length = t.order) (misfit : ¬ Lands shape t.shape axes) :
    t.reshape shape axes = .shapes t.shape shape ∨ OutOfRange (t.reshape shape axes) := by
  have found : ∃ p ∈ t.shape.zip axes, shape[p.2]? ≠ some p.1 := by
    by_contra none
    refine misfit (lands_iff.mpr ⟨length, ?_⟩)
    simpa using none
  unfold reshape
  simp only [length, ne_eq, not_true_eq_false, if_false]
  rcases mergeStrides_misfit found with refused | out
  · rw [refused]
    exact .inl rfl
  · exact .inr (out.bind _)

/-- A tensor whose axes fit is reshaped, unless a number leaves its range. -/
theorem exists_reshape (lands : Lands shape t.shape axes)
    (counted : ¬ OutOfRange (t.reshape shape axes)) :
    ∃ u, t.reshape shape axes = .ok u ∧ u.shape = shape ∧
      ∀ index, Shape.Within shape index → u.get index = t.get (pick index axes) := by
  have moved : Yields False _ (t.reshape shape axes) := yields_moved lands False.elim
  exact moved.of_counted counted

/-- The steps that were computed do not lead out of the store. -/
theorem position_lt {steps index : List Nat} (lands : Lands shape t.shape axes)
    (merged : mergeStrides t.shape shape (t.shape.zip axes) 1 (List.replicate shape.length 0) =
      .ok steps) (within : Shape.Within shape index) :
    position steps index < t.size := by
  have lead : Yields False _ _ := yields_steps lands False.elim
  rw [lead.of_ok merged index within.length, size, t.length_elems]
  exact Shape.offset_lt (lands.within within)

/-- Unless a number leaves its range, `reshape` is refused for the arity exactly when there is not
one landing for each axis, and for the shape exactly when otherwise some axis lands outside or on an
axis of another size.  Else it gives the tensor of the requested shape whose cell at each index `n`
is the old one at `o` with `o[i] = n[axes[i]]`, and the position it is read from lies in the old
store. -/
theorem reshape_reads_origin (t : Tensor E) (shape axes : List Nat)
    (counted : ¬ OutOfRange (t.reshape shape axes)) :
    (t.reshape shape axes = .arity t.order axes.length ↔ axes.length ≠ t.order) ∧
    (t.reshape shape axes = .shapes t.shape shape ↔
      axes.length = t.order ∧ ∃ p ∈ t.shape.zip axes, shape[p.2]? ≠ some p.1) ∧
    (axes.length = t.order → (∀ p ∈ t.shape.zip axes, shape[p.2]? = some p.1) →
      ∃ u, t.reshape shape axes = .ok u ∧ u.shape = shape ∧ u.size = Shape.volume shape ∧
        ∃ steps, mergeStrides t.shape shape (t.shape.zip axes) 1
            (List.replicate shape.length 0) = .ok steps ∧
          ∀ n, Shape.Within shape n → position steps n < t.size ∧
            ∃ o e, axes.map (n[·]?) = o.map some ∧ t.get o = .ok e ∧ u.get n = .ok e) := by
  have fits (length : axes.length = t.order)
      (fit : ∀ p ∈ t.shape.zip axes, shape[p.2]? = some p.1) : Lands shape t.shape axes :=
    lands_iff.mpr ⟨length, fit⟩
  refine ⟨⟨?_, reshape_arity⟩, ⟨?_, ?_⟩, ?_⟩
  · intro refused length
    by_cases lands : Lands shape t.shape axes
    · obtain ⟨u, run, -⟩ := exists_reshape lands counted
      rw [run] at refused
      cases refused
    · have misfit := (reshape_misfit length lands).resolve_right counted
      rw [misfit] at refused
      cases refused
  · intro refused
    by_cases length : axes.length = t.order
    · refine ⟨length, ?_⟩
      by_contra none
      obtain ⟨u, run, -⟩ := exists_reshape (fits length (by simpa using none)) counted
      rw [run] at refused
      cases refused
    · rw [reshape_arity length] at refused
      cases refused
  · rintro ⟨length, p, here, misfit⟩
    refine (reshape_misfit length fun lands => misfit ?_).resolve_right counted
    exact lands.of_mem_zip here
  · intro length fit
    have lands := fits length fit
    obtain ⟨u, run, whole, cells⟩ := exists_reshape lands counted
    obtain ⟨steps, merged⟩ : ∃ steps, mergeStrides t.shape shape (t.shape.zip axes) 1
        (List.replicate shape.length 0) = .ok steps := by
      unfold reshape at run
      rw [if_neg (not_not.mpr length)] at run
      obtain ⟨steps, merged, -⟩ := bind_ok run
      exact ⟨steps, merged⟩
    refine ⟨u, run, whole, by rw [size, u.length_elems, whole], steps, merged, ?_⟩
    intro n within
    refine ⟨position_lt lands merged within, pick n axes, ?_⟩
    obtain ⟨e, -, got⟩ := exists_cell (lands.within within)
    refine ⟨e, map_some_pick ?_, got, by rw [cells n within, got]⟩
    rw [within.length]
    exact lands.below

/-- Three axes with the cells numbered in their order. -/
def numbered : Tensor Nat := ⟨[2, 3, 2], List.range 12, rfl⟩

/-- The first and the last axis are identified and moved to the end, the other one to the front, and
a new one is put between them. -/
theorem reshape_reads_origin_mixed :
    ¬ OutOfRange (numbered.reshape [3, 4, 2] [2, 0, 2]) ∧
      ∃ u, numbered.reshape [3, 4, 2] [2, 0, 2] = .ok u ∧ u.get [2, 3, 1] = .ok 11 := by
  have counted : ¬ OutOfRange (numbered.reshape [3, 4, 2] [2, 0, 2]) :=
    not_outOfRange (by decide +kernel)
  obtain ⟨-, -, moves⟩ := reshape_reads_origin numbered [3, 4, 2] [2, 0, 2] counted
  obtain ⟨u, run, -, -, steps, -, cells⟩ := moves rfl (by decide)
  obtain ⟨-, o, e, places, old, new⟩ :=
    cells [2, 3, 1] ⟨by decide, by decide, by decide, trivial⟩
  have origin : [1, 2, 1] = o := List.map_injective_iff.mpr (fun _ _ => Option.some.inj) places
  subst origin
  obtain rfl : 11 = e := Except.ok.inj old
  exact ⟨counted, u, run, new⟩

end Tensor

end FiniteStructures
