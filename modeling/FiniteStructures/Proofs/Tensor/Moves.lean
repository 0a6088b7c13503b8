import FiniteStructures.Tensor.Axes
import FiniteStructures.Proofs.Tensor.Cells

/-!
Moved axes.  A reshaped tensor has the cells of the old one at the positions of the axes that its own
axes came from,

    (t.reshape shape axes).get n  =  t.get o   where  o[i] = n[axes[i]]        (yields_moved)

and a genuine permutation of the axes is such a reshape (`permute_eq`).
-/

namespace FiniteStructures

namespace Tensor

open Outcome

variable {E : Type} {safe : Prop}

/-! ## Strides -/

theorem position_zero (n : Nat) (index : List Nat) : position (List.replicate n 0) index = 0 := by
  induction n generalizing index with
  | zero => rfl
  | succ n ih => cases index with
    | nil => rfl
    | cons i is => rw [List.replicate_succ, position, ih, Nat.mul_zero]

/-- A larger step moves an index on by as many of its positions. -/
theorem position_set {steps index : List Nat} {axis more : Nat}
    (length : index.length = steps.length) (h : axis < steps.length) :
    position (steps.set axis (steps.getD axis 0 + more)) index =
      position steps index + more * index.getD axis 0 := by
  induction steps generalizing index axis with
  | nil => cases h
  | cons step steps ih => cases index with
    | nil => cases length
    | cons i is => cases axis with
      | zero =>
        simp only [List.set_cons_zero, List.getD_cons_zero, position]
        rw [Nat.mul_add, Nat.mul_comm i more]
        omega
      | succ axis =>
        have rest := ih (Nat.succ.inj length) (Nat.lt_of_succ_lt_succ h)
        simp only [List.set_cons_succ, List.getD_cons_succ, position]
        rw [rest, Nat.add_assoc]

/-- After `done` axes have landed, each step is at most `done` times `most`, and the strides of the
axes that are left to land are at most `most`; so all of them are counts. -/
structure Strides (most done : Nat) (dims : List Nat) (stride : Nat) (steps : List Nat) : Prop where
  small : ∀ step ∈ steps, step ≤ done * most
  span : stride * Shape.span dims ≤ most
  limit : (done + dims.length) * most < Count.limit

namespace Strides

variable {most done d stride : Nat} {dims steps : List Nat}

theorem stride_le (h : Strides most done (d :: dims) stride steps) :
    stride ≤ most ∧ stride * d ≤ most := by
  have bound : stride * (max 1 d * Shape.span dims) ≤ most := h.span
  have first : 1 ≤ max 1 d * Shape.span dims :=
    Nat.mul_pos (by omega) (Shape.span_pos dims)
  have second : d ≤ max 1 d * Shape.span dims :=
    Nat.le_trans (Nat.le_max_right 1 d) (Nat.le_mul_of_pos_right _ (Shape.span_pos dims))
  constructor
  · exact Nat.le_trans (Nat.le_mul_of_pos_right stride first) bound
  · exact Nat.le_trans (Nat.mul_le_mul_left stride second) bound

theorem limit_next (h : Strides most done (d :: dims) stride steps) :
    (done + 1) * most < Count.limit := by
  refine Nat.lt_of_le_of_lt (Nat.mul_le_mul_right most ?_) h.limit
  exact Nat.add_le_add_left (Nat.succ_pos _) done

theorem step_le (h : Strides most done (d :: dims) stride steps) {axis : Nat}
    (lt : axis < steps.length) : steps.getD axis 0 + stride ≤ (done + 1) * most := by
  have old : steps.getD axis 0 ≤ done * most := by
    rw [List.getD_eq_getElem?_getD, List.getElem?_eq_getElem lt]
    exact h.small _ (List.getElem_mem lt)
  rw [Nat.add_mul, Nat.one_mul]
  exact Nat.add_le_add old h.stride_le.1

theorem next (h : Strides most done (d :: dims) stride steps) {axis : Nat}
    (lt : axis < steps.length) :
    Strides most (done + 1) dims (stride * d)
      (steps.set axis (steps.getD axis 0 + stride)) where
  small step hstep := by
    rcases List.mem_or_eq_of_mem_set hstep with old | rfl
    · exact Nat.le_trans (h.small _ old) (Nat.mul_le_mul_right _ (Nat.le_succ done))
    · exact h.step_le lt
  span := by
    refine Nat.le_trans ?_ h.span
    rw [Shape.span, ← Nat.mul_assoc]
    exact Nat.mul_le_mul_right _ (Nat.mul_le_mul_left _ (Nat.le_max_right 1 d))
  limit := by
    have limit := h.limit
    rwa [List.length_cons, Nat.add_comm dims.length, ← Nat.add_assoc] at limit

end Strides

/-- The steps lead to where the axes that landed on the result axes are. -/
theorem yields_mergeStrides {old shape : List Nat} {landings : List (Nat × Nat)} {stride : Nat}
    {steps : List Nat} {most done : Nat} (lands : ∀ p ∈ landings, shape[p.2]? = some p.1)
    (length : steps.length = shape.length)
    (room : safe → Strides most done (landings.map Prod.fst) stride steps) :
    Yields safe
      (fun result => ∀ index, index.length = shape.length →
        position result index = position steps index + stride *
          Shape.offset (landings.map Prod.fst) (landings.map fun p => index.getD p.2 0))
      (mergeStrides old shape landings stride steps) := by
  induction landings generalizing stride steps done with
  | nil => exact .of_eq rfl fun index _ => (Nat.add_zero _).symm
  | cons p landings ih =>
    obtain ⟨d, axis⟩ := p
    obtain ⟨here, others⟩ := List.forall_mem_cons.mp lands
    have lt : axis < steps.length := by
      rw [length]
      exact (List.getElem?_eq_some_iff.mp here).1
    have step_lt (hs : safe) : steps.getD axis 0 + stride < Count.limit :=
      Nat.lt_of_le_of_lt ((room hs).step_le lt) (room hs).limit_next
    have stride_lt (hs : safe) : stride * d < Count.limit :=
      Nat.lt_of_le_of_lt (Nat.le_trans (room hs).stride_le.2
        (Nat.le_mul_of_pos_left most (Nat.succ_pos done))) (room hs).limit_next
    unfold mergeStrides
    simp only [here, ne_eq, not_true_eq_false, if_false]
    refine (Count.yields_check step_lt).bind fun step hstep => ?_
    subst hstep
    refine (Count.yields_check stride_lt).bind fun next hnext => ?_
    subst hnext
    refine Yields.mono (ih others (by rw [List.length_set, length]) fun hs => (room hs).next lt) ?_
    intro result h index hi
    rw [h index hi, position_set (by rw [hi, length]) lt, List.map_cons, List.map_cons,
      Shape.offset_cons, Nat.mul_add, Nat.mul_assoc, Nat.add_assoc]

/-! ## Reshaped tensors -/

/-- Each axis lands on a result axis of its size. -/
def Lands (shape : List Nat) : (dims axes : List Nat) → Prop :=
  List.Forall₂ fun d axis => shape[axis]? = some d

/-- The positions of an index on the result axes. -/
def pick (index axes : List Nat) : List Nat := axes.map fun axis => index.getD axis 0

theorem within_getD {shape index : List Nat} (h : Shape.Within shape index) {axis d : Nat}
    (size : shape[axis]? = some d) : index.getD axis 0 < d := by
  induction shape generalizing index axis with
  | nil => cases size
  | cons d' ds ih => cases index with
    | nil => cases h
    | cons i is => cases axis with
      | zero =>
        obtain rfl := Option.some.inj size
        exact h.1
      | succ axis => exact ih h.2 size

theorem Lands.within {shape dims axes : List Nat} (h : Lands shape dims axes) {index : List Nat}
    (within : Shape.Within shape index) : Shape.Within dims (pick index axes) := by
  induction h with
  | nil => trivial
  | cons size _ ih => exact ⟨within_getD within size, ih⟩

theorem Lands.of_mem_zip {shape dims axes : List Nat} (h : Lands shape dims axes)
    {p : Nat × Nat} (hp : p ∈ dims.zip axes) : shape[p.2]? = some p.1 := by
  induction h with
  | nil => cases hp
  | cons size _ ih =>
    rcases List.mem_cons.mp hp with rfl | hp
    · exact size
    · exact ih hp

theorem Lands.fst_zip {shape dims axes : List Nat} (h : Lands shape dims axes) :
    (dims.zip axes).map Prod.fst = dims :=
  List.map_fst_zip (Nat.le_of_eq h.length_eq)

theorem Lands.snd_zip {shape dims axes : List Nat} (h : Lands shape dims axes) :
    (dims.zip axes).map Prod.snd = axes :=
  List.map_snd_zip (Nat.le_of_eq h.length_eq.symm)

theorem Lands.below {shape dims axes : List Nat} (h : Lands shape dims axes) :
    ∀ axis ∈ axes, axis < shape.length := by
  induction h with
  | nil => simp
  | cons size _ ih => exact List.forall_mem_cons.mpr ⟨(List.getElem?_eq_some_iff.mp size).1, ih⟩

/-- Axes of one size land wherever there is one. -/
theorem lands_replicate {j k n : Nat} {axes : List Nat} (length : axes.length = j)
    (below : ∀ axis ∈ axes, axis < k) : Lands (List.replicate k n) (List.replicate j n) axes := by
  subst length
  induction axes with
  | nil => exact .nil
  | cons axis axes ih =>
    obtain ⟨first, rest⟩ := List.forall_mem_cons.mp below
    exact .cons (List.getElem?_replicate_of_lt first) (ih rest)

/-- The positions on axes that an index has. -/
theorem map_some_pick {index axes : List Nat} (below : ∀ axis ∈ axes, axis < index.length) :
    axes.map (index[·]?) = (pick index axes).map some := by
  rw [pick, List.map_map]
  refine List.map_congr_left fun axis here => ?_
  simp [List.getD_eq_getElem?_getD, below axis here]

variable {t : Tensor E} {shape dims axes : List Nat}

/-- The steps of the result axes lead to the positions that their axes came from. -/
theorem yields_steps (lands : Lands shape dims axes)
    (room : safe → (dims.length + 1) * Shape.span dims < Count.limit) :
    Yields safe (fun steps => ∀ index, index.length = shape.length →
        position steps index = Shape.offset dims (pick index axes))
      (mergeStrides dims shape (dims.zip axes) 1 (List.replicate shape.length 0)) := by
  have zeros : ∀ step ∈ List.replicate shape.length 0, step ≤ 1 * Shape.span dims := by
    intro step hstep
    rw [List.eq_of_mem_replicate hstep]
    exact Nat.zero_le _
  refine Yields.mono (yields_mergeStrides (fun p hp => lands.of_mem_zip hp)
    List.length_replicate fun hs => ⟨zeros, ?_, ?_⟩) fun steps h index hi => ?_
  · exact Nat.le_of_eq (by rw [lands.fst_zip, Nat.one_mul])
  · rw [lands.fst_zip, Nat.add_comm]
    exact room hs
  · have picked : (dims.zip axes).map (fun p => index.getD p.2 0) = pick index axes := by
      have composed := List.map_map (l := dims.zip axes) (f := Prod.snd)
        (g := fun axis => index.getD axis 0)
      rw [lands.snd_zip] at composed
      exact composed.symm
    rw [h index hi, position_zero, lands.fst_zip, picked, Nat.zero_add, Nat.one_mul]

/-- A reshaped tensor has the cells of the old one at the positions its axes came from. -/
theorem yields_moved (lands : Lands shape t.shape axes)
    (room : safe → Shape.span shape < Count.storeLimit ∧
      (t.shape.length + 1) * Shape.span t.shape < Count.limit) :
    Yields safe (fun u : Tensor E => u.shape = shape ∧
        ∀ index, Shape.Within shape index → u.get index = t.get (pick index axes))
      (t.reshape shape axes) := by
  have order : axes.length = t.order := lands.length_eq.symm
  unfold reshape
  simp only [order, ne_eq, not_true_eq_false, if_false]
  refine (yields_steps lands fun hs => (room hs).2).bind fun steps hsteps => ?_
  have cell (index : List Nat) (within : Shape.Within shape index) :
      ∃ e, t.elems.toArray[position steps index]? = some e ∧
        t.get (pick index axes) = .ok e := by
    rw [hsteps index within.length, List.getElem?_toArray]
    exact exists_cell (lands.within within)
  refine (yields_generated (fun hs => (room hs).1) fun index within => ?_).mono fun u hu => ?_
  · obtain ⟨e, here, -⟩ := cell index within
    exact ⟨e, by rw [here]⟩
  · refine ⟨hu.1, fun index within => (hu.2 index within).trans ?_⟩
    obtain ⟨e, here, got⟩ := cell index within
    rw [here, got]

theorem yields_reshape [Zero E] (lands : Lands shape t.shape axes)
    (room : safe → Shape.span shape < Count.storeLimit ∧
      (t.shape.length + 1) * Shape.span t.shape < Count.limit) :
    Yields safe (Reads shape fun index => t.read (pick index axes)) (t.reshape shape axes) := by
  refine (yields_moved lands room).mono fun u hu => ⟨hu.1, fun index within => ?_⟩
  have moved := hu.2 index within
  rw [get_eq (hu.1 ▸ within), get_eq (lands.within within)] at moved
  exact Except.ok.inj moved

/-! ## Permuted axes -/

/-- Axes that land on different places find them vacant, and fill the places they land on. -/
theorem place_eq {target : List Nat} {landings : List (Nat × Nat)} {shape : List Nat}
    (length : shape.length = target.length) (distinct : (landings.map Prod.snd).Nodup)
    (lands : ∀ p ∈ landings, target[p.2]? = some p.1)
    (free : ∀ p ∈ landings, shape[p.2]? = some vacant)
    (filled : ∀ axis, axis ∉ landings.map Prod.snd → shape[axis]? = target[axis]?) :
    place landings shape = some target := by
  induction landings generalizing shape with
  | nil =>
    refine congrArg some (List.ext_getElem? fun axis => ?_)
    exact filled axis List.not_mem_nil
  | cons p landings ih =>
    obtain ⟨d, axis⟩ := p
    rw [List.map_cons, List.nodup_cons] at distinct
    unfold place
    rw [if_pos (free _ List.mem_cons_self)]
    refine ih ?_ distinct.2 (fun p hp => lands p (List.mem_cons_of_mem _ hp)) (fun p hp => ?_)
      fun other hother => ?_
    · rw [List.length_set, length]
    · have ne : axis ≠ p.2 := fun h => distinct.1 (List.mem_map.mpr ⟨p, hp, h.symm⟩)
      rw [List.getElem?_set_ne ne]
      exact free p (List.mem_cons_of_mem _ hp)
    · by_cases h : axis = other
      · subst h
        have here : target[axis]? = some d := lands _ List.mem_cons_self
        have lt : axis < shape.length := by
          rw [length]
          exact (List.getElem?_eq_some_iff.mp here).1
        rw [List.getElem?_set_self lt, here]
      · rw [List.getElem?_set_ne h]
        refine filled other fun hmem => ?_
        rw [List.map_cons, List.mem_cons] at hmem
        exact hmem.elim (fun e => h e.symm) hother

/-- To permute the axes is to reshape the tensor. -/
theorem permute_eq (lands : Lands shape t.shape axes) (distinct : axes.Nodup)
    (onto : ∀ axis < shape.length, axis ∈ axes) (length : axes.length = shape.length) :
    t.permute axes = t.reshape shape axes := by
  have order : axes.length = t.order := lands.length_eq.symm
  have placed : place (t.shape.zip axes) (List.replicate axes.length vacant) = some shape := by
    have below (p : Nat × Nat) (hp : p ∈ t.shape.zip axes) : p.2 < axes.length := by
      rw [length]
      exact (List.getElem?_eq_some_iff.mp (lands.of_mem_zip hp)).1
    refine place_eq (List.length_replicate.trans length) ?_ (fun p hp => lands.of_mem_zip hp)
      (fun p hp => ?_) fun axis hnot => ?_
    · rw [lands.snd_zip]
      exact distinct
    · rw [List.getElem?_replicate, if_pos (below p hp)]
    · rw [lands.snd_zip] at hnot
      have outside : shape.length ≤ axis := Nat.le_of_not_lt fun h => hnot (onto axis h)
      rw [List.getElem?_eq_none (by rw [List.length_replicate, length]; exact outside),
        List.getElem?_eq_none outside]
  unfold permute
  simp only [order, ne_eq, not_true_eq_false, if_false]
  rw [order] at placed
  rw [placed]

end Tensor

end FiniteStructures
