import FiniteStructures.Domain
import FiniteStructures.Proofs.Tensor.Moves
import FiniteStructures.Proofs.Tensor.Room
import FiniteStructures.Proofs.Tensor.Traverse
import Mathlib.Data.List.FinRange
import Mathlib.Logic.Equiv.Defs

/-!
Tensors of truth values as tables.  A tensor holds at the indices of its true cells, and it is the
table of a property when these are the indices with the property,

    t.Holds index       the index is one of t, and its cell is true
    Table shape P t     t.Holds index ↔ P index, at all indices of the shape

Each operation takes tables to tables; a tensor is given by the property it is the table of
(`Table.unique`).
-/

namespace FiniteStructures

theorem map_range_eq_ofFn {α : Type} {k : Nat} (f : Nat → α) :
    (List.range k).map f = List.ofFn fun i : Fin k => f i := by
  rw [← List.map_coe_finRange_eq_range, List.map_map, List.ofFn_eq_map]
  rfl

namespace Shape

theorem within_replicate {k n : Nat} {index : List Nat} :
    Within (List.replicate k n) index ↔ index.length = k ∧ ∀ i ∈ index, i < n := by
  induction k generalizing index with
  | zero => cases index <;> simp [Within]
  | succ k ih =>
    cases index with
    | nil => simp [List.replicate_succ, Within]
    | cons i is =>
      simp only [List.replicate_succ, Within, ih, List.length_cons, List.forall_mem_cons,
        Nat.add_right_cancel_iff]
      exact and_left_comm

/-- The indices of a shape with `k` axes of size `n` are the tuples of `k` numbers below `n`. -/
theorem within_ofFn {k n : Nat} {index : List Nat} :
    Within (List.replicate k n) index ↔
      ∃ t : Fin k → Fin n, index = List.ofFn fun i => (t i : Nat) := by
  rw [within_replicate]
  constructor
  · rintro ⟨rfl, below⟩
    exact ⟨fun i => ⟨index[i], below _ (List.getElem_mem i.isLt)⟩, List.ofFn_getElem.symm⟩
  · rintro ⟨t, rfl⟩
    refine ⟨List.length_ofFn, ?_⟩
    intro i hi
    obtain ⟨j, rfl⟩ := List.mem_ofFn.mp hi
    exact (t j).isLt

theorem within_pair {n : Nat} {index : List Nat} :
    Within [n, n] index ↔ ∃ x < n, ∃ y < n, index = [x, y] := by
  show Within (List.replicate 2 n) index ↔ _
  rw [within_replicate]
  constructor
  · rintro ⟨length, below⟩
    obtain ⟨x, y, rfl⟩ := List.length_eq_two.mp length
    exact ⟨x, below x (by simp), y, below y (by simp), rfl⟩
  · rintro ⟨x, hx, y, hy, rfl⟩
    simp [hx, hy]

end Shape

namespace Tensor

open Outcome

variable {safe : Prop} {shape : List Nat} {P Q : List Nat → Prop} {t u : Tensor Bool}
  {index : List Nat}

/-! ## Reading truth values -/

/-- The cell at an index is true; nothing holds elsewhere. -/
def Holds (t : Tensor Bool) (index : List Nat) : Prop := t.get index = .ok true

instance (t : Tensor Bool) (index : List Nat) : Decidable (t.Holds index) :=
  match h : t.get index with
  | .ok true => isTrue h
  | .ok false => isFalse fun yes => by
      rw [Holds, h] at yes
      cases yes
  | .error _ => isFalse fun yes => by
      rw [Holds, h] at yes
      cases yes

theorem holds_iff [Zero Bool] (within : Shape.Within t.shape index) :
    t.Holds index ↔ t.read index = true := by
  rw [Holds, get_eq within]
  simp

/-- The cell at an index says whether the tensor holds there. -/
theorem get_decide (within : Shape.Within t.shape index) :
    t.get index = .ok (decide (t.Holds index)) := by
  let _ : Zero Bool := ⟨false⟩
  rw [get_eq within, Except.ok.injEq, Bool.eq_iff_iff, decide_eq_true_iff, holds_iff within]

theorem within_of_inRange {dims : List Nat} (length : index.length = dims.length)
    (passed : inRange dims index = .ok ()) : Shape.Within dims index := by
  induction dims generalizing index with
  | nil =>
    rw [List.eq_nil_of_length_eq_zero length]
    trivial
  | cons d ds ih =>
    cases index with
    | nil => cases length
    | cons i is =>
      unfold inRange at passed
      split at passed
      · next lt => exact ⟨lt, ih (Nat.succ.inj length) passed⟩
      · cases passed

/-- Only indices of the tensor hold. -/
theorem Holds.within (h : t.Holds index) : Shape.Within t.shape index := by
  unfold Holds get at h
  by_cases length : index.length = t.order
  · simp only [length, ne_eq, not_true_eq_false, if_false] at h
    cases passed : inRange t.shape index with
    | error e =>
      rw [passed] at h
      cases h
    | ok _ => exact within_of_inRange length passed
  · simp only [length, ne_eq, not_false_eq_true, if_true] at h
    cases h

/-! ## Tables -/

/-- The tensor has the shape, and holds at the indices with the property. -/
structure Table (shape : List Nat) (P : List Nat → Prop) (t : Tensor Bool) : Prop where
  shape_eq : t.shape = shape
  holds : ∀ index, Shape.Within shape index → (t.Holds index ↔ P index)

theorem Table.iff (h : Table shape P t) : t.Holds index ↔ Shape.Within shape index ∧ P index := by
  constructor
  · intro holds
    have within : Shape.Within shape index := h.shape_eq ▸ holds.within
    exact ⟨within, (h.holds index within).mp holds⟩
  · rintro ⟨within, p⟩
    exact (h.holds index within).mpr p

theorem Table.congr (h : Table shape P t)
    (same : ∀ index, Shape.Within shape index → (P index ↔ Q index)) : Table shape Q t :=
  ⟨h.shape_eq, fun index within => (h.holds index within).trans (same index within)⟩

/-- A tensor is the table of what holds in it. -/
theorem table_holds (h : t.shape = shape) : Table shape t.Holds t := ⟨h, fun _ _ => Iff.rfl⟩

theorem Table.unique (ht : Table shape P t) (hu : Table shape P u) : t = u := by
  let _ : Zero Bool := ⟨false⟩
  refine Tensor.ext (ht.shape_eq.trans hu.shape_eq.symm) ?_
  rw [elems_eq t, elems_eq u, ht.shape_eq, hu.shape_eq]
  refine List.map_congr_left ?_
  intro index here
  have within := Shape.mem_enumerate.mp here
  have same := (ht.holds index within).trans (hu.holds index within).symm
  rw [holds_iff (by rw [ht.shape_eq]; exact within), holds_iff (by rw [hu.shape_eq]; exact within)] at same
  exact Bool.eq_iff_iff.mpr same

theorem table_of_reads [Zero Bool] {f : List Nat → Bool} (h : Reads shape f t) :
    Table shape (fun index => f index = true) t := by
  refine ⟨h.1, ?_⟩
  intro index within
  rw [holds_iff (by rw [h.1]; exact within), h.2 index within]

/-- The table of a decidable property. -/
def tabulate (shape : List Nat) (P : List Nat → Prop) [DecidablePred P] : Tensor Bool where
  shape := shape
  elems := (Shape.enumerate shape).map fun index => decide (P index)
  length_elems := by rw [List.length_map, Shape.length_enumerate]

theorem table_tabulate (shape : List Nat) (P : List Nat → Prop) [DecidablePred P] :
    Table shape P (tabulate shape P) := by
  let _ : Zero Bool := ⟨false⟩
  have reads : Reads shape (fun index => decide (P index)) (tabulate shape P) :=
    reads_of_elems rfl rfl
  refine (table_of_reads reads).congr ?_
  intro index _
  rw [decide_eq_true_iff]

/-! ## Operations -/

/-- Only the cells at indices of the shape are computed. -/
theorem generate_congr {E : Type} {f g : List Nat → Outcome E}
    (same : ∀ index, Shape.Within shape index → f index = g index) :
    generate shape f = generate shape g := by
  have steps : traverse f (Shape.indices shape) = traverse g (Shape.indices shape) := by
    refine traverse_congr fun index here => same index ?_
    rwa [Shape.indices_eq_enumerate, Shape.mem_enumerate] at here
  unfold generate
  rw [steps]

theorem yields_generate_table {cell : List Nat → Outcome Bool} {f : List Nat → Bool}
    (room : safe → Shape.span shape < Count.storeLimit)
    (h : ∀ index, Shape.Within shape index → cell index = .ok (f index)) :
    Yields safe (Table shape fun index => f index = true) (generate shape cell) := by
  let _ : Zero Bool := ⟨false⟩
  refine (yields_generate room ?_).mono fun t ht => table_of_reads ht
  intro index within
  exact .of_eq (h index within) rfl

/-- Cells are combined one by one. -/
theorem Table.map2M {g : Bool → Bool → Outcome Bool} {f : Bool → Bool → Bool}
    {c : Prop → Prop → Prop} (runs : ∀ a b, g a b = .ok (f a b))
    (means : ∀ a b, f a b = true ↔ c (a = true) (b = true))
    (ht : Table shape P t) (hu : Table shape Q u) :
    Yields safe (Table shape fun index => c (P index) (Q index)) (t.map2M g u) := by
  let _ : Zero Bool := ⟨false⟩
  refine (yields_map2M (fun a b => .of_eq (runs a b) rfl)
    (ht.shape_eq.trans hu.shape_eq.symm)).mono fun r hr => ?_
  rw [ht.shape_eq] at hr
  refine (table_of_reads hr).congr ?_
  intro index within
  have left := ht.holds index within
  have right := hu.holds index within
  rw [holds_iff (by rw [ht.shape_eq]; exact within)] at left
  rw [holds_iff (by rw [hu.shape_eq]; exact within)] at right
  rw [means, left, right]

theorem Table.neg (ht : Table shape P t) :
    ∃ r, t.mapM (BooleanDomain.neg : Bool → Outcome Bool) = .ok r ∧
      Table shape (fun index => ¬ P index) r := by
  let _ : Zero Bool := ⟨false⟩
  refine ⟨t.map (!·), mapM_ok fun _ _ => rfl, ?_⟩
  have reads : Reads shape (fun index => !t.read index) (t.map (!·)) := by
    refine reads_of_elems ht.shape_eq ?_
    show t.elems.map _ = _
    conv => lhs; rw [elems_eq t, List.map_map, ht.shape_eq]
    rfl
  refine (table_of_reads reads).congr ?_
  intro index within
  rw [← ht.holds index within, holds_iff (by rw [ht.shape_eq]; exact within)]
  simp

/-- A reshaped table asks about the positions of the axes that its own axes came from. -/
theorem Table.reshape {target axes : List Nat} (ht : Table shape P t)
    (lands : Lands target shape axes)
    (room : safe → Shape.span target < Count.storeLimit ∧
      (shape.length + 1) * Shape.span shape < Count.limit) :
    Yields safe (Table target fun index => P (pick index axes)) (t.reshape target axes) := by
  let _ : Zero Bool := ⟨false⟩
  have lands' : Lands target t.shape axes := ht.shape_eq ▸ lands
  refine (yields_reshape lands' fun hs => ?_).mono fun r hr => ?_
  · rw [ht.shape_eq]
    exact room hs
  · refine (table_of_reads hr).congr ?_
    intro index within
    have inside : Shape.Within t.shape (pick index axes) := lands'.within within
    rw [← holds_iff inside]
    exact ht.holds _ (ht.shape_eq ▸ inside)

/-- The axes that a permutation sends the axes to, in order. -/
def axesOf {k : Nat} (σ : Equiv.Perm (Fin k)) : List Nat := List.ofFn fun i => (σ i : Nat)

theorem pick_axesOf {k : Nat} (f : Fin k → Nat) (σ : Equiv.Perm (Fin k)) :
    pick (List.ofFn f) (axesOf σ) = List.ofFn (f ∘ σ) := by
  rw [pick, axesOf, List.map_ofFn]
  refine congrArg List.ofFn (funext fun i => ?_)
  simp

/-- A permutation of axes of one size asks about the permuted index. -/
theorem Table.permute {k n : Nat} (ht : Table (List.replicate k n) P t) (σ : Equiv.Perm (Fin k))
    (room : safe → Shape.Spacious n k) :
    Yields safe (Table (List.replicate k n) fun index => P (pick index (axesOf σ)))
      (t.permute (axesOf σ)) := by
  have length : (axesOf σ).length = k := List.length_ofFn
  have lands : Lands (List.replicate k n) (List.replicate k n) (axesOf σ) := by
    refine lands_replicate length (List.forall_mem_ofFn_iff.mpr fun i => ?_)
    exact (σ i).isLt
  have distinct : (axesOf σ).Nodup :=
    List.nodup_ofFn.mpr (Fin.val_injective.comp σ.injective)
  have onto : ∀ axis < (List.replicate k n).length, axis ∈ axesOf σ := by
    intro axis lt
    rw [List.length_replicate] at lt
    refine List.mem_ofFn.mpr ⟨σ.symm ⟨axis, lt⟩, ?_⟩
    rw [Equiv.apply_symm_apply]
  rw [permute_eq (ht.shape_eq ▸ lands) distinct onto (by rw [length, List.length_replicate])]
  refine ht.reshape lands fun hs => ⟨(room hs).store, ?_⟩
  rw [List.length_replicate]
  exact (room hs).strides

/-- The leading axes are tested together. -/
theorem Table.foldM {s rest : List Nat} {g : List Bool → Outcome Bool} {f : List Bool → Bool}
    (ht : Table (s ++ rest) P t) (runs : ∀ l, g l = .ok (f l))
    (room : safe → Shape.span (s ++ rest) < Count.storeLimit) :
    Yields safe (Table rest fun index => f ((Shape.enumerate s).map fun front =>
        decide (t.Holds (front ++ index))) = true) (t.foldM s.length g) := by
  let _ : Zero Bool := ⟨false⟩
  refine (yields_foldM ht.shape_eq (fun l => .of_eq (runs l) rfl) fun hs => ?_).mono fun r hr => ?_
  · rw [ht.shape_eq]
    exact room hs
  · refine (table_of_reads hr).congr ?_
    intro index within
    have cells : (Shape.enumerate s).map (fun front => t.read (front ++ index)) =
        (Shape.enumerate s).map fun front => decide (t.Holds (front ++ index)) := by
      refine List.map_congr_left ?_
      intro front here
      have inside : Shape.Within t.shape (front ++ index) := by
        rw [ht.shape_eq]
        exact Shape.within_append (Shape.mem_enumerate.mp here) within
      rw [Bool.eq_iff_iff, decide_eq_true_iff, holds_iff inside]
    rw [cells]

/-- The one cell of a tensor without axes. -/
theorem toScalar_eq (shape : t.shape = []) : t.toScalar = .ok (decide (t.Holds [])) := by
  obtain ⟨dims, cells, length⟩ := t
  obtain rfl : dims = [] := shape
  obtain ⟨cell, rfl⟩ := List.length_eq_one_iff.mp length
  cases cell <;> rfl

/-! ## All cells at once -/

theorem elems_all (t : Tensor Bool) :
    t.elems.all id = true ↔ ∀ index, Shape.Within t.shape index → t.Holds index := by
  let _ : Zero Bool := ⟨false⟩
  rw [elems_eq t, List.all_map, List.all_eq_true]
  constructor
  · intro h index within
    exact (holds_iff within).mpr (h index (Shape.mem_enumerate.mpr within))
  · intro h index here
    have within := Shape.mem_enumerate.mp here
    exact (holds_iff within).mp (h index within)

theorem elems_any (t : Tensor Bool) :
    t.elems.any id = true ↔ ∃ index, Shape.Within t.shape index ∧ t.Holds index := by
  let _ : Zero Bool := ⟨false⟩
  rw [elems_eq t, List.any_map, List.any_eq_true]
  constructor
  · rintro ⟨index, here, holds⟩
    have within := Shape.mem_enumerate.mp here
    exact ⟨index, within, (holds_iff within).mpr holds⟩
  · rintro ⟨index, within, holds⟩
    exact ⟨index, Shape.mem_enumerate.mpr within, (holds_iff within).mp holds⟩

theorem Table.all (ht : Table shape P t) :
    t.elems.all id = true ↔ ∀ index, Shape.Within shape index → P index := by
  rw [elems_all, ht.shape_eq]
  exact forall₂_congr ht.holds

theorem Table.any (ht : Table shape P t) :
    t.elems.any id = true ↔ ∃ index, Shape.Within shape index ∧ P index := by
  rw [elems_any, ht.shape_eq]
  exact exists_congr fun index => and_congr_right (ht.holds index)

end Tensor

end FiniteStructures
