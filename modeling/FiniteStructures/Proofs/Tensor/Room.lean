import FiniteStructures.Proofs.Tensor.Bounds
import FiniteStructures.Tensor.Axes
import Mathlib.Algebra.Group.Nat.Defs

/-!
Room for tensors whose axes have one size n.  What is built from them has room when it has few axes,

    Spacious n axes     n ^ axes cells can be stored, and the strides of such a tensor are counts
    Roomy n axes        the same with a margin that depends on the axes       (Roomy.spacious)

where an empty axis counts as one of size 1.  A tensor that exists is stored, and has room for
others of its shape (`Tensor.Stored.spacious`); so has one that was built
(`Shape.spacious_of_storable`).
-/

namespace FiniteStructures

namespace Shape

theorem span_replicate (k n : Nat) : span (List.replicate k n) = (max 1 n) ^ k := by
  induction k with
  | zero => rfl
  | succ k ih => rw [List.replicate_succ, span, ih, Nat.pow_succ, Nat.mul_comm]

theorem volume_replicate (k n : Nat) : volume (List.replicate k n) = n ^ k := by
  induction k with
  | zero => rfl
  | succ k ih => rw [List.replicate_succ, volume, ih, Nat.pow_succ, Nat.mul_comm]

/-- Tensors with at most `axes` axes of size `n` can be stored, and have strides that are counts. -/
structure Spacious (n axes : Nat) : Prop where
  store : span (List.replicate axes n) < Count.storeLimit
  strides : (axes + 1) * span (List.replicate axes n) < Count.limit

instance (n axes : Nat) : Decidable (Spacious n axes) :=
  decidable_of_iff (span (List.replicate axes n) < Count.storeLimit ∧
    (axes + 1) * span (List.replicate axes n) < Count.limit)
    ⟨fun h => ⟨h.1, h.2⟩, fun h => ⟨h.store, h.strides⟩⟩

theorem Spacious.mono {n axes fewer : Nat} (h : Spacious n axes) (le : fewer ≤ axes) :
    Spacious n fewer := by
  have powers : span (List.replicate fewer n) ≤ span (List.replicate axes n) := by
    rw [span_replicate, span_replicate]
    exact Nat.pow_le_pow_right (by omega) le
  exact ⟨Nat.lt_of_le_of_lt powers h.store,
    Nat.lt_of_le_of_lt (Nat.mul_le_mul (by omega) powers) h.strides⟩

/-- Axes that can be stored have strides that are counts, unless there are too many of them. -/
theorem spacious_of_store {n axes : Nat} (axes_lt : axes < Count.storeLimit)
    (store : span (List.replicate axes n) < Count.storeLimit) : Spacious n axes := by
  refine ⟨store, ?_⟩
  rw [span_replicate] at store ⊢
  by_cases small : n ≤ 1
  · rw [Nat.max_eq_left small, Nat.one_pow, Nat.mul_one]
    exact Nat.lt_trans (Nat.succ_lt_succ axes_lt) (by decide)
  · rw [Nat.max_eq_right (by omega)] at store ⊢
    have powers : 2 ^ axes < 2 ^ 57 :=
      Nat.lt_of_le_of_lt (Nat.pow_le_pow_left (by omega) axes) store
    have few : axes < 57 := (Nat.pow_lt_pow_iff_right (by decide)).mp powers
    calc (axes + 1) * n ^ axes ≤ 57 * n ^ axes := Nat.mul_le_mul_right _ few
      _ < 57 * Count.storeLimit := (Nat.mul_lt_mul_left (by decide)).mpr store
      _ < Count.limit := by decide

/-- As many cells as can be stored, on not too many axes, have room. -/
theorem spacious_of_volume {n axes : Nat} (axes_lt : axes < Count.storeLimit)
    (cells : volume (List.replicate axes n) < Count.storeLimit) : Spacious n axes := by
  refine spacious_of_store axes_lt ?_
  rw [volume_replicate] at cells
  rw [span_replicate]
  by_cases small : n ≤ 1
  · rw [Nat.max_eq_left small, Nat.one_pow]
    decide
  · rwa [Nat.max_eq_right (by omega)]

theorem volume_lt_of_storable {shape : List Nat} (run : storable shape = .ok ()) :
    volume shape < Count.storeLimit := by
  obtain ⟨count, counted, rest⟩ := Outcome.bind_ok run
  obtain ⟨stored, kept, -⟩ := Outcome.bind_ok rest
  have volumes : Outcome.Yields False (· = volume shape) _ := yields_cells nofun
  obtain rfl := volumes.of_ok counted
  by_contra many
  rw [Count.store, if_neg many] at kept
  cases kept

theorem spacious_of_storable {n axes : Nat} (axes_lt : axes < Count.storeLimit)
    (run : storable (List.replicate axes n) = .ok ()) : Spacious n axes :=
  spacious_of_volume axes_lt (volume_lt_of_storable run)

/-- Tensors with at most `axes` axes of size `n` can be stored. -/
def Roomy (n axes : Nat) : Prop := (axes + 1) * (max 1 n) ^ axes < Count.storeLimit

instance (n axes : Nat) : Decidable (Roomy n axes) := inferInstanceAs (Decidable (_ < _))

theorem Roomy.spacious {n axes : Nat} (h : Roomy n axes) : Spacious n axes := by
  unfold Roomy at h
  rw [← span_replicate] at h
  exact ⟨Nat.lt_of_le_of_lt (Nat.le_mul_of_pos_left _ (Nat.succ_pos axes)) h,
    Nat.lt_trans h (by decide)⟩

theorem Roomy.axes_lt {n axes : Nat} (h : Roomy n axes) : axes < Count.storeLimit := by
  have powers : 1 ≤ (max 1 n) ^ axes := Nat.pow_pos (by omega)
  exact Nat.lt_of_lt_of_le (Nat.lt_succ_self axes)
    (Nat.le_of_lt (Nat.lt_of_le_of_lt (Nat.le_mul_of_pos_right _ powers) h))

end Shape

namespace Tensor

/-- The shape and the cells of the tensor are lists, which have fewer members than there can be. -/
def Stored {E : Type} (t : Tensor E) : Prop :=
  t.shape.length < Count.storeLimit ∧ t.elems.length < Count.storeLimit

/-- A tensor that is stored has room for its strides. -/
theorem Stored.spacious {E : Type} {t : Tensor E} {k m : Nat} (h : t.Stored)
    (shape : t.shape = List.replicate k m) : Shape.Spacious m k := by
  obtain ⟨axes, cells⟩ := h
  rw [shape, List.length_replicate] at axes
  rw [t.length_elems, shape] at cells
  exact Shape.spacious_of_volume axes cells

/-- Where there is room for the strides of a tensor, it can be stored. -/
theorem Stored.of_spacious {E : Type} {t : Tensor E} {k m : Nat} (axes : k < Count.storeLimit)
    (shape : t.shape = List.replicate k m) (room : Shape.Spacious m k) : t.Stored := by
  refine ⟨by rwa [shape, List.length_replicate], ?_⟩
  rw [t.length_elems, shape]
  exact Nat.lt_of_le_of_lt (Shape.volume_le_span _) room.store

/-- A tensor is reshaped only to what can be stored. -/
theorem storable_of_reshape {E : Type} {t u : Tensor E} {shape axes : List Nat}
    (run : t.reshape shape axes = .ok u) : Shape.storable shape = .ok () := by
  unfold reshape at run
  split at run
  · cases run
  · obtain ⟨steps, -, generated⟩ := Outcome.bind_ok run
    obtain ⟨_, stored, -⟩ := Outcome.bind_ok generated
    exact stored

end Tensor

end FiniteStructures
