import FiniteStructures.Index

/-!
The order of indices.  The offsets of the indices in the order of `Shape.enumerate` are the positions
of a store one after another (`map_offset_enumerate`), so a tensor is a function of its indices.  The
loop through the indices visits them in this order (`indices_eq_enumerate`).
-/

namespace FiniteStructures

namespace Shape

variable {shape index : List Nat}

theorem Within.length (h : Within shape index) : index.length = shape.length := by
  induction shape generalizing index with
  | nil => cases index with
    | nil => rfl
    | cons i is => cases h
  | cons d ds ih => cases index with
    | nil => cases h
    | cons i is => rw [List.length_cons, List.length_cons, ih h.2]

theorem mem_enumerate : index ∈ enumerate shape ↔ Within shape index := by
  induction shape generalizing index with
  | nil => cases index <;> simp [enumerate, Within]
  | cons d ds ih =>
    simp only [enumerate, List.mem_flatMap, List.mem_map, List.mem_range]
    constructor
    · rintro ⟨rest, hrest, i, hi, rfl⟩
      exact ⟨hi, ih.mp hrest⟩
    · intro h
      cases index with
      | nil => cases h
      | cons i is => exact ⟨is, ih.mpr h.2, i, h.1, rfl⟩

theorem range_mul (d n : Nat) :
    List.range (d * n) = (List.range n).flatMap fun k => (List.range d).map fun i => i + d * k := by
  induction n with
  | zero => rfl
  | succ n ih =>
    rw [Nat.mul_succ, List.range_add, ih, List.range_succ, List.flatMap_append,
      List.flatMap_singleton]
    simp only [Nat.add_comm]

theorem map_offset_enumerate (shape : List Nat) :
    (enumerate shape).map (offset shape) = List.range (volume shape) := by
  induction shape with
  | nil => rfl
  | cons d ds ih =>
    rw [volume, range_mul, ← ih, List.flatMap_map, enumerate, List.map_flatMap]
    simp only [List.map_map, Function.comp_def, offset_cons]

theorem offset_getElem_enumerate {k : Nat} (h : k < (enumerate shape).length) :
    offset shape (enumerate shape)[k] = k := by
  have cell := List.getElem_map (offset shape) (l := enumerate shape) (h := by simpa using h)
  simp only [map_offset_enumerate, List.getElem_range] at cell
  exact cell.symm

theorem nodup_enumerate (shape : List Nat) : (enumerate shape).Nodup := by
  have numbers := List.nodup_range (n := volume shape)
  rw [← map_offset_enumerate] at numbers
  exact List.Pairwise.of_map _ (fun _ _ apart same => apart (congrArg _ same)) numbers

/-- The indices of a shape lie in the store where their offset says. -/
theorem getElem?_enumerate (h : Within shape index) :
    (enumerate shape)[offset shape index]? = some index := by
  obtain ⟨k, hk, hi⟩ := List.mem_iff_getElem.mp (mem_enumerate.mpr h)
  have place : ((enumerate shape).map (offset shape))[k]? = some (offset shape index) := by
    rw [List.getElem?_map, List.getElem?_eq_getElem hk, hi]
    rfl
  rw [map_offset_enumerate, List.getElem?_range (by rw [← length_enumerate]; exact hk)] at place
  rw [← Option.some.inj place, List.getElem?_eq_getElem hk, hi]

theorem drop_offset (h : Within shape index) :
    (enumerate shape).drop (offset shape index) =
      index :: (enumerate shape).drop (offset shape index + 1) := by
  obtain ⟨lt, here⟩ := List.getElem?_eq_some_iff.mp (getElem?_enumerate h)
  rw [List.drop_eq_getElem_cons lt, here]

/-- From an index on, the loop visits those that lie in the store from its offset on. -/
theorem visit_eq (h : Within shape index) (visited : List (List Nat)) :
    visit shape index visited = visited.reverse ++ (enumerate shape).drop (offset shape index) := by
  fun_induction visit with
  | case1 index visited stop =>
    have last : (enumerate shape).drop (offset shape index + 1) = [] := by
      rw [advance_none h stop, ← length_enumerate, List.drop_length]
    rw [drop_offset h, last, List.reverse_cons]
  | case2 index visited next step ih =>
    obtain ⟨within, next⟩ := advance_some h step
    rw [ih within, next, drop_offset h, List.reverse_cons, List.append_assoc,
      List.singleton_append]

/-- The loop visits all indices in the order of the store; shapes with an empty axis have none. -/
theorem indices_eq_enumerate (shape : List Nat) : indices shape = enumerate shape := by
  unfold indices
  split
  · next h =>
    have none : volume shape = 0 := volume_eq_zero (by simpa using h)
    exact (List.eq_nil_of_length_eq_zero (by rw [length_enumerate, none])).symm
  · next axes =>
    obtain ⟨within, offset⟩ := within_zeros (by simpa using axes)
    rw [visit_eq within, offset]
    rfl

/-! ## Joined shapes -/

theorem within_append {s rest front index : List Nat} (hf : Within s front)
    (hi : Within rest index) : Within (s ++ rest) (front ++ index) := by
  induction s generalizing front with
  | nil =>
    rw [List.eq_nil_of_length_eq_zero hf.length]
    exact hi
  | cons d ds ih =>
    cases front with
    | nil => cases hf
    | cons i is => exact ⟨hf.1, ih hf.2⟩

/-- The leading axes are the fast ones. -/
theorem enumerate_append (s t : List Nat) :
    enumerate (s ++ t) = (enumerate t).flatMap fun j => (enumerate s).map (· ++ j) := by
  induction s with
  | nil =>
    simp only [List.nil_append, enumerate, List.map_singleton, List.flatMap_singleton']
  | cons d ds ih =>
    rw [List.cons_append, enumerate, ih, List.flatMap_assoc]
    congr 1
    funext j
    rw [enumerate, List.map_flatMap, List.flatMap_map]
    simp only [List.map_map]
    rfl

end Shape

end FiniteStructures
