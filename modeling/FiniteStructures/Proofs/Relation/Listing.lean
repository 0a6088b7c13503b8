import FiniteStructures.Proofs.Relation.Tuples
import FiniteStructures.Proofs.Tensor.Odometers
import FiniteStructures.Proofs.Tensor.Room

/-!
Relations and lists of tuples.  The tuples of a relation are listed in the order of the store, each one
once (`Tensor.tuples_eq`); the relation made from a list has the tuples of the list
(`Relation.yields_ofTuples`).  So a relation is made again from its tuples, and a list is sorted when it
is made into a relation whose tuples are listed.

Both directions rest on the one numbering of the indices: the loop that fills a tensor, the run that
lists the tuples and the strides by which cells are found and marked agree on it
(`index_orders_agree`).
-/

namespace FiniteStructures

open Outcome

/-! ## The numbering -/

namespace Shape

variable {shape index : List Nat}

/-- The indices stand in the order of their offsets. -/
theorem pairwise_offset (shape : List Nat) :
    (enumerate shape).Pairwise fun s t => offset shape s < offset shape t := by
  have numbers := List.pairwise_lt_range (n := volume shape)
  rw [← map_offset_enumerate, List.pairwise_map] at numbers
  exact numbers

theorem getElem?_enumerate_iff {p : Nat} :
    (enumerate shape)[p]? = some index ↔ Within shape index ∧ offset shape index = p := by
  constructor
  · intro here
    obtain ⟨lt, rfl⟩ := List.getElem?_eq_some_iff.mp here
    exact ⟨mem_enumerate.mp (List.getElem_mem lt), offset_getElem_enumerate lt⟩
  · rintro ⟨within, rfl⟩
    exact getElem?_enumerate within

/-- No two indices have one offset. -/
theorem offset_inj {other : List Nat} (h : Within shape index) (h' : Within shape other)
    (same : offset shape index = offset shape other) : index = other := by
  have here := getElem?_enumerate h
  rw [same, getElem?_enumerate h'] at here
  exact (Option.some.inj here).symm

theorem storable_of_cells {shape : List Nat} {count : Nat} (counted : cells shape = .ok count) :
    Yields (count < Count.storeLimit) (fun _ => True) (storable shape) := by
  unfold storable
  rw [counted]
  exact (Count.yields_store id).bind fun _ _ => .of_eq rfl trivial

end Shape

/-! ## Tensors -/

namespace Tensor

variable {E : Type} {t : Tensor Bool} {shape index : List Nat}

/-- Whatever shape has a number of cells, a tensor with the values of a function is generated, unless
there are too many cells to be stored. -/
theorem yields_function {count : Nat} (counted : Shape.cells shape = .ok count)
    (f : List Nat → E) :
    Yields (count < Count.storeLimit) (fun t : Tensor E => t.shape = shape ∧
        ∀ index, Shape.Within shape index → t.get index = .ok (f index))
      (generate shape fun index => .ok (f index)) := by
  have built : Yields (count < Count.storeLimit) (fun _ => True)
      (generate shape fun index => (.ok (f index) : Outcome E)) := by
    unfold generate
    refine (Shape.storable_of_cells counted).bind fun _ _ => ?_
    rw [traverse_ok fun index _ => rfl]
    exact .of_eq rfl trivial
  exact built.known.mono fun t known => get_of_generate known.2

theorem holds_iff_cell (within : Shape.Within t.shape index) :
    t.Holds index ↔ t.elems[Shape.offset t.shape index]? = some true := by
  obtain ⟨e, here, got⟩ := exists_cell within
  rw [Holds, got, here]
  simp

/-- The tuples are the indices that hold, in the order of the store. -/
theorem tuples_eq (t : Tensor Bool) :
    t.tuples = (Shape.enumerate t.shape).filter fun index => t.Holds index := by
  have cells : t.elems = (Shape.enumerate t.shape).map fun index => decide (t.Holds index) := by
    refine map_ok_injective ?_
    rw [← map_get, List.map_map]
    exact List.map_congr_left fun index here => get_decide (Shape.mem_enumerate.mp here)
  have pairs : (Shape.enumerate t.shape).zip t.elems =
      (Shape.enumerate t.shape).map fun index => (index, decide (t.Holds index)) := by
    rw [cells]
    nth_rewrite 1 [← List.map_id (Shape.enumerate t.shape)]
    exact List.zip_map'
  unfold tuples
  rw [Odometer.toList_eq, Shape.indices_eq_enumerate, pairs, List.filterMap_map,
    ← List.filterMap_eq_filter]
  exact List.filterMap_congr fun index _ => by simp [Option.guard]

theorem mem_tuples : index ∈ t.tuples ↔ t.Holds index := by
  rw [tuples_eq, List.mem_filter, Shape.mem_enumerate, decide_eq_true_iff]
  exact and_iff_right_of_imp Holds.within

theorem pairwise_tuples (t : Tensor Bool) :
    t.tuples.Pairwise fun i j => Shape.offset t.shape i < Shape.offset t.shape j := by
  rw [tuples_eq]
  exact (Shape.pairwise_offset t.shape).filter _

end Tensor

/-! ## Relations -/

namespace Relation

variable {k n : Nat} {listed : List (List Nat)} {r : Relation Bool}

/-- The cells after those of the listed tuples were marked. -/
def marked (shape : List Nat) (listed : List (List Nat)) (cells : List Bool) : List Bool :=
  listed.foldl (fun cells tuple => cells.set (Shape.offset shape tuple) true) cells

theorem length_marked (shape : List Nat) (listed : List (List Nat)) (cells : List Bool) :
    (marked shape listed cells).length = cells.length := by
  induction listed generalizing cells with
  | nil => rfl
  | cons tuple rest ih => exact (ih _).trans List.length_set

/-- A cell is true if it was so before, or if it is that of a listed tuple. -/
theorem getElem?_marked {shape : List Nat} {cells : List Bool} {p : Nat} (lt : p < cells.length) :
    (marked shape listed cells)[p]? = some true ↔
      cells[p]? = some true ∨ ∃ tuple ∈ listed, Shape.offset shape tuple = p := by
  induction listed generalizing cells with
  | nil => simp [marked]
  | cons tuple rest ih =>
    show (marked shape rest (cells.set (Shape.offset shape tuple) true))[p]? = some true ↔ _
    rw [ih (by rwa [List.length_set]), List.getElem?_set, List.exists_mem_cons_iff]
    by_cases same : Shape.offset shape tuple = p
    · simp [same, lt]
    · simp [same]

/-- Tuples of the set are marked one after the other. -/
theorem markTuples_inside (inside : ∀ tuple ∈ listed, Shape.Within (List.replicate k n) tuple)
    (shape : List Nat) (cells : List Bool) :
    markTuples n k shape listed cells = .ok (marked shape listed cells) := by
  induction listed generalizing cells with
  | nil => rfl
  | cons tuple rest ih =>
    obtain ⟨first, others⟩ := List.forall_mem_cons.mp inside
    obtain ⟨length, below⟩ := Shape.within_replicate.mp first
    have found : ¬ tuple.any (· ≥ n) = true := by simpa using below
    rw [markTuples, if_neg (not_not.mpr length), if_neg found]
    exact ih others _

/-- With the cells of the listed tuples marked and no others, a tensor is the table of the list. -/
theorem table_marked {shape : List Nat} {t : Tensor Bool}
    (inside : ∀ tuple ∈ listed, Shape.Within shape tuple) (hs : t.shape = shape)
    (cells : t.elems = marked shape listed (List.replicate (Shape.volume shape) false)) :
    Tensor.Table shape (· ∈ listed) t := by
  refine ⟨hs, fun index within => ?_⟩
  have lt : Shape.offset shape index < (List.replicate (Shape.volume shape) false).length := by
    rw [List.length_replicate]
    exact Shape.offset_lt within
  have blank : ¬ (List.replicate (Shape.volume shape) false)[Shape.offset shape index]? =
      some true := by
    simp [List.getElem?_replicate]
  rw [Tensor.holds_iff_cell (hs ▸ within), hs, cells, getElem?_marked lt, or_iff_right blank]
  constructor
  · rintro ⟨tuple, here, same⟩
    rwa [← Shape.offset_inj (inside tuple here) within same]
  · exact fun here => ⟨index, here, rfl⟩

/-- The relation that is made from a list has the listed tuples. -/
theorem yields_ofTuples (pos : 0 < k)
    (inside : ∀ tuple ∈ listed, Shape.Within (List.replicate k n) tuple) :
    Yields (k < Count.storeLimit ∧ n ^ k < Count.storeLimit)
      (fun r : Relation Bool => Tensor.Table (List.replicate k n) (· ∈ listed) r.tensor)
      (ofTuples n k listed) := by
  have room (hs : k < Count.storeLimit ∧ n ^ k < Count.storeLimit) :
      Shape.span (List.replicate k n) < Count.storeLimit :=
    (Shape.spacious_of_volume hs.1 (by rw [Shape.volume_replicate]; exact hs.2)).store
  have whole : (marked (List.replicate k n) listed
      (List.replicate (Shape.volume (List.replicate k n)) false)).length =
        Shape.volume (List.replicate k n) := by
    rw [length_marked, List.length_replicate]
  unfold ofTuples
  refine (Shape.yields_uniform And.left).bind fun shape filled => ?_
  subst filled
  refine (Shape.yields_storable room).bind fun _ _ => ?_
  rw [markTuples_inside inside]
  show Yields _ _ (Tensor.ofList _ _ >>= ofTensor)
  unfold Tensor.ofList
  rw [bind_assoc]
  refine (Shape.yields_cells fun hs => Nat.lt_trans (room hs) (by decide)).bind fun _ _ => ?_
  rw [dif_pos whole]
  exact .of_eq (ofTensor_of_pos pos rfl) (table_marked inside rfl rfl)

/-- A relation is made again from its tuples. -/
theorem ofTuples_tuples (pos : 0 < k) (shape : r.tensor.shape = List.replicate k n)
    (stored : r.tensor.Stored) : ofTuples n k r.tuples = .ok r := by
  obtain ⟨axes, cells⟩ := stored
  rw [shape, List.length_replicate] at axes
  rw [r.tensor.length_elems, shape, Shape.volume_replicate] at cells
  have inside : ∀ tuple ∈ r.tuples, Shape.Within (List.replicate k n) tuple :=
    fun tuple here => shape ▸ (Tensor.mem_tuples.mp here).within
  obtain ⟨s, run, table⟩ := (yields_ofTuples pos inside).of_safe ⟨axes, cells⟩
  have same : s.tensor = r.tensor :=
    (table.congr fun _ _ => Tensor.mem_tuples).unique (Tensor.table_holds shape)
  rw [run, show s = r from congrArg Relation.mk same]

/-- The tuples of a relation that is made from a list are those of the list, in the order of the
store. -/
theorem yields_sorted (pos : 0 < k)
    (inside : ∀ tuple ∈ listed, Shape.Within (List.replicate k n) tuple) :
    Yields (k < Count.storeLimit ∧ n ^ k < Count.storeLimit)
      (fun r : Relation Bool =>
        (r.tuples.Pairwise fun s t =>
          Shape.offset (List.replicate k n) s < Shape.offset (List.replicate k n) t) ∧
        ∀ tuple, tuple ∈ r.tuples ↔ tuple ∈ listed)
      (ofTuples n k listed) := by
  refine (yields_ofTuples pos inside).mono fun r table => ⟨?_, fun tuple => ?_⟩
  · rw [← table.shape_eq]
    exact Tensor.pairwise_tuples r.tensor
  · rw [tuples, Tensor.mem_tuples, table.iff]
    exact and_iff_right_of_imp (inside tuple)

end Relation

/-! ## Agreement -/

/-- A loop through the indices of a shape and a run through them meet the same indices: each one in
range exactly once, and at position p the one whose offset is p.  So a tensor has the value of the
function at each index, if its cells can be counted and stored.

For at least one coordinate, a relation is made again from its tuples, and the tuples of a relation
that is made from a list in range are those of the list in the order of the store, each one once. -/
theorem index_orders_agree :
    (∀ shape : List Nat,
      (Odometer.start shape).Gives (Shape.indices shape) ∧
      Odometer.toList shape = Shape.indices shape ∧
      (Shape.indices shape).Nodup ∧
      (∀ index, index ∈ Shape.indices shape ↔ Shape.Within shape index) ∧
      ∀ p index, (Shape.indices shape)[p]? = some index ↔
        Shape.Within shape index ∧ Shape.offset shape index = p) ∧
    (∀ {E : Type} (t : Tensor E), (Shape.indices t.shape).map t.get = t.elems.map .ok) ∧
    (∀ {E : Type} (shape : List Nat) (count : Nat) (f : List Nat → E),
      Shape.cells shape = .ok count →
      Yields (count < Count.storeLimit) (fun t : Tensor E => t.shape = shape ∧
          ∀ index, Shape.Within shape index → t.get index = .ok (f index))
        (Tensor.generate shape fun index => .ok (f index))) ∧
    ∀ k n : Nat, 0 < k →
      (∀ r : Relation Bool, r.tensor.shape = List.replicate k n → r.tensor.Stored →
        Relation.ofTuples n k r.tuples = .ok r) ∧
      ∀ listed : List (List Nat), (∀ tuple ∈ listed, Shape.Within (List.replicate k n) tuple) →
        Yields (k < Count.storeLimit ∧ n ^ k < Count.storeLimit)
          (fun r : Relation Bool =>
            (r.tuples.Pairwise fun s t =>
              Shape.offset (List.replicate k n) s < Shape.offset (List.replicate k n) t) ∧
            ∀ tuple, tuple ∈ r.tuples ↔ tuple ∈ listed)
          (Relation.ofTuples n k listed) := by
  refine ⟨fun shape => ⟨Odometer.gives_start shape, Odometer.toList_eq shape, ?_, fun index => ?_,
    fun p index => ?_⟩, fun t => ?_, fun shape count f counted => ?_, fun k n pos => ⟨?_, ?_⟩⟩
  · rw [Shape.indices_eq_enumerate]
    exact Shape.nodup_enumerate shape
  · rw [Shape.indices_eq_enumerate]
    exact Shape.mem_enumerate
  · rw [Shape.indices_eq_enumerate]
    exact Shape.getElem?_enumerate_iff
  · rw [Shape.indices_eq_enumerate]
    exact Tensor.map_get t
  · exact Tensor.yields_function counted f
  · exact fun r shape stored => Relation.ofTuples_tuples pos shape stored
  · exact fun listed inside => Relation.yields_sorted pos inside

/-- A tensor of two rows that holds its indices; the strict order of three numbers; and a relation from
a list with a tuple that stands there twice. -/
theorem index_orders_agree_three :
    let less : Relation Bool :=
      ⟨⟨[3, 3], [false, false, false, true, false, false, true, true, false], rfl⟩⟩
    (Shape.cells [3, 2] = .ok 6 ∧ ∃ t : Tensor (List Nat),
      Tensor.generate [3, 2] (fun index => (.ok index : Outcome (List Nat))) = .ok t ∧
      t.get [2, 1] = .ok [2, 1]) ∧
    (less.tensor.shape = List.replicate 2 3 ∧ less.tensor.Stored ∧
      Relation.ofTuples 3 2 less.tuples = .ok less) ∧
    (∀ tuple ∈ [[2, 1], [0, 1], [2, 1]], Shape.Within [3, 3] tuple) ∧
    ∃ r, Relation.ofTuples 3 2 [[2, 1], [0, 1], [2, 1]] = .ok r ∧
      (r.tuples.Pairwise fun s t => Shape.offset [3, 3] s < Shape.offset [3, 3] t) ∧
      ∀ tuple, tuple ∈ r.tuples ↔ tuple ∈ [[2, 1], [0, 1], [2, 1]] := by
  intro less
  obtain ⟨-, -, generated, relations⟩ := index_orders_agree
  obtain ⟨again, sorted⟩ := relations 2 3 (by decide)
  have stored : less.tensor.Stored := ⟨by decide, by decide⟩
  have inside : ∀ tuple ∈ [[2, 1], [0, 1], [2, 1]], Shape.Within [3, 3] tuple :=
    by simp [Shape.Within]
  refine ⟨⟨rfl, ?_⟩, ⟨rfl, stored, again less rfl stored⟩, inside, ?_⟩
  · obtain ⟨t, run, -, cells⟩ := (generated [3, 2] 6 (fun index => index) rfl).of_safe (by decide)
    exact ⟨t, run, cells [2, 1] ⟨by decide, by decide, trivial⟩⟩
  · obtain ⟨r, run, order, members⟩ := (sorted _ inside).of_safe ⟨by decide, by decide⟩
    exact ⟨r, run, order, members⟩

end FiniteStructures
