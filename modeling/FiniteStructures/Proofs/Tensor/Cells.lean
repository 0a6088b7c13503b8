import FiniteStructures.Tensor.Basic
import FiniteStructures.Proofs.Tensor.Bounds
import FiniteStructures.Proofs.Tensor.Indices
import FiniteStructures.Proofs.Tensor.Traverse

/-!
Tensors as functions of their indices.  A tensor is given by its shape and what is got from it
(`ext_get`); each operation is described by the cells of the tensor it builds:

    generate  the cell that is computed from the index                       (get_of_generate)
    foldM     the aggregate of the cells at the indices that end with the index
                                                                             (yields_aggregates)

Over numbers `t.read index` is the cell at an index, zero elsewhere, and the operations are described
by what the tensor they build reads:

    map2M     the cells of both tensors at the index, multiplied
    foldM     the sum of the cells at the indices that end with the index    (yields_foldM)
-/

namespace FiniteStructures

open Outcome

variable {E F : Type} {safe : Prop}

/-! ## Blocks -/

/-- Lists of one length that were put together are found again as blocks. -/
theorem blocks_flatMap {α β : Type} {f : α → List β} {l : List α} {length : Nat}
    (h : ∀ a ∈ l, (f a).length = length) : blocks length l.length (l.flatMap f) = l.map f := by
  have extract (c : Nat) :
      ((l.flatMap f).toArray.extract (c * length) ((c + 1) * length)).toList =
        ((l.flatMap f).drop (c * length)).take length := by
    rw [Array.toList_extract, List.extract_eq_take_drop, Nat.add_mul, Nat.one_mul,
      Nat.add_sub_cancel_left]
  unfold blocks
  simp only [extract]
  induction l with
  | nil => rfl
  | cons a l ih =>
    have ha := h a List.mem_cons_self
    rw [List.length_cons, List.range_succ_eq_map, List.map_cons, List.map_map, List.flatMap_cons,
      List.map_cons, Nat.zero_mul, List.drop_zero, List.take_left' ha,
      ← ih fun b hb => h b (List.mem_cons_of_mem _ hb)]
    · congr 1
      refine List.map_congr_left fun c _ => ?_
      show (List.drop ((c + 1) * length) (f a ++ l.flatMap f)).take length = _
      rw [Nat.add_mul, Nat.one_mul, Nat.add_comm, ← List.drop_drop, List.drop_left' ha]
    · intro c
      rw [Array.toList_extract, List.extract_eq_take_drop, Nat.add_mul, Nat.one_mul,
        Nat.add_sub_cancel_left]

theorem blocks_map {α β : Type} (f : α → β) (length count : Nat) (l : List α) :
    blocks length count (l.map f) = (blocks length count l).map (List.map f) := by
  unfold blocks
  rw [List.map_map]
  refine List.map_congr_left fun c _ => ?_
  simp

namespace Tensor

/-! ## Cells -/

section Cells

variable {t u : Tensor E} {shape index : List Nat}

theorem inRange_of_within {dims : List Nat} (h : Shape.Within dims index) :
    inRange dims index = .ok () := by
  induction dims generalizing index with
  | nil => cases index <;> rfl
  | cons d ds ih => cases index with
    | nil => rfl
    | cons i is =>
      unfold inRange
      rw [if_pos h.1]
      exact ih h.2

/-- At an index of its shape, a tensor has the cell at the offset of the index. -/
theorem exists_cell (h : Shape.Within t.shape index) :
    ∃ e, t.elems[Shape.offset t.shape index]? = some e ∧ t.get index = .ok e := by
  have order : index.length = t.order := h.length
  have lt := Shape.offset_lt h
  rw [← t.length_elems] at lt
  refine ⟨_, List.getElem?_eq_getElem lt, ?_⟩
  unfold get
  simp only [order, ne_eq, not_true_eq_false, if_false, inRange_of_within h,
    List.getElem?_eq_getElem lt]
  rfl

/-- The cells are what is got at the indices, in their order. -/
theorem map_get (t : Tensor E) : (Shape.enumerate t.shape).map t.get = t.elems.map .ok := by
  apply List.ext_getElem
  · rw [List.length_map, List.length_map, Shape.length_enumerate, t.length_elems]
  · intro k h₁ h₂
    rw [List.length_map] at h₁ h₂
    obtain ⟨e, here, got⟩ := exists_cell (Shape.mem_enumerate.mp (List.getElem_mem h₁))
    rw [Shape.offset_getElem_enumerate, List.getElem?_eq_getElem h₂] at here
    rw [List.getElem_map, List.getElem_map, got, Option.some.inj here]

theorem map_ok_injective {α : Type} : Function.Injective (List.map (.ok : α → Outcome α)) :=
  List.map_injective_iff.mpr fun _ _ => Except.ok.inj

/-- Tensors of one shape with the same cell at each index are equal. -/
theorem ext_get (shapes : t.shape = u.shape)
    (cells : ∀ index, Shape.Within t.shape index → t.get index = u.get index) : t = u := by
  refine Tensor.ext shapes (map_ok_injective ?_)
  rw [← map_get, ← map_get, ← shapes]
  exact List.map_congr_left fun index here => cells index (Shape.mem_enumerate.mp here)

/-- The cells of a tensor that was generated are the ones that were computed. -/
theorem get_of_generate {cell : List Nat → Outcome E} (run : generate shape cell = .ok t) :
    t.shape = shape ∧ ∀ index, Shape.Within shape index → t.get index = cell index := by
  obtain ⟨_, -, rest⟩ := bind_ok run
  obtain ⟨⟨elems, length⟩, cells, given⟩ := bind_ok rest
  have whole : _ = t := Except.ok.inj given
  obtain rfl : t.shape = shape := by rw [← whole]
  obtain rfl : t.elems = elems := by rw [← whole]
  have steps : List.Forall₂ (fun a b => cell a = .ok b) (Shape.indices t.shape) t.elems :=
    forall₂_of_traverse cells
  have same : (Shape.enumerate t.shape).map cell = (Shape.enumerate t.shape).map t.get := by
    rw [map_get, ← List.forall₂_eq_eq_eq, List.forall₂_map_left_iff, List.forall₂_map_right_iff,
      ← Shape.indices_eq_enumerate]
    exact steps
  refine ⟨rfl, fun index within => ?_⟩
  exact (List.map_inj_left.mp same index (Shape.mem_enumerate.mpr within)).symm

theorem yields_generated {cell : List Nat → Outcome E}
    (room : safe → Shape.span shape < Count.storeLimit)
    (h : ∀ index, Shape.Within shape index → ∃ e, cell index = .ok e) :
    Yields safe (fun t : Tensor E => t.shape = shape ∧
      ∀ index, Shape.Within shape index → t.get index = cell index) (generate shape cell) := by
  have built : Yields safe (fun _ => True) (generate shape cell) := by
    unfold generate
    refine (Shape.yields_storable room).bind fun _ _ => ?_
    refine (Yields.traverse (R := fun _ _ => True) fun index here => ?_).bind fun _ _ =>
      .of_eq rfl trivial
    rw [Shape.indices_eq_enumerate, Shape.mem_enumerate] at here
    obtain ⟨e, computed⟩ := h index here
    exact .of_eq computed trivial
  exact built.known.mono fun t known => get_of_generate known.2

/-- The cells at the indices that end alike are a block of the store. -/
theorem map_blocks {s rest : List Nat} (shape : t.shape = s ++ rest) :
    (blocks (Shape.volume s) (Shape.volume rest) t.elems).map (List.map .ok) =
      (Shape.enumerate rest).map fun index =>
        (Shape.enumerate s).map fun front => t.get (front ++ index) := by
  rw [← blocks_map, ← map_get, shape, Shape.enumerate_append, List.map_flatMap,
    ← Shape.length_enumerate rest]
  simp only [List.map_map]
  exact blocks_flatMap fun index _ => by rw [List.length_map, Shape.length_enumerate]

/-- A cell made from each block is made from the cells at the indices that end with its own. -/
theorem get_of_blocks {s : List Nat} {u : Tensor F} {f : List E → F} (shape : t.shape = s ++ u.shape)
    (made : u.elems = (blocks (Shape.volume s) (Shape.volume u.shape) t.elems).map f)
    (within : Shape.Within u.shape index) :
    ∃ cells, (Shape.enumerate s).map (fun front => t.get (front ++ index)) = cells.map .ok ∧
      u.get index = .ok (f cells) := by
  obtain ⟨e, here, got⟩ := exists_cell within
  rw [made, List.getElem?_map] at here
  obtain ⟨cells, block, rfl⟩ := Option.map_eq_some_iff.mp here
  have below := congrArg (·[Shape.offset u.shape index]?) (map_blocks shape)
  simp only [List.getElem?_map, block, Shape.getElem?_enumerate within, Option.map_some,
    Option.some.injEq] at below
  exact ⟨cells, below.symm, got⟩

/-- The leading axes are aggregated away. -/
theorem yields_aggregates {s rest : List Nat} (shape : t.shape = s ++ rest)
    {sum : List E → Outcome F} {f : List E → F} (h : ∀ l, Yields safe (· = f l) (sum l))
    (room : safe → Shape.span t.shape < Count.storeLimit) :
    Yields safe (fun u : Tensor F => u.shape = rest ∧ ∀ index, Shape.Within rest index →
        ∃ cells, (Shape.enumerate s).map (fun front => t.get (front ++ index)) = cells.map .ok ∧
          u.get index = .ok (f cells))
      (t.foldM s.length sum) := by
  have split (hs : safe) : Shape.span s * Shape.span rest < Count.storeLimit := by
    rw [← Shape.span_append, ← shape]
    exact room hs
  have left (hs : safe) : Shape.span s < Count.limit :=
    Nat.lt_trans (Nat.lt_of_le_of_lt (Nat.le_mul_of_pos_right _ (Shape.span_pos rest)) (split hs))
      (by decide)
  have right (hs : safe) : Shape.span rest < Count.storeLimit :=
    Nat.lt_of_le_of_lt (Nat.le_mul_of_pos_left _ (Shape.span_pos s)) (split hs)
  unfold foldM
  have order : ¬ s.length > t.order := by
    unfold order
    rw [shape, List.length_append]
    omega
  have takes : t.shape.take s.length = s := by rw [shape, List.take_left]
  have drops : t.shape.drop s.length = rest := by rw [shape, List.drop_left]
  simp only [order, if_false, takes]
  refine (Shape.yields_cells left).bind fun block hblock => ?_
  subst hblock
  refine (Shape.yields_storable (by rwa [drops])).bind fun _ _ => ?_
  refine (Yields.traverse_map (g := f) fun l _ => h l).bind fun r hr => ?_
  refine .of_eq rfl ⟨drops, fun index within => ?_⟩
  have whole : t.shape = s ++ t.shape.drop s.length := by rw [drops, shape]
  have inside : Shape.Within (t.shape.drop s.length) index := by rwa [drops]
  exact get_of_blocks whole hr inside

end Cells

/-! ## Reading -/

/-- The cell at an index, zero where there is none. -/
def read [Zero E] (t : Tensor E) (index : List Nat) : E :=
  t.elems.getD (Shape.offset t.shape index) 0

variable [Zero E] {t : Tensor E}

theorem getElem?_elems {index : List Nat} (h : Shape.Within t.shape index) :
    t.elems[Shape.offset t.shape index]? = some (t.read index) := by
  have lt := Shape.offset_lt h
  rw [← t.length_elems] at lt
  unfold read
  rw [List.getD_eq_getElem?_getD, List.getElem?_eq_getElem lt, Option.getD_some]

/-- At an index of its shape, the tensor has the cell that it reads. -/
theorem get_eq {index : List Nat} (h : Shape.Within t.shape index) :
    t.get index = .ok (t.read index) := by
  obtain ⟨e, here, got⟩ := exists_cell h
  rw [getElem?_elems h] at here
  rw [got, Option.some.inj here]

/-- A tensor is given by what it reads. -/
theorem elems_eq (t : Tensor E) : t.elems = (Shape.enumerate t.shape).map t.read := by
  refine map_ok_injective ?_
  rw [← map_get, List.map_map]
  exact List.map_congr_left fun index here => get_eq (Shape.mem_enumerate.mp here)

theorem read_of_elems {f : List Nat → E} (h : t.elems = (Shape.enumerate t.shape).map f)
    {index : List Nat} (within : Shape.Within t.shape index) : t.read index = f index := by
  have cell := getElem?_elems within
  rw [h, List.getElem?_map, Shape.getElem?_enumerate within, Option.map_some] at cell
  exact (Option.some.inj cell).symm

/-! ## Building -/

/-- The tensor of the shape that reads the values of a function. -/
def Reads (shape : List Nat) (f : List Nat → E) (t : Tensor E) : Prop :=
  t.shape = shape ∧ ∀ index, Shape.Within shape index → t.read index = f index

theorem reads_of_elems {shape : List Nat} {f : List Nat → E} (hs : t.shape = shape)
    (h : t.elems = (Shape.enumerate shape).map f) : Reads shape f t := by
  subst hs
  exact ⟨rfl, fun _ => read_of_elems h⟩

theorem yields_generate {shape : List Nat} {cell : List Nat → Outcome E} {f : List Nat → E}
    (room : safe → Shape.span shape < Count.storeLimit)
    (h : ∀ index, Shape.Within shape index → Yields safe (· = f index) (cell index)) :
    Yields safe (Reads shape f) (generate shape cell) := by
  unfold generate
  refine (Shape.yields_storable room).bind fun _ _ => ?_
  have within {index : List Nat} (hi : index ∈ Shape.indices shape) : Shape.Within shape index := by
    rwa [Shape.indices_eq_enumerate, Shape.mem_enumerate] at hi
  refine (Yields.traverse_map fun index hi => h index (within hi)).bind fun r hr => ?_
  exact .of_eq rfl (reads_of_elems rfl (hr.trans (by rw [Shape.indices_eq_enumerate])))

theorem yields_map2M {op : E → E → Outcome E} {f : E → E → E}
    (h : ∀ a b, Yields safe (· = f a b) (op a b)) {u : Tensor E} (shapes : t.shape = u.shape) :
    Yields safe (Reads t.shape fun index => f (t.read index) (u.read index)) (t.map2M op u) := by
  have zipped : t.elems.zip u.elems =
      (Shape.enumerate t.shape).map fun index => (t.read index, u.read index) := by
    rw [elems_eq t, elems_eq u, ← shapes, List.zip_map']
  unfold map2M
  rw [dif_pos shapes]
  refine (Yields.traverse_map (g := fun p => f p.1 p.2) fun p _ => h p.1 p.2).bind fun r hr => ?_
  refine .of_eq rfl (reads_of_elems rfl ?_)
  exact hr.trans (by rw [zipped, List.map_map]; rfl)

/-- The leading axes are summed out. -/
theorem yields_foldM {s rest : List Nat} (shape : t.shape = s ++ rest)
    {sum : List E → Outcome E} {f : List E → E} (h : ∀ l, Yields safe (· = f l) (sum l))
    (room : safe → Shape.span t.shape < Count.storeLimit) :
    Yields safe
      (Reads rest fun index => f ((Shape.enumerate s).map fun front => t.read (front ++ index)))
      (t.foldM s.length sum) := by
  refine (yields_aggregates shape h room).mono fun u hu => ⟨hu.1, fun index within => ?_⟩
  obtain ⟨cells, below, got⟩ := hu.2 index within
  have read : (Shape.enumerate s).map (fun front => t.read (front ++ index)) = cells := by
    refine map_ok_injective (below.symm.trans ?_).symm
    rw [List.map_map]
    refine List.map_congr_left fun front here => get_eq ?_
    rw [shape]
    exact Shape.within_append (Shape.mem_enumerate.mp here) within
  rw [get_eq (hu.1 ▸ within), ← read] at got
  exact Except.ok.inj got

end Tensor

end FiniteStructures
