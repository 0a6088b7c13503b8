import FiniteStructures.Proofs.Relation.Binary
import Mathlib.Data.Fintype.Pi
import Mathlib.Data.List.GetD

/-!
Essential relations.  A relation that ignores a coordinate is a cylinder over the other ones.  The
shadow of r along coordinate i is the least cylinder that contains r and ignores i,

    t in shadow i  ↔  changing coordinate i of t leads into r

so r is an intersection of cylinders exactly when it is that of its shadows
(`intersection_iff_no_witness`), and a tuple in all shadows that is not in r is a witness against
it.  The loop builds the complement of r and intersects it with one shadow after another
(`yields_narrowed`).
-/

namespace FiniteStructures

/-- Lists of one length that differ at most at one position. -/
theorem eq_set_of_eraseIdx_eq {α : Type} {a b : List α} {i : Nat} (lt : i < a.length)
    (length : a.length = b.length) (same : a.eraseIdx i = b.eraseIdx i) : a = b.set i a[i] := by
  rw [List.eraseIdx_eq_take_drop_succ, List.eraseIdx_eq_take_drop_succ] at same
  obtain ⟨front, back⟩ := List.append_inj same (by rw [List.length_take, List.length_take, length])
  calc a = a.take i ++ a[i] :: a.drop (i + 1) := by
        rw [← List.drop_eq_getElem_cons, List.take_append_drop]
    _ = b.set i a[i] := by
        rw [List.set_eq_take_append_cons_drop, if_pos (length ▸ lt), front, back]

/-- Changing a member of a tuple. -/
theorem set_ofFn {α : Type} {k : Nat} (f : Fin k → α) (i : Fin k) (a : α) :
    (List.ofFn f).set i a = List.ofFn (Function.update f i a) := by
  apply List.ext_getElem
  · rw [List.length_set, List.length_ofFn, List.length_ofFn]
  · intro j h₁ h₂
    rw [List.getElem_set, List.getElem_ofFn, List.getElem_ofFn, Function.update_apply]
    by_cases here : (i : Nat) = j
    · rw [if_pos here, if_pos (Fin.ext here.symm)]
    · rw [if_neg here, if_neg fun same => here (congrArg Fin.val same).symm]

namespace Relation

open Outcome Tensor

variable {safe : Prop} {k m : Nat} {r s : Relation Bool}

/-! ## Cylinders -/

/-- Whether a tuple is in the relation does not depend on its coordinate `i`: the relation is a
cylinder over one of the other coordinates. -/
def Ignores (s : Relation Bool) (m : Nat) (i : Fin k) : Prop :=
  ∀ (t : Fin k → Fin m) (v : Fin m), s.Contains t → s.Contains (Function.update t i v)

/-- The tuple enters the relation by a change of its coordinate `i`. -/
def Enters (r : Relation Bool) (t : Fin k → Fin m) (i : Fin k) : Prop :=
  ∃ v, r.Contains (Function.update t i v)

instance (r : Relation Bool) (t : Fin k → Fin m) (i : Fin k) : Decidable (r.Enters t i) :=
  inferInstanceAs (Decidable (∃ _, _))

/-- The tuple is not in the relation, but enters it along every single coordinate. -/
def Surrounded (r : Relation Bool) (t : Fin k → Fin m) : Prop :=
  ¬ r.Contains t ∧ ∀ i, r.Enters t i

theorem enters_of_contains {t : Fin k → Fin m} (h : r.Contains t) (i : Fin k) : r.Enters t i := by
  refine ⟨t i, ?_⟩
  rwa [Function.update_eq_self]

/-- A cylinder that contains the relation contains what enters it along the ignored coordinate. -/
theorem Ignores.contains {i : Fin k} (ignores : s.Ignores m i)
    (sub : ∀ t : Fin k → Fin m, r.Contains t → s.Contains t) {t : Fin k → Fin m}
    (h : r.Enters t i) : s.Contains t := by
  obtain ⟨v, entered⟩ := h
  have back := ignores _ (t i) (sub _ entered)
  rwa [Function.update_idem, Function.update_eq_self] at back

/-- The tuples that enter the relation along a coordinate. -/
def shadow (r : Relation Bool) (m : Nat) (i : Fin k) : Relation Bool :=
  ⟨tabulate (List.replicate k m) fun index =>
    ∃ t : Fin k → Fin m, index = (List.ofFn fun j => (t j : Nat)) ∧ r.Enters t i⟩

theorem contains_shadow {i : Fin k} {t : Fin k → Fin m} :
    (r.shadow m i).Contains t ↔ r.Enters t i := by
  refine ((table_tabulate _ _).holds _ (Shape.within_ofFn.mpr ⟨t, rfl⟩)).trans ?_
  constructor
  · rintro ⟨t', same, enters⟩
    have tuples : t = t' := funext fun j =>
      Fin.ext (congrFun (List.ofFn_injective same) j)
    rwa [tuples]
  · intro enters
    exact ⟨t, rfl, enters⟩

theorem ignores_shadow (i : Fin k) : (r.shadow m i).Ignores m i := by
  intro t v inside
  obtain ⟨w, entered⟩ := contains_shadow.mp inside
  refine contains_shadow.mpr ⟨w, ?_⟩
  rwa [Function.update_idem]

/-- The relation is an intersection of cylinders exactly when no tuple outside of it enters it along
every coordinate. -/
theorem intersection_iff_no_witness :
    (∃ family : Set (Relation Bool),
        (∀ s ∈ family, s.tensor.shape = List.replicate k m ∧ ∃ i : Fin k, s.Ignores m i) ∧
        ∀ t : Fin k → Fin m, r.Contains t ↔ ∀ s ∈ family, s.Contains t) ↔
      ¬ ∃ t : Fin k → Fin m, r.Surrounded t := by
  constructor
  · rintro ⟨family, cylinders, intersection⟩ ⟨t, outside, enters⟩
    refine outside ((intersection t).mpr ?_)
    intro s member
    obtain ⟨-, i, ignores⟩ := cylinders s member
    exact ignores.contains (fun t inside => (intersection t).mp inside s member) (enters i)
  · intro none
    refine ⟨Set.range (r.shadow m : Fin k → Relation Bool), ?_, ?_⟩
    · rintro _ ⟨i, rfl⟩
      exact ⟨rfl, i, ignores_shadow i⟩
    · intro t
      constructor
      · rintro inside _ ⟨i, rfl⟩
        exact contains_shadow.mpr (enters_of_contains inside i)
      · intro all
        by_contra outside
        exact none ⟨t, outside, fun i => contains_shadow.mp (all _ ⟨i, rfl⟩)⟩

/-! ## The loop over the coordinates -/

/-- Some change of coordinate `i` of the index leads into the relation. -/
def EntersAt (r : Relation Bool) (i : Nat) (index : List Nat) : Prop :=
  ∃ v, r.tensor.Holds (index.set i v)

theorem entersAt_ofFn (shape : r.tensor.shape = List.replicate k m) (i : Fin k)
    (t : Fin k → Fin m) : r.EntersAt i (List.ofFn fun j => (t j : Nat)) ↔ r.Enters t i := by
  have change (v : Fin m) : ((List.ofFn fun j => (t j : Nat)).set i v) =
      List.ofFn fun j => (Function.update t i v j : Nat) := by
    rw [set_ofFn]
    congr 1
    funext j
    exact (Function.apply_update (fun _ => Fin.val) t i v j).symm
  constructor
  · rintro ⟨v, holds⟩
    have within := holds.within
    rw [shape, Shape.within_replicate] at within
    have lt : v < m := within.2 v (List.mem_set (by simp) v)
    exact ⟨⟨v, lt⟩, by rwa [Contains, ← change ⟨v, lt⟩]⟩
  · rintro ⟨v, entered⟩
    refine ⟨v, ?_⟩
    rwa [Contains, ← change v] at entered

theorem pick_eraseIdx {index : List Nat} (length : index.length = k) (i : Nat) :
    pick index ((List.range k).eraseIdx i) = index.eraseIdx i := by
  have whole : (List.range k).map (fun axis => index.getD axis 0) = index := by
    subst length
    apply List.ext_getElem
    · rw [List.length_map, List.length_range]
    · intro j _ h
      rw [List.getElem_map, List.getElem_range, List.getD_eq_getElem _ _ h]
  unfold pick
  rw [← List.eraseIdx_map, whole]

/-- An index is over what is left of the relation without a coordinate exactly when some change of the
coordinate leads into the relation. -/
theorem some_left_iff {vars : List Char} (nodup : vars.Nodup) {i : Nat} (lt : i < vars.length)
    {index : List Nat} (length : index.length = vars.length) :
    (∃ τ : Point, (vars.eraseIdx i).map τ = index.eraseIdx i ∧ r.tensor.Holds (vars.map τ)) ↔
      r.EntersAt i index := by
  constructor
  · rintro ⟨τ, values, holds⟩
    have same : (vars.map τ).length = index.length := by rw [List.length_map, length]
    rw [← List.eraseIdx_map] at values
    rw [eq_set_of_eraseIdx_eq (by rwa [List.length_map]) same values] at holds
    exact ⟨_, holds⟩
  · rintro ⟨v, holds⟩
    have changed : (index.set i v).length = vars.length := by rw [List.length_set, length]
    obtain ⟨τ, values⟩ := Contraction.exists_map_eq nodup changed
    refine ⟨τ, ?_, ?_⟩
    · rw [← List.eraseIdx_map, values, List.eraseIdx_set_eq]
    · rwa [values]

/-- The cylinder over what is left of the relation without a coordinate. -/
theorem yields_cylinder (shape : r.tensor.shape = List.replicate k m) (few : k ≤ 52)
    (room : safe → Shape.Spacious m k) {i : Nat} (lt : i < k) :
    Yields safe (Table (List.replicate k m) (r.EntersAt i))
      (r.cylinder (Contraction.namePool.take k) i) := by
  let vars := Contraction.namePool.take k
  have length : vars.length = k := Contraction.length_names few
  have nodup : vars.Nodup := Contraction.nodup_names k
  have part : (vars.eraseIdx i).Sublist vars := List.eraseIdx_sublist vars i
  have rest : (vars.eraseIdx i).length = k - 1 := by
    rw [List.length_eraseIdx_of_lt (length ▸ lt), length]
  have size : r.size = .ok m := by
    obtain ⟨k, rfl⟩ := Nat.exists_eq_add_of_lt lt
    exact size_of_shape shape
  unfold cylinder
  rw [size, arity_of_shape shape]
  refine (Contraction.yields_shadow (by rw [shape, length]) nodup (nodup.sublist part)
    (fun _ hv => part.subset hv) (by rw [length]; exact room)).bind fun t ht => ?_
  have lands : Lands (List.replicate k m) (List.replicate (vars.eraseIdx i).length m)
      ((List.range k).eraseIdx i) := by
    refine lands_replicate ?_ fun axis here => ?_
    · rw [List.length_eraseIdx_of_lt (by rwa [List.length_range]), List.length_range, rest]
    · exact List.mem_range.mp ((List.eraseIdx_sublist _ i).subset here)
  have smaller (hs : safe) : Shape.Spacious m (vars.eraseIdx i).length :=
    (room hs).mono (by omega)
  refine (ht.reshape lands fun hs => ⟨(room hs).store, ?_⟩).mono fun u hu => hu.congr ?_
  · rw [List.length_replicate]
    exact (smaller hs).strides
  intro index within
  have index_length : index.length = k := (Shape.within_replicate.mp within).1
  rw [pick_eraseIdx index_length]
  exact some_left_iff nodup (length ▸ lt) (index_length.trans length.symm)

/-- A table is narrowed to the tuples that enter the relation along each of the coordinates. -/
theorem yields_narrowed (shape : r.tensor.shape = List.replicate k m) (few : k ≤ 52)
    (room : safe → Shape.Spacious m k) {coords : List Nat} (below : ∀ i ∈ coords, i < k)
    {P : List Nat → Prop} {t : Tensor Bool} (ht : Table (List.replicate k m) P t) :
    Yields safe (Table (List.replicate k m) fun index => P index ∧ ∀ i ∈ coords, r.EntersAt i index)
      (coords.foldlM (fun witness i => do
        witness.map2M BooleanDomain.and (← r.cylinder (Contraction.namePool.take k) i)) t) := by
  induction coords generalizing P t with
  | nil => exact .of_eq rfl (ht.congr fun index _ => by simp)
  | cons i coords ih =>
    obtain ⟨first, others⟩ := List.forall_mem_cons.mp below
    have step : Yields safe (Table (List.replicate k m) fun index => P index ∧ r.EntersAt i index)
        (do t.map2M BooleanDomain.and (← r.cylinder (Contraction.namePool.take k) i)) :=
      (yields_cylinder shape few room first).bind fun u hu =>
        Table.map2M (f := (· && ·)) (fun _ _ => rfl) (fun _ _ => Bool.and_eq_true_iff) ht hu
    rw [List.foldlM_cons]
    refine step.bind fun u hu => (ih others hu).mono fun v hv => hv.congr ?_
    intro index _
    rw [List.forall_mem_cons, and_assoc]

/-- The test looks for a surrounded tuple. -/
theorem yields_isEssential (shape : r.tensor.shape = List.replicate k m) (few : k ≤ 52)
    (room : safe → Shape.Spacious m k) :
    Yields safe (fun b => b = true ↔ ∃ t : Fin k → Fin m, r.Surrounded t) r.isEssential := by
  obtain ⟨outside, run, complement⟩ := complement_table (table_holds shape)
  unfold isEssential
  rw [arity_of_shape shape, Contraction.names_eq few, run]
  refine (yields_narrowed shape few room (fun i hi => List.mem_range.mp hi) complement).bind
    fun witness hw => .of_eq rfl (hw.any.trans ?_)
  have surrounded (t : Fin k → Fin m) : (¬ r.tensor.Holds (List.ofFn fun j => (t j : Nat)) ∧
      ∀ i ∈ List.range k, r.EntersAt i (List.ofFn fun j => (t j : Nat))) ↔ r.Surrounded t := by
    refine and_congr_right fun _ => ?_
    constructor
    · intro h i
      exact (entersAt_ofFn shape i t).mp (h i (List.mem_range.mpr i.isLt))
    · intro h i hi
      exact (entersAt_ofFn shape ⟨i, List.mem_range.mp hi⟩ t).mpr (h _)
  constructor
  · rintro ⟨index, within, h⟩
    obtain ⟨t, rfl⟩ := Shape.within_ofFn.mp within
    exact ⟨t, (surrounded t).mp h⟩
  · rintro ⟨t, h⟩
    exact ⟨_, Shape.within_ofFn.mpr ⟨t, rfl⟩, (surrounded t).mpr h⟩

/-- A relation of at most 52 coordinates is found essential exactly when some tuple outside of it
enters it along each coordinate, by a change of this coordinate alone; it is found not to be
essential exactly when it is the intersection of a family of relations on the same coordinates each
of which ignores one of them. -/
theorem isEssential_iff_no_cylinders (few : k ≤ 52)
    (shape : r.tensor.shape = List.replicate k m) :
    Yields r.tensor.Stored (fun b =>
        (b = true ↔ ∃ t : Fin k → Fin m, ¬ r.Contains t ∧
          ∀ i, ∃ v, r.Contains (Function.update t i v)) ∧
        (b = false ↔ ∃ family : Set (Relation Bool),
          (∀ s ∈ family, s.tensor.shape = List.replicate k m ∧ ∃ i : Fin k, s.Ignores m i) ∧
          ∀ t : Fin k → Fin m, r.Contains t ↔ ∀ s ∈ family, s.Contains t))
      r.isEssential := by
  refine (yields_isEssential shape few fun stored => stored.spacious shape).mono fun b hb =>
    ⟨hb, ?_⟩
  rw [intersection_iff_no_witness, ← hb, Bool.not_eq_true]

/-- The triples of truth values that are not all equal. -/
def notAllEqual : Relation Bool :=
  ⟨tabulate [2, 2, 2] fun t => t ≠ [0, 0, 0] ∧ t ≠ [1, 1, 1]⟩

/-- The triple (0, 0, 0) becomes one of them by any one change. -/
theorem isEssential_iff_no_cylinders_not_all_equal :
    3 ≤ 52 ∧ notAllEqual.tensor.shape = List.replicate 3 2 ∧
      notAllEqual.isEssential = .ok true := by
  refine ⟨by decide, rfl, ?_⟩
  obtain ⟨b, run, essential, -⟩ | ⟨narrow, -⟩ :=
    isEssential_iff_no_cylinders (k := 3) (m := 2) (r := notAllEqual) (by decide) rfl
  · have surrounded : ∃ t : Fin 3 → Fin 2, ¬ notAllEqual.Contains t ∧
        ∀ i, ∃ v, notAllEqual.Contains (Function.update t i v) :=
      ⟨fun _ => 0, by decide, by decide⟩
    rw [run, essential.mpr surrounded]
  · exact absurd ⟨by decide, by decide⟩ narrow

end Relation

end FiniteStructures
