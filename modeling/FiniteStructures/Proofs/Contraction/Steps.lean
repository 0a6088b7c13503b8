import FiniteStructures.Proofs.Contraction.Entries

/-!
The steps of a contraction.  An entry that fits the sizes of its variables is a function of them;
reducing it sums out the variables that do not stay, joining two entries multiplies them:

    (reduce … e).cell ρ    =  sumOver … e.cell ρ            (yields_reduce)
    (join … a b).cell ρ    =  a.cell ρ * b.cell ρ           (yields_join)
-/

namespace FiniteStructures

open Outcome

namespace Shape

theorem span_perm {s t : List Nat} (h : s.Perm t) : span s = span t := by
  induction h with
  | nil => rfl
  | cons d _ ih => rw [span, span, ih]
  | swap d d' ds => rw [span, span, span, span, Nat.mul_left_comm]
  | trans _ _ ih ih' => exact ih.trans ih'

theorem span_sublist {s t : List Nat} (h : s.Sublist t) : span s ≤ span t := by
  induction h with
  | slnil => exact Nat.le_refl _
  | cons d _ ih => exact Nat.le_trans ih (Nat.le_mul_of_pos_left _ (by omega))
  | cons_cons d _ ih => exact Nat.mul_le_mul_left _ ih

end Shape

namespace Contraction

/-! ## Room -/

/-- Tensors over any of the variables, each of which is an axis at most once, can be stored. -/
def Room (sizes : Sizes) : Prop :=
  (sizes.length + 1) * Shape.span (shapeOf sizes (bound sizes)) < Count.storeLimit

/-- The same without a margin: such tensors can be stored, and have strides that are counts. -/
structure Spacious (sizes : Sizes) : Prop where
  store : Shape.span (shapeOf sizes (bound sizes)) < Count.storeLimit
  strides : (sizes.length + 1) * Shape.span (shapeOf sizes (bound sizes)) < Count.limit

theorem Room.spacious {sizes : Sizes} (h : Room sizes) : Spacious sizes :=
  ⟨Nat.lt_of_le_of_lt (Nat.le_mul_of_pos_left _ (Nat.succ_pos sizes.length)) h,
    Nat.lt_trans h (by decide)⟩

theorem span_le_bound {sizes : Sizes} {vars : List Char} (distinct : vars.Nodup)
    (known : ∀ v ∈ vars, v ∈ bound sizes) :
    vars.length ≤ sizes.length ∧
      Shape.span (shapeOf sizes vars) ≤ Shape.span (shapeOf sizes (bound sizes)) := by
  obtain ⟨part, perm, sub⟩ := List.subperm_of_subset distinct known
  constructor
  · have := sub.length_le
    rwa [perm.length_eq, bound, List.length_map] at this
  · have same : Shape.span (shapeOf sizes part) = Shape.span (shapeOf sizes vars) :=
      Shape.span_perm (perm.map (axisSize sizes))
    rw [← same]
    exact Shape.span_sublist (sub.map (axisSize sizes))

end Contraction

namespace Entry

open Contraction

variable {E : Type} {safe : Prop}

/-! ## Entries -/

/-- The strides of the tensor are counts. -/
def Room (e : Entry E) : Prop :=
  (e.tensor.shape.length + 1) * Shape.span e.tensor.shape < Count.limit

/-- The axes have the sizes of their variables. -/
structure Fits (sizes : Sizes) (e : Entry E) : Prop where
  shape : e.tensor.shape = shapeOf sizes e.vars
  known : ∀ v ∈ e.vars, v ∈ bound sizes

/-- An entry whose variables are distinct has room, if there is room at all. -/
theorem Fits.room {sizes : Sizes} {e : Entry E} (h : e.Fits sizes) (distinct : e.vars.Nodup)
    (room : Contraction.Spacious sizes) : e.Room := by
  obtain ⟨length, span⟩ := span_le_bound distinct h.known
  have order : e.tensor.shape.length = e.vars.length := by rw [h.shape, shapeOf, List.length_map]
  unfold Room
  rw [order, h.shape]
  exact Nat.lt_of_le_of_lt (Nat.mul_le_mul (Nat.succ_le_succ length) span) room.strides

/-- The cell at the values of the variables. -/
def cell [Zero E] (e : Entry E) (ρ : Point) : E := e.tensor.read (e.vars.map ρ)

theorem dependsOn_cell [Zero E] (e : Entry E) : DependsOn e.cell {v | v ∈ e.vars} := by
  intro ρ τ agree
  exact congrArg e.tensor.read (List.map_congr_left fun v hv => agree v hv)

end Entry

namespace Contraction

variable {E : Type} {safe : Prop} {sizes : Sizes}

theorem room_store {vars : List Char} (distinct : vars.Nodup)
    (known : ∀ v ∈ vars, v ∈ bound sizes) (room : Spacious sizes) :
    Shape.span (shapeOf sizes vars) < Count.storeLimit :=
  Nat.lt_of_le_of_lt (span_le_bound distinct known).2 room.store

/-- A tensor over distinct variables that reads the cells of an entry. -/
def Spreads [Zero E] (sizes : Sizes) (e : Entry E) (vars : List Char) (t : Tensor E) : Prop :=
  t.shape = shapeOf sizes vars ∧
    ∀ ρ, Inside sizes vars ρ → t.read (vars.map ρ) = e.cell ρ

/-- An entry can be spread over more variables. -/
theorem yields_spread [Zero E] {e : Entry E} (fits : e.Fits sizes) {vars : List Char}
    (distinct : vars.Nodup) (known : ∀ v ∈ vars, v ∈ bound sizes) (sub : ∀ v ∈ e.vars, v ∈ vars)
    (room : safe → Spacious sizes ∧ e.Room) :
    Yields safe (Spreads sizes e vars)
      (e.tensor.reshape (shapeOf sizes vars) (positions e.vars vars)) := by
  have lands : Tensor.Lands (shapeOf sizes vars) e.tensor.shape (positions e.vars vars) := by
    rw [fits.shape]
    exact lands_positions sub
  refine (Tensor.yields_reshape lands fun hs => ⟨?_, (room hs).2⟩).mono fun t h => ⟨h.1, ?_⟩
  · exact room_store distinct known (room hs).1
  · intro ρ inside
    refine (h.2 _ inside.within).trans (congrArg e.tensor.read ?_)
    exact pick_positions sub ρ

/-! ## Reducing -/

/-- The variables of an entry that are summed out. -/
def summed (stay : Char → Bool) (e : Entry E) : List Char := (distinct e.vars).filter fun v => !stay v

/-- What reducing an entry leaves. -/
structure Reduced [CommSemiring E] (sizes : Sizes) (stay : Char → Bool) (e r : Entry E) : Prop where
  vars : r.vars = (distinct e.vars).filter stay
  fits : r.Fits sizes
  cell : ∀ ρ, Inside sizes r.vars ρ →
    r.cell ρ = sumOver (axisSize sizes) (summed stay e) e.cell ρ

theorem mem_summed {stay : Char → Bool} {e : Entry E} {v : Char} :
    v ∈ summed stay e ↔ v ∈ e.vars ∧ stay v = false := by
  rw [summed, List.mem_filter, mem_distinct, Bool.not_eq_true']

theorem mem_kept {stay : Char → Bool} {e : Entry E} {v : Char} :
    v ∈ (distinct e.vars).filter stay ↔ v ∈ e.vars ∧ stay v = true := by
  rw [List.mem_filter, mem_distinct]

theorem nodup_summed (stay : Char → Bool) (e : Entry E) : (summed stay e).Nodup :=
  (nodup_distinct _).filter _

/-- The variables that are summed out come first, then those that stay. -/
theorem nodup_split (stay : Char → Bool) (e : Entry E) :
    (summed stay e ++ (distinct e.vars).filter stay).Nodup := by
  refine List.nodup_append'.mpr ⟨nodup_summed stay e, (nodup_distinct _).filter _, ?_⟩
  intro v hv hv'
  have moves := (mem_summed.mp hv).2
  rw [(mem_kept.mp hv').2] at moves
  cases moves

theorem mem_split {stay : Char → Bool} {e : Entry E} {v : Char} :
    v ∈ summed stay e ++ (distinct e.vars).filter stay ↔ v ∈ e.vars := by
  rw [List.mem_append, mem_summed, mem_kept, ← and_or_left]
  cases stay v <;> simp

variable [CommSemiring E] {ops : SemiringOps E Outcome}

/-- Summing out the leading variables of a spread entry. -/
theorem reduced_of_spreads {e r : Entry E} {stay : Char → Bool} (fits : e.Fits sizes)
    {t : Tensor E} (spreads : Spreads sizes e (summed stay e ++ (distinct e.vars).filter stay) t)
    (vars : r.vars = (distinct e.vars).filter stay)
    (reads : Tensor.Reads (shapeOf sizes ((distinct e.vars).filter stay)) (fun index =>
      ((Shape.enumerate (shapeOf sizes (summed stay e))).map fun front =>
        t.read (front ++ index)).sum) r.tensor) :
    Reduced sizes stay e r := by
  refine ⟨vars, ⟨vars ▸ reads.1, ?_⟩, ?_⟩
  · intro v hv
    rw [vars] at hv
    exact fits.known v (mem_kept.mp hv).1
  · intro ρ inside
    rw [vars] at inside
    have value := reads.2 _ inside.within
    dsimp only at value
    rw [sum_enumerate (nodup_summed stay e) _ ρ] at value
    unfold Entry.cell
    rw [vars, value]
    refine sumOver_congr ?_
    intro τ within same
    have kept : ((distinct e.vars).filter stay).map ρ = ((distinct e.vars).filter stay).map τ := by
      refine List.map_congr_left fun v hv => (same v ?_).symm
      intro hs
      exact List.disjoint_of_nodup_append (nodup_split stay e) hs hv
    rw [kept, ← List.map_append]
    refine spreads.2 τ ?_
    intro v hv
    rcases List.mem_append.mp hv with hv | hv
    · exact within v hv
    · rw [same v fun hs => List.disjoint_of_nodup_append (nodup_split stay e) hs hv]
      exact inside v hv

theorem yields_reduce (computes : ops.Computes safe) {e : Entry E} (fits : e.Fits sizes)
    (room : safe → Spacious sizes ∧ e.Room) (stay : Char → Bool) :
    Yields safe (Reduced sizes stay e) (reduce ops sizes stay e) := by
  let target := summed stay e ++ (distinct e.vars).filter stay
  have known : ∀ v ∈ target, v ∈ bound sizes := fun v hv => fits.known v (mem_split.mp hv)
  have finish (t : Tensor E) (ht : Spreads sizes e target t) : Yields safe (Reduced sizes stay e)
      (if (summed stay e).isEmpty then return ⟨t, (distinct e.vars).filter stay⟩
        else return ⟨← t.foldM (summed stay e).length ops.sum, (distinct e.vars).filter stay⟩) := by
    split
    · next none =>
      have none : summed stay e = [] := List.isEmpty_iff.mp none
      refine .of_eq rfl (reduced_of_spreads fits ht rfl ⟨?_, ?_⟩)
      · rw [ht.1, shapeOf, List.map_append, none]
        rfl
      · intro index _
        rw [none]
        exact (add_zero _).symm
    · have shape : t.shape =
          shapeOf sizes (summed stay e) ++ shapeOf sizes ((distinct e.vars).filter stay) := by
        rw [ht.1, shapeOf, List.map_append]
        rfl
      have fold := Tensor.yields_foldM shape computes.yields_sum fun hs => by
        rw [ht.1]
        exact room_store (nodup_split stay e) known (room hs).1
      have length : (shapeOf sizes (summed stay e)).length = (summed stay e).length :=
        List.length_map _
      rw [length] at fold
      exact fold.bind fun u hu => .of_eq rfl (reduced_of_spreads fits ht rfl hu)
  unfold reduce
  dsimp only
  split
  · next same =>
    have same : target = e.vars := same
    refine finish e.tensor ⟨by rw [same, fits.shape], ?_⟩
    intro ρ _
    rw [same]
    rfl
  · exact (yields_spread fits (nodup_split stay e) known (fun v hv => mem_split.mpr hv) room).bind
      finish

/-! ## Joining -/

/-- What joining two entries leaves. -/
structure Joined (sizes : Sizes) (a b r : Entry E) : Prop where
  vars : ∀ v, v ∈ r.vars ↔ v ∈ a.vars ∨ v ∈ b.vars
  distinct : r.vars.Nodup
  fits : r.Fits sizes
  cell : ∀ ρ, Inside sizes r.vars ρ → r.cell ρ = a.cell ρ * b.cell ρ

theorem yields_join (computes : ops.Computes safe) {a b : Entry E} (ha : a.Fits sizes)
    (hb : b.Fits sizes) (nodup : a.vars.Nodup)
    (room : safe → Spacious sizes ∧ a.Room ∧ b.Room) :
    Yields safe (Joined sizes a b) (join ops sizes a b) := by
  let vars := a.vars ++ (distinct b.vars).filter fun v => !a.vars.contains v
  have mem (v : Char) : v ∈ vars ↔ v ∈ a.vars ∨ v ∈ b.vars := by
    rw [List.mem_append, List.mem_filter, mem_distinct]
    by_cases h : v ∈ a.vars <;> simp [h]
  have distinct : vars.Nodup := by
    refine List.nodup_append'.mpr ⟨nodup, (nodup_distinct _).filter _, ?_⟩
    intro v hv hv'
    have new := (List.mem_filter.mp hv').2
    simp [hv] at new
  have known : ∀ v ∈ vars, v ∈ bound sizes := fun v hv =>
    ((mem v).mp hv).elim (ha.known v) (hb.known v)
  have left := yields_spread ha distinct known (fun v hv => (mem v).mpr (.inl hv)) fun hs =>
    ⟨(room hs).1, (room hs).2.1⟩
  have right := yields_spread hb distinct known (fun v hv => (mem v).mpr (.inr hv)) fun hs =>
    ⟨(room hs).1, (room hs).2.2⟩
  unfold join
  refine left.bind fun t ht => right.bind ?_
  intro u hu
  refine (Tensor.yields_map2M computes.mul (ht.1.trans hu.1.symm)).bind ?_
  intro r hr
  have shape : r.shape = shapeOf sizes vars := hr.1.trans ht.1
  refine .of_eq rfl ⟨mem, distinct, ⟨shape, known⟩, ?_⟩
  intro ρ inside
  refine (hr.2 (vars.map ρ) (by rw [ht.1]; exact inside.within)).trans ?_
  show t.read (vars.map ρ) * u.read (vars.map ρ) = _
  rw [ht.2 ρ inside, hu.2 ρ inside]

end Contraction

end FiniteStructures
