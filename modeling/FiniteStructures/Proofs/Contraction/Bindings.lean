import FiniteStructures.Proofs.Contraction.Steps

/-!
Bound variables.  A contraction that took its entries without an error has bound each variable, once,
to the size of all axes it names (`Filled.wellBound`).
-/

namespace FiniteStructures

namespace Contraction

variable {E : Type} {sizes sizes' : Sizes}

theorem mem_bound {v : Char} : v ∈ bound sizes ↔ ∃ d, sizes.lookup v = some d := by
  rw [← Option.isSome_iff_exists, List.lookup_isSome_iff, bound, List.mem_map]
  refine exists_congr fun p => and_congr_right ?_
  intro _
  rw [eq_comm, beq_iff_eq]

/-! ## Binding -/

theorem bind_new {v : Char} (new : sizes.lookup v = none) (d : Nat) (rest : List (Char × Nat)) :
    bind ((v, d) :: rest) sizes = bind rest (sizes ++ [(v, d)]) := by
  rw [bind, new]

theorem bind_known {v : Char} {d : Nat} (known : sizes.lookup v = some d)
    (rest : List (Char × Nat)) : bind ((v, d) :: rest) sizes = bind rest sizes := by
  rw [bind, known]
  exact if_pos rfl

theorem bind_other {v : Char} {first d : Nat} (known : sizes.lookup v = some first) (ne : first ≠ d)
    (rest : List (Char × Nat)) :
    bind ((v, d) :: rest) sizes = (.error (.sizeConflict v first d), sizes) := by
  rw [bind, known]
  exact if_neg ne

/-- What binding the variables of an entry leaves. -/
structure Binds (axes : List (Char × Nat)) (sizes sizes' : Sizes) : Prop where
  keeps : ∀ v d, sizes.lookup v = some d → sizes'.lookup v = some d
  binds : ∀ p ∈ axes, sizes'.lookup p.1 = some p.2
  distinct : (bound sizes).Nodup → (bound sizes').Nodup
  known : ∀ v ∈ bound sizes', v ∈ bound sizes ∨ v ∈ axes.map Prod.fst

/-- A variable that is bound to its size stays so. -/
theorem Binds.cons_known {v : Char} {d : Nat} {axes : List (Char × Nat)}
    (known : sizes.lookup v = some d) (rest : Binds axes sizes sizes') :
    Binds ((v, d) :: axes) sizes sizes' where
  keeps := rest.keeps
  binds p hp := by
    rcases List.mem_cons.mp hp with rfl | hp
    · exact rest.keeps _ _ known
    · exact rest.binds p hp
  distinct := rest.distinct
  known w hw := (rest.known w hw).imp id (List.mem_cons_of_mem _)

/-- A variable that is new is bound before those that follow. -/
theorem Binds.cons_new {v : Char} {d : Nat} {axes : List (Char × Nat)}
    (new : sizes.lookup v = none) (rest : Binds axes (sizes ++ [(v, d)]) sizes') :
    Binds ((v, d) :: axes) sizes sizes' := by
  have absent : v ∉ bound sizes := fun hv => by
    obtain ⟨d', hd⟩ := mem_bound.mp hv
    rw [new] at hd
    cases hd
  have here : (sizes ++ [(v, d)]).lookup v = some d := by
    rw [List.lookup_append, new, Option.none_or, List.lookup_cons_self]
  have keys : bound (sizes ++ [(v, d)]) = bound sizes ++ [v] := List.map_append
  refine ⟨fun w d' hw => rest.keeps w d' ?_, ?_, fun hd => rest.distinct ?_, ?_⟩
  · rw [List.lookup_append, hw, Option.some_or]
  · intro p hp
    rcases List.mem_cons.mp hp with rfl | hp
    · exact rest.keeps v d here
    · exact rest.binds p hp
  · rw [keys]
    exact List.nodup_append'.mpr ⟨hd, List.nodup_singleton v,
      fun w hw hv => absent (List.mem_singleton.mp hv ▸ hw)⟩
  · intro w hw
    rcases rest.known w hw with hw | hw
    · rw [keys, List.mem_append, List.mem_singleton] at hw
      refine hw.imp id ?_
      intro e
      rw [e]
      exact List.mem_cons_self
    · exact .inr (List.mem_cons_of_mem _ hw)

theorem binds_of_ok {axes : List (Char × Nat)} (h : bind axes sizes = (.ok (), sizes')) :
    Binds axes sizes sizes' := by
  induction axes generalizing sizes with
  | nil =>
    cases h
    exact ⟨fun _ _ h => h, nofun, id, fun _ => .inl⟩
  | cons p axes ih =>
    obtain ⟨v, d⟩ := p
    cases first : sizes.lookup v with
    | none =>
      rw [bind_new first] at h
      exact (ih h).cons_new first
    | some d' =>
      by_cases same : d' = d
      · subst same
        rw [bind_known first] at h
        exact (ih h).cons_known first
      · rw [bind_other first same] at h
        cases h

theorem shapeOf_eq {axes : List (Char × Nat)} (h : Binds axes sizes sizes') {vars : List Char}
    (known : ∀ v ∈ vars, v ∈ bound sizes) : shapeOf sizes' vars = shapeOf sizes vars := by
  refine List.map_congr_left ?_
  intro v hv
  obtain ⟨d, hd⟩ := mem_bound.mp (known v hv)
  rw [hd, h.keeps v d hd]

/-- Sizes that are bound to variables are those of a shape. -/
theorem shape_of_binds {vars : List Char} {shape : List Nat} (length : vars.length = shape.length)
    (binds : ∀ p ∈ vars.zip shape, sizes.lookup p.1 = some p.2) :
    shape = shapeOf sizes vars ∧ ∀ v ∈ vars, v ∈ bound sizes := by
  induction vars generalizing shape with
  | nil => exact ⟨List.eq_nil_of_length_eq_zero length.symm, nofun⟩
  | cons v vars ih => cases shape with
    | nil => cases length
    | cons d shape =>
      obtain ⟨first, binds⟩ := List.forall_mem_cons.mp binds
      obtain ⟨rest, known⟩ := ih (Nat.succ.inj length) binds
      refine ⟨?_, List.forall_mem_cons.mpr ⟨mem_bound.mpr ⟨d, first⟩, known⟩⟩
      show d :: shape = (sizes.lookup v).getD 0 :: shapeOf sizes vars
      rw [first, ← rest]
      rfl

/-- The entry whose axes were bound fits. -/
theorem fits_of_binds {t : Tensor E} {vars : List Char} (order : vars.length = t.order)
    (h : Binds (vars.zip t.shape) sizes sizes') : Entry.Fits sizes' ⟨t, vars⟩ := by
  obtain ⟨shape, known⟩ := shape_of_binds order h.binds
  exact ⟨shape, known⟩

/-- An entry that fits still does when more is bound. -/
theorem Binds.fits {axes : List (Char × Nat)} (h : Binds axes sizes sizes') {e : Entry E}
    (fits : e.Fits sizes) : e.Fits sizes' where
  shape := fits.shape.trans (shapeOf_eq h fits.known).symm
  known v hv := by
    obtain ⟨d, hd⟩ := mem_bound.mp (fits.known v hv)
    exact mem_bound.mpr ⟨d, h.keeps v d hd⟩

theorem bindEntry_ok {t : Tensor E} {vars : List Char}
    (h : bindEntry sizes t vars = (.ok (), sizes')) :
    vars.length = t.order ∧ Binds (vars.zip t.shape) sizes sizes' := by
  unfold bindEntry at h
  split at h
  · cases h
  · next order => exact ⟨not_not.mp order, binds_of_ok h⟩

/-! ## Filled contractions -/

/-- The entries were added, one after another and each without an error. -/
inductive Filled : List (Entry E) → Contraction E → Prop
  | empty : Filled [] empty
  | add {entries : List (Entry E)} {c c' : Contraction E} {t : Tensor E} {vars : List Char}
      (before : Filled entries c) (call : c.add t vars = (.ok (), c')) :
      Filled (entries ++ [⟨t, vars⟩]) c'

/-- All axes that a variable names have the size that it is bound to. -/
structure WellBound (c : Contraction E) : Prop where
  accepts : c.poisoned = false
  distinct : (bound c.sizes).Nodup
  fits : ∀ e ∈ c.entries, e.Fits c.sizes
  mentioned : ∀ v ∈ bound c.sizes, ∃ e ∈ c.entries, v ∈ e.vars

theorem WellBound.add {c c' : Contraction E} {t : Tensor E} {vars : List Char} (h : WellBound c)
    (call : c.add t vars = (.ok (), c')) :
    WellBound c' ∧ c'.entries = c.entries ++ [⟨t, vars⟩] := by
  unfold Contraction.add at call
  rw [h.accepts, if_neg Bool.false_ne_true] at call
  rcases bindEntry_eq : bindEntry c.sizes t vars with ⟨_ | _, sizes⟩
  · rw [bindEntry_eq] at call
    cases call
  · rw [bindEntry_eq] at call
    cases call
    obtain ⟨order, binds⟩ := bindEntry_ok bindEntry_eq
    refine ⟨⟨rfl, binds.distinct h.distinct, ?_, ?_⟩, rfl⟩
    · intro e he
      rcases List.mem_append.mp he with he | he
      · exact binds.fits (h.fits e he)
      · rw [List.mem_singleton.mp he]
        exact fits_of_binds order binds
    · intro v hv
      rcases binds.known v hv with old | new
      · obtain ⟨e, he, hv⟩ := h.mentioned v old
        exact ⟨e, List.mem_append_left _ he, hv⟩
      · refine ⟨⟨t, vars⟩, List.mem_append_right _ (List.mem_singleton.mpr rfl), ?_⟩
        obtain ⟨p, hp, rfl⟩ := List.mem_map.mp new
        exact (List.of_mem_zip hp).1

theorem Filled.wellBound {entries : List (Entry E)} {c : Contraction E} (h : Filled entries c) :
    WellBound c ∧ c.entries = entries := by
  induction h with
  | empty => exact ⟨⟨rfl, List.nodup_nil, nofun, nofun⟩, rfl⟩
  | add _ call ih =>
    obtain ⟨wellBound, rfl⟩ := ih
    exact wellBound.add call

/-- Distinct bound variables are passed over. -/
theorem checkResult_append (result : List Char) {before seen : List Char} (distinct : before.Nodup)
    (fresh : ∀ v ∈ before, v ∉ seen) (known : ∀ v ∈ before, v ∈ bound sizes)
    (rest : List Char) :
    checkResult sizes result seen (before ++ rest) =
      checkResult sizes result (before.reverse ++ seen) rest := by
  induction before generalizing seen with
  | nil => rfl
  | cons v before ih =>
    rw [List.nodup_cons] at distinct
    obtain ⟨d, hd⟩ := mem_bound.mp (known v List.mem_cons_self)
    rw [List.cons_append, checkResult, if_neg (fresh v List.mem_cons_self), hd, Option.isNone_some,
      if_neg Bool.false_ne_true, List.reverse_cons, List.append_assoc]
    refine ih distinct.2 ?_ fun w hw => known w (List.mem_cons_of_mem _ hw)
    intro w hw hs
    rcases List.mem_cons.mp hs with rfl | hs
    · exact distinct.1 hw
    · exact fresh w (List.mem_cons_of_mem _ hw) hs

/-- Distinct bound variables can be asked for. -/
theorem checkResult_ok {result seen rest : List Char} (distinct : rest.Nodup)
    (fresh : ∀ v ∈ rest, v ∉ seen) (known : ∀ v ∈ rest, v ∈ bound sizes) :
    checkResult sizes result seen rest = .ok () := by
  have passed := checkResult_append result distinct fresh known []
  rwa [List.append_nil] at passed

end Contraction

end FiniteStructures
