import FiniteStructures.Proofs.Contraction.Steps
import Mathlib.Data.List.Perm.Basic

/-!
The loop of a contraction.  What is still to be computed is a sum of products,

    total … entries ρ  =  ∑ over the pending variables, ∏ over the entries, e.cell

and neither step changes it: a variable that one entry alone mentions is summed out of that entry
(`total_reduced`), and a joined entry is a factor like the two before (`total_joined`).
-/

namespace FiniteStructures

namespace Contraction

open Outcome

variable {E : Type} {safe : Prop} {sizes : Sizes} {result : List Char}

/-! ## What is left to compute -/

/-- The variables of the entries that are no variables of the result. -/
def pending (result : List Char) (entries : List (Entry E)) : List Char :=
  (distinct (entries.flatMap Entry.vars)).filter fun v => !result.contains v

/-- The sum over the pending variables of the product of all entries. -/
def total [CommSemiring E] (sizes : Sizes) (result : List Char) (entries : List (Entry E)) :
    Point → E :=
  sumOver (axisSize sizes) (pending result entries) fun τ => (entries.map fun e => e.cell τ).prod

theorem mem_pending {entries : List (Entry E)} {v : Char} :
    v ∈ pending result entries ↔ (∃ e ∈ entries, v ∈ e.vars) ∧ v ∉ result := by
  simp [pending, mem_distinct]

theorem nodup_pending (result : List Char) (entries : List (Entry E)) :
    (pending result entries).Nodup :=
  (nodup_distinct _).filter _

/-- Where the pending variables and those of the result are on their axes, the variables of each
entry are. -/
theorem inside_of_pending {entries : List (Entry E)} {ρ τ : Point} (inside : Inside sizes result ρ)
    (within : ∀ v ∈ pending result entries, τ v < axisSize sizes v)
    (same : ∀ v, v ∉ pending result entries → τ v = ρ v) {e : Entry E} (he : e ∈ entries) :
    Inside sizes e.vars τ := by
  intro v hv
  by_cases hr : v ∈ result
  · rw [same v fun h => (mem_pending.mp h).2 hr]
    exact inside v hr
  · exact within v (mem_pending.mpr ⟨⟨e, he, hv⟩, hr⟩)

/-! ## All entries reduced -/

/-- No two entries mention a variable that at most one of them mentions. -/
theorem pairwise_alone {quiet : Char → Prop} {entries : List (Entry E)}
    (h : ∀ v, quiet v → entries.countP (fun e => e.vars.contains v) ≤ 1) :
    entries.Pairwise fun a b => ∀ v, quiet v → ¬ (v ∈ a.vars ∧ v ∈ b.vars) := by
  induction entries with
  | nil => exact .nil
  | cons a entries ih =>
    refine .cons ?_ (ih ?_)
    · intro b hb v hq hv
      have most := h v hq
      rw [List.countP_cons, if_pos (List.contains_iff_mem.mpr hv.1)] at most
      have none : entries.countP (fun e => e.vars.contains v) = 0 := by omega
      exact List.countP_eq_zero.mp none b hb (List.contains_iff_mem.mpr hv.2)
    · intro v hq
      exact Nat.le_trans (List.Sublist.countP_le (List.sublist_cons_self a entries)) (h v hq)

theorem stays_of_mem_result {entries : List (Entry E)} {v : Char} (h : v ∈ result) :
    stays entries result v = true := by
  unfold stays
  rw [List.contains_iff_mem.mpr h, Bool.or_true]

theorem stays_eq_false {entries : List (Entry E)} {v : Char} (h : stays entries result v = false) :
    entries.countP (fun e => e.vars.contains v) ≤ 1 ∧ v ∉ result := by
  unfold stays at h
  rw [Bool.or_eq_false_iff] at h
  refine ⟨by simpa using h.1, ?_⟩
  intro hv
  rw [List.contains_iff_mem.mpr hv] at h
  cases h.2

/-- No two entries mention a variable that does not stay. -/
theorem pairwise_quiet (entries : List (Entry E)) (result : List Char) :
    entries.Pairwise fun a b =>
      ∀ v, stays entries result v = false → ¬ (v ∈ a.vars ∧ v ∈ b.vars) :=
  pairwise_alone fun _ quiet => (stays_eq_false quiet).1

/-- The partner of an entry and the other entries are all entries. -/
theorem partner_perm (vars : List Char) (first : Entry E) (rest : List (Entry E)) :
    ((partner vars first rest).1 :: (partner vars first rest).2).Perm (first :: rest) := by
  unfold partner
  dsimp only
  generalize hi : ((first :: rest).findIdx? fun e => e.vars.any vars.contains).getD 0 = i
  have lt : i < (first :: rest).length := by
    subst hi
    cases hf : (first :: rest).findIdx? fun e => e.vars.any vars.contains with
    | none => exact Nat.succ_pos _
    | some i => exact (List.findIdx?_eq_some_iff_getElem.mp hf).1
  rw [List.getD_eq_getElem?_getD, List.getElem?_eq_getElem lt, Option.getD_some]
  exact List.getElem_cons_eraseIdx_perm lt

variable [CommSemiring E]

/-- A reduced entry keeps the variables that stay. -/
theorem mem_vars_reduced {stay : Char → Bool} {entries reduced : List (Entry E)}
    (h : List.Forall₂ (Reduced sizes stay) entries reduced) {v : Char} :
    (∃ r ∈ reduced, v ∈ r.vars) ↔ (∃ e ∈ entries, v ∈ e.vars) ∧ stay v = true := by
  induction h with
  | nil => simp
  | cons hr _ ih =>
    simp only [List.exists_mem_cons_iff, ih, hr.vars, mem_kept, or_and_right]

/-- The variables that are summed out, and the pending ones of the reduced entries, are the pending
ones from before. -/
theorem pending_reduced {entries reduced : List (Entry E)}
    (h : List.Forall₂ (Reduced sizes (stays entries result)) entries reduced) :
    (pending result entries).Perm
      (pending result reduced ++ entries.flatMap (summed (stays entries result))) := by
  have apart : (entries.flatMap (summed (stays entries result))).Nodup := by
    refine List.nodup_flatMap.mpr ⟨fun e _ => nodup_summed _ e, ?_⟩
    refine (pairwise_quiet entries result).imp fun hab v ha hb => ?_
    rw [mem_summed] at ha hb
    exact hab v ha.2 ⟨ha.1, hb.1⟩
  have new (v : Char) : v ∈ entries.flatMap (summed (stays entries result)) ↔
      (∃ e ∈ entries, v ∈ e.vars) ∧ stays entries result v = false := by
    simp only [List.mem_flatMap, mem_summed]
    exact ⟨fun ⟨e, he, hv, hs⟩ => ⟨⟨e, he, hv⟩, hs⟩, fun ⟨⟨e, he, hv⟩, hs⟩ => ⟨e, he, hv, hs⟩⟩
  have whole : (pending result reduced ++ entries.flatMap (summed (stays entries result))).Nodup := by
    refine List.nodup_append'.mpr ⟨nodup_pending _ _, apart, ?_⟩
    intro v hv hs
    have stay := ((mem_vars_reduced h).mp (mem_pending.mp hv).1).2
    rw [((new v).mp hs).2] at stay
    cases stay
  refine (List.perm_ext_iff_of_nodup (nodup_pending _ _) whole).mpr ?_
  intro v
  rw [List.mem_append, mem_pending, mem_pending, mem_vars_reduced h, new]
  constructor
  · rintro ⟨here, out⟩
    cases hs : stays entries result v with
    | true => exact .inl ⟨⟨here, rfl⟩, out⟩
    | false => exact .inr ⟨here, rfl⟩
  · rintro (⟨⟨here, -⟩, out⟩ | ⟨here, quiet⟩)
    · exact ⟨here, out⟩
    · exact ⟨here, (stays_eq_false quiet).2⟩

theorem map_cell_reduced {stay : Char → Bool} {entries reduced : List (Entry E)}
    (h : List.Forall₂ (Reduced sizes stay) entries reduced) {ρ : Point}
    (inside : ∀ r ∈ reduced, Inside sizes r.vars ρ) :
    reduced.map (fun r => r.cell ρ) =
      entries.map fun e => sumOver (axisSize sizes) (summed stay e) e.cell ρ := by
  induction h with
  | nil => rfl
  | cons hr _ ih =>
    rw [List.map_cons, List.map_cons, hr.cell ρ (inside _ List.mem_cons_self),
      ih fun r hr => inside r (List.mem_cons_of_mem _ hr)]

/-- Reducing the entries changes nothing about what is left to compute. -/
theorem total_reduced {entries reduced : List (Entry E)}
    (h : List.Forall₂ (Reduced sizes (stays entries result)) entries reduced) {ρ : Point}
    (inside : Inside sizes result ρ) :
    total sizes result reduced ρ = total sizes result entries ρ := by
  have apart : entries.Pairwise fun a b =>
      (∀ v ∈ summed (stays entries result) a, v ∉ {v | v ∈ b.vars}) ∧
        ∀ v ∈ summed (stays entries result) b, v ∉ {v | v ∈ a.vars} := by
    refine (pairwise_quiet entries result).imp fun hab => ⟨?_, ?_⟩
    · intro v ha hb
      exact hab v (mem_summed.mp ha).2 ⟨(mem_summed.mp ha).1, hb⟩
    · intro v hb ha
      exact hab v (mem_summed.mp hb).2 ⟨ha, (mem_summed.mp hb).1⟩
  calc total sizes result reduced ρ
      = sumOver (axisSize sizes) (pending result reduced) (fun τ => (entries.map fun e =>
          sumOver (axisSize sizes) (summed (stays entries result) e) e.cell τ).prod) ρ :=
        sumOver_congr fun τ within same => congrArg List.prod
          (map_cell_reduced h fun r hr => inside_of_pending inside within same hr)
    _ = sumOver (axisSize sizes) (pending result reduced) (sumOver (axisSize sizes)
          (entries.flatMap (summed (stays entries result)))
          fun τ => (entries.map fun e => e.cell τ).prod) ρ :=
        sumOver_congr fun τ _ _ =>
          (sumOver_prod (fun e _ => e.dependsOn_cell) apart τ).symm
    _ = total sizes result entries ρ := by
        rw [← sumOver_append]
        exact (sumOver_perm (pending_reduced h) _ ρ).symm

/-! ## Two entries joined -/

theorem mem_vars_joined {a b joined : Entry E} {others entries : List (Entry E)}
    (h : Joined sizes a b joined) (perm : (a :: b :: others).Perm entries) {v : Char} :
    (∃ e ∈ joined :: others, v ∈ e.vars) ↔ ∃ e ∈ entries, v ∈ e.vars := by
  have same : (∃ e ∈ entries, v ∈ e.vars) ↔ ∃ e ∈ a :: b :: others, v ∈ e.vars :=
    exists_congr fun e => by rw [perm.mem_iff]
  rw [same]
  simp only [List.exists_mem_cons_iff, h.vars, or_assoc]

/-- Joining two entries changes nothing about what is left to compute. -/
theorem total_joined {a b joined : Entry E} {others entries : List (Entry E)}
    (h : Joined sizes a b joined) (perm : (a :: b :: others).Perm entries) {ρ : Point}
    (inside : Inside sizes result ρ) :
    total sizes result (joined :: others) ρ = total sizes result entries ρ := by
  have order : (pending result (joined :: others)).Perm (pending result entries) := by
    refine (List.perm_ext_iff_of_nodup (nodup_pending _ _) (nodup_pending _ _)).mpr ?_
    intro v
    rw [mem_pending, mem_pending, mem_vars_joined h perm]
  calc total sizes result (joined :: others) ρ
      = sumOver (axisSize sizes) (pending result (joined :: others))
          (fun τ => (entries.map fun e => e.cell τ).prod) ρ := by
        refine sumOver_congr ?_
        intro τ within same
        have value := h.cell τ (inside_of_pending inside within same List.mem_cons_self)
        rw [← (perm.map _).prod_eq, List.map_cons, List.map_cons, List.map_cons, List.prod_cons,
          List.prod_cons, List.prod_cons, value, mul_assoc]
    _ = total sizes result entries ρ := sumOver_perm order _ ρ

/-! ## The loop -/

/-- A last entry over the variables of the result, which has the cells that were asked for. -/
structure Final (sizes : Sizes) (result : List Char) (entries : List (Entry E)) (last : Entry E) :
    Prop where
  vars : ∀ v, v ∈ last.vars ↔ v ∈ result
  distinct : last.vars.Nodup
  fits : last.Fits sizes
  cell : ∀ ρ, Inside sizes result ρ → last.cell ρ = total sizes result entries ρ

theorem final_of_reduced {entries : List (Entry E)} {last : Entry E}
    (h : List.Forall₂ (Reduced sizes (stays entries result)) entries [last])
    (covers : ∀ v ∈ result, ∃ e ∈ entries, v ∈ e.vars) : Final sizes result entries last := by
  obtain ⟨e, rfl⟩ : ∃ e, entries = [e] := List.length_eq_one_iff.mp h.length_eq
  have reduced : Reduced sizes (stays [e] result) e last := (List.forall₂_cons.mp h).1
  have alone (v : Char) : stays [e] result v = true ↔ v ∈ result := by
    have most : ¬ [e].countP (fun e => e.vars.contains v) > 1 :=
      Nat.not_lt.mpr (List.countP_le_length)
    unfold stays
    rw [decide_eq_false most, Bool.false_or, List.contains_iff_mem]
  have vars (v : Char) : v ∈ last.vars ↔ v ∈ result := by
    rw [reduced.vars, mem_kept, alone, and_iff_right_iff_imp]
    intro hv
    obtain ⟨e', he, hv⟩ := covers v hv
    rwa [List.mem_singleton.mp he] at hv
  have done : pending result [last] = [] := by
    refine List.eq_nil_iff_forall_not_mem.mpr ?_
    intro v hv
    obtain ⟨⟨e', he, hv⟩, out⟩ := mem_pending.mp hv
    rw [List.mem_singleton.mp he, vars] at hv
    exact out hv
  refine ⟨vars, ?_, reduced.fits, ?_⟩
  · rw [reduced.vars]
    exact (nodup_distinct _).filter _
  · intro ρ inside
    rw [← total_reduced h inside, total, done]
    exact (mul_one _).symm

theorem fits_of_reduced {stay : Char → Bool} {entries reduced : List (Entry E)}
    (h : List.Forall₂ (Reduced sizes stay) entries reduced) {r : Entry E} (hr : r ∈ reduced) :
    r.Fits sizes ∧ r.vars.Nodup := by
  induction h with
  | nil => cases hr
  | cons first _ ih =>
    rcases List.mem_cons.mp hr with rfl | hr
    · exact ⟨first.fits, first.vars ▸ (nodup_distinct _).filter _⟩
    · exact ih hr

variable {ops : SemiringOps E Outcome}

theorem yields_collapse (computes : ops.Computes safe) {n : Nat} {entries : List (Entry E)}
    (count : entries.length ≤ n) (nonempty : entries ≠ [])
    (fits : ∀ e ∈ entries, e.Fits sizes) (covers : ∀ v ∈ result, ∃ e ∈ entries, v ∈ e.vars)
    (room : safe → Spacious sizes ∧ ∀ e ∈ entries, e.Room) :
    Yields safe (Final sizes result entries) (collapse ops sizes result n entries) := by
  induction n generalizing entries with
  | zero => exact absurd (List.eq_nil_of_length_eq_zero (Nat.le_zero.mp count)) nonempty
  | succ n ih =>
    have reduce := Yields.traverse fun e he => yields_reduce computes (fits e he)
      (fun hs => ⟨(room hs).1, (room hs).2 e he⟩) (stays entries result)
    unfold collapse
    refine reduce.bind ?_
    intro r h
    obtain ⟨reduced, length⟩ := r
    dsimp only at h ⊢
    match reduced with
    | [] => exact absurd (List.eq_nil_of_length_eq_zero length.symm) nonempty
    | [last] => exact .of_eq rfl (final_of_reduced h covers)
    | first :: second :: rest =>
      have perm := partner_perm first.vars second rest
      show Yields safe _ (do
        let joined ← join ops sizes first (partner first.vars second rest).1
        collapse ops sizes result n (joined :: (partner first.vars second rest).2))
      generalize partner first.vars second rest = others at perm ⊢
      have each (r : Entry E) (hr : r ∈ first :: others.1 :: others.2) :
          r.Fits sizes ∧ r.vars.Nodup := fits_of_reduced h ((perm.cons first).mem_iff.mp hr)
      obtain ⟨fitsFirst, nodup⟩ := each first List.mem_cons_self
      obtain ⟨fitsOther, nodup'⟩ := each others.1 (by simp)
      refine (yields_join computes fitsFirst fitsOther nodup fun hs => ⟨(room hs).1, fitsFirst.room
        nodup (room hs).1, fitsOther.room nodup' (room hs).1⟩).bind ?_
      intro j hj
      have whole := perm.cons first
      have left (r : Entry E) (hr : r ∈ j :: others.2) : r.Fits sizes ∧ r.vars.Nodup := by
        rcases List.mem_cons.mp hr with rfl | hr
        · exact ⟨hj.fits, hj.distinct⟩
        · exact each r (List.mem_cons_of_mem _ (List.mem_cons_of_mem _ hr))
      refine (ih ?_ (List.cons_ne_nil _ _) (fun r hr => (left r hr).1) ?_ fun hs => ⟨(room hs).1,
        fun r hr => (left r hr).1.room (left r hr).2 (room hs).1⟩).mono ?_
      · have shorter := whole.length_eq
        simp only [List.length_cons] at shorter length ⊢
        omega
      · intro v hv
        rw [mem_vars_joined hj whole, mem_vars_reduced h]
        exact ⟨covers v hv, stays_of_mem_result hv⟩
      · intro last hl
        exact ⟨hl.vars, hl.distinct, hl.fits, fun ρ inside => by
          rw [hl.cell ρ inside, total_joined hj whole inside, total_reduced h inside]⟩

end Contraction

end FiniteStructures
