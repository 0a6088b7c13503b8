import FiniteStructures.Proofs.Contraction.Einsum
import FiniteStructures.Proofs.Tensor.Tables
import Mathlib.Algebra.Order.BigOperators.Group.Finset
import Mathlib.Algebra.Ring.BooleanRing

/-!
Contractions of truth values.  Over variables that all range over the numbers below n, a point is a
witness when every entry holds at it, and a contraction asks about its witnesses,

    query logical entries result    some witness has the result              (yields_some)
    query linear entries result     an odd number of witnesses has it        (yields_odd)

Both follow from what any semiring makes of zeros and ones: it counts (`yields_witnesses`).
-/

namespace FiniteStructures

open Outcome

/-! ## Sums of zeros and ones -/

/-- A sum of naturals vanishes only where every summand does. -/
theorem sumOver_ne_zero {size : Char → Nat} {vs : List Char} {f : Point → Nat} {ρ : Point} :
    sumOver size vs f ρ ≠ 0 ↔
      ∃ τ : Point, (∀ v ∈ vs, τ v < size v) ∧ (∀ v, v ∉ vs → τ v = ρ v) ∧ f τ ≠ 0 := by
  induction vs generalizing ρ with
  | nil =>
    constructor
    · intro h
      exact ⟨ρ, nofun, fun _ _ => rfl, h⟩
    · rintro ⟨τ, -, same, h⟩
      obtain rfl : τ = ρ := funext fun v => same v List.not_mem_nil
      exact h
  | cons v vs ih =>
    show ∑ i ∈ Finset.range (size v), _ ≠ 0 ↔ _
    rw [Ne, Finset.sum_eq_zero_iff, not_forall]
    simp only [not_forall, Finset.mem_range, exists_prop, ih]
    constructor
    · rintro ⟨i, hi, τ, inside, same, h⟩
      refine ⟨τ, ?_, ?_, h⟩
      · intro w hw
        by_cases later : w ∈ vs
        · exact inside w later
        · obtain rfl := (List.mem_cons.mp hw).resolve_right later
          rw [same w later, Function.update_self]
          exact hi
      · intro w hw
        rw [List.mem_cons, not_or] at hw
        rw [same w hw.2, Function.update_of_ne hw.1]
    · rintro ⟨τ, inside, same, h⟩
      refine ⟨τ v, inside v List.mem_cons_self, τ,
        fun w hw => inside w (List.mem_cons_of_mem _ hw), ?_, h⟩
      intro w hw
      by_cases here : w = v
      · rw [here, Function.update_self]
      · rw [Function.update_of_ne here, same w (by simp [here, hw])]

theorem sumOver_sizes {E : Type} [AddCommMonoid E] {size size' : Char → Nat} {vs : List Char}
    (same : ∀ v ∈ vs, size v = size' v) (f : Point → E) (ρ : Point) :
    sumOver size vs f ρ = sumOver size' vs f ρ := by
  induction vs generalizing ρ with
  | nil => rfl
  | cons v vs ih =>
    show ∑ i ∈ Finset.range (size v), _ = ∑ i ∈ Finset.range (size' v), _
    rw [same v List.mem_cons_self]
    exact Finset.sum_congr rfl fun i _ => ih (fun w hw => same w (List.mem_cons_of_mem _ hw)) _

/-- A homomorphism goes under the sum. -/
theorem map_sumOver {E F : Type} [AddCommMonoid E] [AddCommMonoid F] (h : E →+ F)
    (size : Char → Nat) (vs : List Char) (f : Point → E) (ρ : Point) :
    h (sumOver size vs f ρ) = sumOver size vs (fun τ => h (f τ)) ρ := by
  induction vs generalizing ρ with
  | nil => rfl
  | cons v vs ih =>
    show h (∑ i ∈ Finset.range (size v), _) = ∑ i ∈ Finset.range (size v), _
    rw [map_sum]
    exact Finset.sum_congr rfl fun i _ => ih _

namespace Contraction

variable {E : Type} {safe : Prop} {n : Nat} {pool others result : List Char} {sizes : Sizes}

/-! ## Generated variables -/

theorem names_eq {count : Nat} (few : count ≤ 52) :
    names count = .ok (namePool.take count) := by
  have pool : namePool.length = 52 := rfl
  unfold names
  rw [if_neg (by omega)]

theorem names_many {count : Nat} (many : 52 < count) :
    names count = .fail (.unsupported (.contraction count 52)) := if_pos many

theorem length_names {count : Nat} (few : count ≤ 52) :
    (namePool.take count).length = count :=
  List.length_take_of_le few

theorem nodup_names (count : Nat) : (namePool.take count).Nodup :=
  List.Nodup.sublist (List.take_sublist _ _) (by decide)

/-! ## Variables of one size -/

/-- The entry has an axis of size `n` for each of its variables, which are distinct members of the
pool. -/
structure Ranges (n : Nat) (pool : List Char) (e : Tensor E × List Char) : Prop where
  shape : e.1.shape = List.replicate e.2.length n
  distinct : e.2.Nodup
  known : ∀ v ∈ e.2, v ∈ pool

theorem Ranges.of {t : Tensor E} {vars : List Char} (shape : t.shape = List.replicate vars.length n)
    (distinct : vars.Nodup) (known : ∀ v ∈ vars, v ∈ pool) : Ranges n pool (t, vars) :=
  ⟨shape, distinct, known⟩

/-- All variables are bound to the size `n`. -/
def Alone (n : Nat) (sizes : Sizes) : Prop := ∀ p ∈ sizes, p.2 = n

theorem Alone.lookup {v : Char} {d : Nat} (h : Alone n sizes) (found : sizes.lookup v = some d) :
    d = n := by
  obtain ⟨before, after, rfl, -⟩ := List.lookup_eq_some_iff.mp found
  exact h (v, d) (by simp)

theorem Alone.axisSize {v : Char} (h : Alone n sizes) (known : v ∈ bound sizes) :
    axisSize sizes v = n := by
  obtain ⟨d, found⟩ := mem_bound.mp known
  rw [Contraction.axisSize, found, h.lookup found]
  rfl

theorem Alone.shapeOf {vars : List Char} (h : Alone n sizes) (known : ∀ v ∈ vars, v ∈ bound sizes) :
    shapeOf sizes vars = List.replicate vars.length n := by
  refine List.eq_replicate_iff.mpr ⟨List.length_map _, ?_⟩
  intro d hd
  obtain ⟨v, hv, rfl⟩ := List.mem_map.mp hd
  exact h.axisSize (known v hv)

theorem Alone.bind (h : Alone n sizes) {axes : List (Char × Nat)} (same : ∀ p ∈ axes, p.2 = n) :
    ∃ sizes', bind axes sizes = (.ok (), sizes') ∧ Alone n sizes' := by
  induction axes generalizing sizes with
  | nil => exact ⟨sizes, rfl, h⟩
  | cons p axes ih =>
    obtain ⟨v, d⟩ := p
    obtain ⟨first, rest⟩ := List.forall_mem_cons.mp same
    obtain rfl : d = n := first
    cases found : sizes.lookup v with
    | none =>
      rw [bind_new found]
      refine ih ?_ rest
      intro p hp
      rcases List.mem_append.mp hp with hp | hp
      · exact h p hp
      · rw [List.mem_singleton.mp hp]
    | some d' =>
      obtain rfl := h.lookup found
      rw [bind_known found]
      exact ih h rest

/-! ## Filling a contraction -/

/-- Tensors and their variables as entries. -/
def asEntries (entries : List (Tensor E × List Char)) : List (Entry E) :=
  entries.map fun e => ⟨e.1, e.2⟩

variable {entries : List (Tensor E × List Char)} {c : Contraction E}

theorem add_alone {before : List (Entry E)} (filled : Filled before c) (alone : Alone n c.sizes)
    {e : Tensor E × List Char} (shape : e.1.shape = List.replicate e.2.length n) :
    ∃ c', c.add e.1 e.2 = (.ok (), c') ∧ Filled (before ++ [⟨e.1, e.2⟩]) c' ∧ Alone n c'.sizes := by
  have order : e.2.length = e.1.order := by rw [Tensor.order, shape, List.length_replicate]
  have same : ∀ p ∈ e.2.zip e.1.shape, p.2 = n := by
    intro p hp
    rw [shape] at hp
    exact List.eq_of_mem_replicate (List.of_mem_zip hp).2
  obtain ⟨sizes', bound, alone'⟩ := alone.bind same
  have call : c.add e.1 e.2 =
      (.ok (), { c with entries := c.entries ++ [⟨e.1, e.2⟩], sizes := sizes' }) := by
    unfold Contraction.add bindEntry
    rw [filled.wellBound.1.accepts, if_neg Bool.false_ne_true, if_neg (not_not.mpr order), bound]
  exact ⟨_, call, .add filled call, alone'⟩

/-- Adds an entry, or ends with the error. -/
def addOrEnd (c : Contraction E) (e : Tensor E × List Char) : Outcome (Contraction E) :=
  (c.add e.1 e.2).1.mapError Fault.error >>= fun _ => return (c.add e.1 e.2).2

theorem query_eq (ops : SemiringOps E Outcome) (entries : List (Tensor E × List Char))
    (result : List Char) : query ops entries result =
      entries.foldlM addOrEnd empty >>= fun c => c.get ops result >>= fun answer =>
        answer.1.mapError Fault.error := rfl

/-- Entries over variables of one size can be added. -/
theorem addOrEnd_alone {before : List (Entry E)} (filled : Filled before c)
    (alone : Alone n c.sizes) (shapes : ∀ e ∈ entries, e.1.shape = List.replicate e.2.length n) :
    ∃ c', Filled (before ++ asEntries entries) c' ∧ Alone n c'.sizes ∧
      entries.foldlM addOrEnd c = .ok c' := by
  induction entries generalizing before c with
  | nil =>
    refine ⟨c, ?_, alone, rfl⟩
    rw [asEntries, List.map_nil, List.append_nil]
    exact filled
  | cons e entries ih =>
    obtain ⟨first, rest⟩ := List.forall_mem_cons.mp shapes
    obtain ⟨c₁, call, filled₁, alone₁⟩ := add_alone filled alone first
    obtain ⟨c', filled', alone', run⟩ := ih filled₁ alone₁ rest
    refine ⟨c', ?_, alone', ?_⟩
    · rw [List.append_assoc] at filled'
      exact filled'
    · rw [List.foldlM_cons, addOrEnd, call]
      exact run

/-- An entry whose first variable is bound to another size is refused. -/
theorem add_conflict (accepts : c.poisoned = false) (alone : Alone n c.sizes) {t : Tensor E}
    {v : Char} {vars : List Char} {d : Nat} (known : v ∈ bound c.sizes)
    (shape : t.shape = List.replicate (vars.length + 1) d) (ne : n ≠ d) :
    (c.add t (v :: vars)).1 = .error (.sizeConflict v n d) := by
  obtain ⟨size, found⟩ := mem_bound.mp known
  obtain rfl := alone.lookup found
  have order : (v :: vars).length = t.order := by
    rw [Tensor.order, shape, List.length_replicate, List.length_cons]
  unfold Contraction.add bindEntry
  rw [accepts, if_neg Bool.false_ne_true, if_neg (not_not.mpr order), shape, List.replicate_succ,
    List.zip_cons_cons, bind_other found ne]

/-- Of entries whose first variables are bound, one of another size is refused. -/
theorem addOrEnd_conflict {before : List (Entry E)} (filled : Filled before c)
    (alone : Alone n c.sizes) (uniform : ∀ e ∈ entries, ∃ v vars d, e.2 = v :: vars ∧
      v ∈ bound c.sizes ∧ e.1.shape = List.replicate e.2.length d)
    (other : ∃ e ∈ entries, e.1.shape ≠ List.replicate e.2.length n) :
    ∃ v d, entries.foldlM addOrEnd c = .error (.error (.sizeConflict v n d)) := by
  induction entries generalizing before c with
  | nil => exact absurd other nofun
  | cons e entries ih =>
    obtain ⟨⟨v, vars, d, named, known, shape⟩, rest⟩ := List.forall_mem_cons.mp uniform
    rw [List.foldlM_cons]
    by_cases same : n = d
    · subst same
      obtain ⟨c', call, filled', alone'⟩ := add_alone filled alone shape
      have grows : ∀ v ∈ bound c.sizes, v ∈ bound c'.sizes := by
        intro v hv
        obtain ⟨e', he', hv⟩ := filled.wellBound.1.mentioned v hv
        refine (filled'.wellBound.1.fits e' ?_).known v hv
        rw [filled'.wellBound.2, ← filled.wellBound.2]
        exact List.mem_append_left _ he'
      have step : addOrEnd c e = .ok c' := by rw [addOrEnd, call]; rfl
      rw [step]
      refine ih filled' alone' ?_ ?_
      · intro e' he'
        obtain ⟨v, vars, d, named, known, shape⟩ := rest e' he'
        exact ⟨v, vars, d, named, grows v known, shape⟩
      · obtain ⟨e', he', ne⟩ := other
        rcases List.mem_cons.mp he' with rfl | he'
        · exact absurd shape ne
        · exact ⟨e', he', ne⟩
    · rw [named] at shape
      have refused := add_conflict filled.wellBound.1.accepts alone known shape same
      refine ⟨v, d, ?_⟩
      rw [addOrEnd, named, refused]
      rfl

/-- Entries that share their first variables with the one before them are refused where one of them has
another size. -/
theorem query_conflict (ops : SemiringOps E Outcome) (result : List Char)
    {first : Tensor E × List Char} (axes : first.1.shape = List.replicate first.2.length n)
    (uniform : ∀ e ∈ entries, ∃ v vars d, e.2 = v :: vars ∧ v ∈ first.2 ∧
      e.1.shape = List.replicate e.2.length d)
    (other : ∃ e ∈ entries, e.1.shape ≠ List.replicate e.2.length n) :
    ∃ v d, query ops (first :: entries) result = .error (.error (.sizeConflict v n d)) := by
  obtain ⟨c, added, filled, alone⟩ := add_alone .empty nofun axes
  obtain ⟨wellBound, same⟩ := filled.wellBound
  have fits : Entry.Fits c.sizes ⟨first.1, first.2⟩ := by
    refine wellBound.fits _ ?_
    rw [same]
    exact List.mem_singleton_self _
  have known : ∀ e ∈ entries, ∃ v vars d, e.2 = v :: vars ∧ v ∈ bound c.sizes ∧
      e.1.shape = List.replicate e.2.length d := by
    intro e he
    obtain ⟨v, vars, d, named, shared, shape⟩ := uniform e he
    exact ⟨v, vars, d, named, fits.known v shared, shape⟩
  obtain ⟨v, d, conflict⟩ := addOrEnd_conflict filled alone known other
  refine ⟨v, d, ?_⟩
  have step : addOrEnd empty first = .ok c := by
    rw [addOrEnd, added]
    rfl
  rw [query_eq, List.foldlM_cons, step]
  show List.foldlM _ c _ >>= _ = _
  rw [conflict]
  rfl

theorem mem_bound_of_filled (filled : Filled (asEntries entries) c) {v : Char} :
    v ∈ bound c.sizes ↔ ∃ e ∈ entries, v ∈ e.2 := by
  obtain ⟨wellBound, same⟩ := filled.wellBound
  have members (P : Entry E → Prop) : (∃ e ∈ c.entries, P e) ↔ ∃ e ∈ entries, P ⟨e.1, e.2⟩ := by
    rw [same, asEntries]
    simp
  rw [← members fun e => v ∈ e.vars]
  exact ⟨wellBound.mentioned v, fun ⟨e, he, hv⟩ => (wellBound.fits e he).known v hv⟩

theorem room_of_filled (filled : Filled (asEntries entries) c) (alone : Alone n c.sizes)
    (ranges : ∀ e ∈ entries, Ranges n pool e) (room : Shape.Spacious n pool.length) :
    Spacious c.sizes ∧ ∀ e ∈ asEntries entries, e.Room := by
  have wellBound := filled.wellBound.1
  have within : (bound c.sizes).length ≤ pool.length := by
    refine (List.subperm_of_subset wellBound.distinct ?_).length_le
    intro v hv
    obtain ⟨e, he, hv⟩ := (mem_bound_of_filled filled).mp hv
    exact (ranges e he).known v hv
  have length : (bound c.sizes).length = c.sizes.length := List.length_map _
  have rooms : Spacious c.sizes := by
    obtain ⟨store, strides⟩ := room.mono within
    refine ⟨?_, ?_⟩
    · rwa [alone.shapeOf fun v hv => hv]
    · rwa [alone.shapeOf fun v hv => hv, ← length]
  refine ⟨rooms, ?_⟩
  intro e he
  have fits := wellBound.fits e (by rw [filled.wellBound.2]; exact he)
  obtain ⟨e', he', rfl⟩ := List.mem_map.mp he
  exact fits.room (ranges e' he').distinct rooms

/-! ## Cells that are zero or one -/

/-- A product of zeros and ones is one exactly when all its factors are. -/
theorem prod_bits {α : Type} [CommSemiring E] {l : List α} {f : α → E} {P : α → Prop}
    [DecidablePred P] (bits : ∀ a ∈ l, f a = if P a then 1 else 0) :
    (l.map f).prod = if ∀ a ∈ l, P a then 1 else 0 := by
  induction l with
  | nil => simp
  | cons a l ih =>
    obtain ⟨first, rest⟩ := List.forall_mem_cons.mp bits
    rw [List.map_cons, List.prod_cons, first, ih rest]
    by_cases h : P a <;> simp [h]

/-- The values of the result variables are below `n`, those of the other variables too. -/
theorem within_of_ranges {e : Tensor E × List Char} (he : e ∈ entries) (ranges : Ranges n pool e)
    (rest : ∀ v, v ∈ others ↔ (∃ e ∈ entries, v ∈ e.2) ∧ v ∉ result) {ρ τ : Point}
    (below : ∀ v ∈ result, ρ v < n) (inside : ∀ v ∈ others, τ v < n)
    (same : ∀ v, v ∉ others → τ v = ρ v) : Shape.Within e.1.shape (e.2.map τ) := by
  rw [ranges.shape, Shape.within_replicate]
  refine ⟨List.length_map _, ?_⟩
  intro i hi
  obtain ⟨v, hv, rfl⟩ := List.mem_map.mp hi
  by_cases hr : v ∈ result
  · rw [same v fun ho => ((rest v).mp ho).2 hr]
    exact below v hr
  · exact inside v ((rest v).mpr ⟨⟨e, he, hv⟩, hr⟩)

/-- A sum of products of zeros and ones counts the points at which no cell is zero. -/
theorem einsum_counts [CommSemiring E] (filled : Filled (asEntries entries) c)
    (alone : Alone n c.sizes) (ranges : ∀ e ∈ entries, Ranges n pool e)
    {holds : Tensor E → List Nat → Prop} [∀ t, DecidablePred (holds t)]
    (bits : ∀ e ∈ entries, ∀ index, Shape.Within e.1.shape index →
      e.1.read index = if holds e.1 index then 1 else 0)
    (nodup : others.Nodup) (rest : ∀ v, v ∈ others ↔ (∃ e ∈ entries, v ∈ e.2) ∧ v ∉ result)
    {ρ : Point} (below : ∀ v ∈ result, ρ v < n) :
    einsum c.sizes (asEntries entries) result ρ =
      sumOver (fun _ => n) others
        (fun τ => if ∀ e ∈ entries, holds e.1 (e.2.map τ) then 1 else 0) ρ • (1 : E) := by
  have summed : ((bound c.sizes).filter fun v => !result.contains v).Perm others := by
    refine (List.perm_ext_iff_of_nodup (filled.wellBound.1.distinct.filter _) nodup).mpr ?_
    intro v
    rw [rest, List.mem_filter, mem_bound_of_filled filled]
    simp
  have hom := map_sumOver (multiplesHom E (1 : E)) (fun _ => n) others
    (fun τ => if ∀ e ∈ entries, holds e.1 (e.2.map τ) then 1 else 0) ρ
  rw [multiplesHom_apply] at hom
  calc einsum c.sizes (asEntries entries) result ρ
      = sumOver (axisSize c.sizes) others
          (fun τ => ((asEntries entries).map fun e => e.cell τ).prod) ρ := sumOver_perm summed _ ρ
    _ = sumOver (fun _ => n) others
          (fun τ => ((asEntries entries).map fun e => e.cell τ).prod) ρ := by
        refine sumOver_sizes ?_ _ ρ
        intro v hv
        exact alone.axisSize ((mem_bound_of_filled filled).mpr ((rest v).mp hv).1)
    _ = sumOver (fun _ => n) others (fun τ => multiplesHom E (1 : E)
          (if ∀ e ∈ entries, holds e.1 (e.2.map τ) then 1 else 0)) ρ := by
        refine sumOver_congr ?_
        intro τ within same
        have product : ((asEntries entries).map fun e => e.cell τ).prod =
            if ∀ e ∈ entries, holds e.1 (e.2.map τ) then 1 else 0 := by
          rw [asEntries, List.map_map]
          refine prod_bits ?_
          intro e he
          exact bits e he _ (within_of_ranges he (ranges e he) rest below within same)
        rw [product, multiplesHom_apply]
        split <;> simp
    _ = _ := hom.symm

/-- A contraction of zeros and ones counts the points at which no cell is zero. -/
theorem yields_witnesses [CommSemiring E] {ops : SemiringOps E Outcome}
    (computes : ops.Computes safe) (ranges : ∀ e ∈ entries, Ranges n pool e)
    {holds : Tensor E → List Nat → Prop} [∀ t, DecidablePred (holds t)]
    (bits : ∀ e ∈ entries, ∀ index, Shape.Within e.1.shape index →
      e.1.read index = if holds e.1 index then 1 else 0)
    (room : safe → Shape.Spacious n pool.length)
    (distinct : result.Nodup) (covers : ∀ v ∈ result, ∃ e ∈ entries, v ∈ e.2)
    (nodup : others.Nodup) (rest : ∀ v, v ∈ others ↔ (∃ e ∈ entries, v ∈ e.2) ∧ v ∉ result) :
    Yields safe (fun t => t.shape = List.replicate result.length n ∧
        ∀ ρ : Point, (∀ v ∈ result, ρ v < n) → t.get (result.map ρ) = .ok
          (sumOver (fun _ => n) others
            (fun τ => if ∀ e ∈ entries, holds e.1 (e.2.map τ) then 1 else 0) ρ • (1 : E)))
      (query ops entries result) := by
  obtain ⟨c, filled, alone, run⟩ := addOrEnd_alone .empty nofun fun e he => (ranges e he).shape
  rw [List.nil_append] at filled
  have known : ∀ v ∈ result, v ∈ bound c.sizes := fun v hv =>
    (mem_bound_of_filled filled).mpr (covers v hv)
  rw [query_eq, run]
  refine (yields_answer computes filled distinct known fun hs =>
    room_of_filled filled alone ranges (room hs)).bind ?_
  rintro r ⟨t, rfl, einsum_t⟩
  refine .of_eq rfl ⟨?_, ?_⟩
  · rw [einsum_t.shape, alone.shapeOf known]
  intro ρ below
  have inside : Inside c.sizes result ρ := by
    intro v hv
    rw [alone.axisSize (known v hv)]
    exact below v hv
  rw [einsum_t.get ρ inside, einsum_counts filled alone ranges bits nodup rest below]

/-! ## Truth values -/

/-- Truth values with disjunctions for sums and conjunctions for products. -/
@[reducible] def disjunctive : CommSemiring Bool where
  add := Bool.or
  zero := false
  mul := Bool.and
  one := true
  natCast k := decide (k ≠ 0)
  nsmul k b := decide (k ≠ 0) && b
  add_assoc := Bool.or_assoc
  zero_add := Bool.false_or
  add_zero := Bool.or_false
  add_comm := Bool.or_comm
  mul_assoc := Bool.and_assoc
  one_mul := Bool.true_and
  mul_one := Bool.and_true
  mul_comm := Bool.and_comm
  zero_mul := Bool.false_and
  mul_zero := Bool.and_false
  left_distrib := Bool.and_or_distrib_left
  right_distrib := Bool.and_or_distrib_right
  natCast_zero := rfl
  natCast_succ k := by
    show decide (k + 1 ≠ 0) = (decide (k ≠ 0) || true)
    simp
  nsmul_zero _ := rfl
  nsmul_succ k b := by
    show (decide (k + 1 ≠ 0) && b) = ((decide (k ≠ 0) && b) || b)
    cases b <;> simp

theorem computes_logical : @SemiringOps.Computes Bool disjunctive safe SemiringOps.logical := by
  refine @SemiringOps.Computes.mk Bool disjunctive _ _ rfl rfl (fun a b => .of_eq rfl rfl)
    (fun a b => .of_eq rfl rfl) ?_
  intro elems
  have from_ (first : Bool) :
      (.ok (first || elems.any id) : Outcome Bool) = elems.foldlM (fun a b => .ok (a || b)) first := by
    induction elems generalizing first with
    | nil => rw [List.any_nil, Bool.or_false]; rfl
    | cons b elems ih =>
      rw [List.any_cons, ← Bool.or_assoc, List.foldlM_cons]
      exact ih (first || b)
  exact from_ false

theorem computes_linear : (SemiringOps.linear : SemiringOps Bool Outcome).Computes safe :=
  ⟨rfl, rfl, fun _ _ => .of_eq rfl rfl, fun _ _ => .of_eq rfl rfl, fun _ => rfl⟩

/-! ## Witnesses -/

/-- Every entry holds at the values of its variables. -/
def Witness (entries : List (Tensor Bool × List Char)) (ρ : Point) : Prop :=
  ∀ e ∈ entries, e.1.Holds (e.2.map ρ)

instance (entries : List (Tensor Bool × List Char)) (ρ : Point) : Decidable (Witness entries ρ) :=
  inferInstanceAs (Decidable (∀ e ∈ entries, e.1.Holds (e.2.map ρ)))

/-- The number of witnesses over all values of the given variables. -/
def witnesses (n : Nat) (others : List Char) (entries : List (Tensor Bool × List Char)) :
    Point → Nat :=
  sumOver (fun _ => n) others fun τ => if Witness entries τ then 1 else 0

theorem exists_map_eq {tuple : List Nat} (nodup : result.Nodup)
    (length : tuple.length = result.length) : ∃ ρ : Point, result.map ρ = tuple := by
  refine ⟨fun v => tuple.getD (result.idxOf v) 0, ?_⟩
  apply List.ext_getElem
  · rw [List.length_map, length]
  · intro i h₁ h₂
    have hi : i < result.length := length ▸ h₂
    rw [List.getElem_map, nodup.idxOf_getElem i hi, List.getD_eq_getElem?_getD,
      List.getElem?_eq_getElem h₂, Option.getD_some]

variable {entries : List (Tensor Bool × List Char)}

/-- Witnesses over the other variables are all witnesses with the given result. -/
theorem some_witness_iff (ranges : ∀ e ∈ entries, Ranges n pool e)
    (rest : ∀ v, v ∈ others ↔ (∃ e ∈ entries, v ∈ e.2) ∧ v ∉ result) {ρ : Point} :
    (∃ τ : Point, (∀ v ∈ others, τ v < n) ∧ (∀ v, v ∉ others → τ v = ρ v) ∧ Witness entries τ) ↔
      ∃ τ : Point, result.map τ = result.map ρ ∧ Witness entries τ := by
  constructor
  · rintro ⟨τ, -, same, holds⟩
    refine ⟨τ, List.map_congr_left ?_, holds⟩
    intro v hv
    exact same v fun ho => ((rest v).mp ho).2 hv
  · rintro ⟨τ, agree, holds⟩
    refine ⟨fun v => if v ∈ others then τ v else ρ v, ?_, ?_, ?_⟩
    · intro v hv
      dsimp only
      rw [if_pos hv]
      obtain ⟨⟨e, he, hv⟩, -⟩ := (rest v).mp hv
      have within := (holds e he).within
      rw [(ranges e he).shape, Shape.within_replicate] at within
      exact within.2 _ (List.mem_map_of_mem hv)
    · intro v hv
      exact if_neg hv
    · intro e he
      have values : (e.2.map fun v => if v ∈ others then τ v else ρ v) = e.2.map τ := by
        refine List.map_congr_left ?_
        intro v hv
        by_cases ho : v ∈ others
        · exact if_pos ho
        · have hr : v ∈ result := by
            by_contra hr
            exact ho ((rest v).mpr ⟨⟨e, he, hv⟩, hr⟩)
          rw [if_neg ho]
          exact (List.map_inj_left.mp agree v hr).symm
      rw [values]
      exact holds e he

/-- The disjunctive contraction holds at the results of witnesses. -/
theorem yields_some (ranges : ∀ e ∈ entries, Ranges n pool e)
    (room : safe → Shape.Spacious n pool.length)
    (nodup : result.Nodup) (covers : ∀ v ∈ result, ∃ e ∈ entries, v ∈ e.2) :
    Yields safe (Tensor.Table (List.replicate result.length n) fun tuple =>
        ∃ τ : Point, result.map τ = tuple ∧ Witness entries τ)
      (query SemiringOps.logical entries result) := by
  let others := (distinct (entries.flatMap Prod.snd)).filter fun v => !result.contains v
  have rest (v : Char) : v ∈ others ↔ (∃ e ∈ entries, v ∈ e.2) ∧ v ∉ result := by
    simp [others, mem_distinct]
  have bits : ∀ e ∈ entries, ∀ index, Shape.Within e.1.shape index →
      @Tensor.read Bool ⟨false⟩ e.1 index = if e.1.Holds index then true else false := by
    intro e _ index within
    rw [Bool.eq_iff_iff, ← @Tensor.holds_iff _ _ ⟨false⟩ within]
    simp
  refine (@yields_witnesses Bool safe n pool others result entries disjunctive _ computes_logical
    ranges Tensor.Holds _ bits room nodup covers ((nodup_distinct _).filter _) rest).mono ?_
  rintro t ⟨shape, cells⟩
  refine ⟨shape, ?_⟩
  intro tuple within
  obtain ⟨length, small⟩ := Shape.within_replicate.mp within
  obtain ⟨ρ, rfl⟩ := exists_map_eq nodup length
  have below : ∀ v ∈ result, ρ v < n := fun v hv => small _ (List.mem_map_of_mem hv)
  rw [← some_witness_iff ranges rest, Tensor.Holds, cells ρ below]
  show _ = Except.ok true ↔ _
  have number : witnesses n others entries ρ ≠ 0 ↔ _ := sumOver_ne_zero
  have value : (.ok (decide (witnesses n others entries ρ ≠ 0) && true) : Outcome Bool) = .ok true ↔
      witnesses n others entries ρ ≠ 0 := by simp
  refine value.trans (number.trans ?_)
  simp

/-- The contraction of one tensor holds at the values of the result variables at its indices. -/
theorem yields_shadow {t : Tensor Bool} {vars : List Char}
    (shape : t.shape = List.replicate vars.length n) (distinct : vars.Nodup) (nodup : result.Nodup)
    (known : ∀ v ∈ result, v ∈ vars) (room : safe → Shape.Spacious n vars.length) :
    Yields safe (Tensor.Table (List.replicate result.length n) fun tuple =>
        ∃ τ : Point, result.map τ = tuple ∧ t.Holds (vars.map τ))
      (query SemiringOps.logical [(t, vars)] result) := by
  have ranges : ∀ e ∈ [(t, vars)], Ranges n vars e :=
    List.forall_mem_singleton.mpr (.of shape distinct fun _ hv => hv)
  have covers : ∀ v ∈ result, ∃ e ∈ [(t, vars)], v ∈ e.2 := fun v hv =>
    ⟨_, List.mem_singleton_self _, known v hv⟩
  refine (yields_some ranges room nodup covers).mono fun u hu => hu.congr fun tuple _ => ?_
  exact exists_congr fun τ => and_congr_right fun _ => List.forall_mem_singleton

/-- The linear contraction holds where the number of witnesses is odd. -/
theorem yields_odd (ranges : ∀ e ∈ entries, Ranges n pool e)
    (room : safe → Shape.Spacious n pool.length)
    (nodup : result.Nodup) (covers : ∀ v ∈ result, ∃ e ∈ entries, v ∈ e.2)
    (nodup' : others.Nodup) (rest : ∀ v, v ∈ others ↔ (∃ e ∈ entries, v ∈ e.2) ∧ v ∉ result) :
    Yields safe (fun t => t.shape = List.replicate result.length n ∧
        ∀ ρ : Point, (∀ v ∈ result, ρ v < n) →
          (t.Holds (result.map ρ) ↔ Odd (witnesses n others entries ρ)))
      (query SemiringOps.linear entries result) := by
  have bits : ∀ e ∈ entries, ∀ index, Shape.Within e.1.shape index →
      e.1.read index = if e.1.Holds index then 1 else 0 := by
    intro e _ index within
    by_cases holds : e.1.Holds index
    · rw [if_pos holds]
      exact (Tensor.holds_iff within).mp holds
    · rw [if_neg holds]
      exact Bool.eq_false_iff.mpr fun yes => holds ((Tensor.holds_iff within).mpr yes)
  have parity (k : Nat) : k • (1 : Bool) = true ↔ Odd k := by
    induction k with
    | zero => simp
    | succ k ih =>
      rw [succ_nsmul, Nat.odd_add_one, ← ih]
      cases k • (1 : Bool) <;> decide
  refine (yields_witnesses computes_linear ranges bits room nodup covers nodup' rest).mono ?_
  rintro t ⟨shape, cells⟩
  refine ⟨shape, ?_⟩
  intro ρ below
  rw [← parity, Tensor.Holds, cells ρ below, Except.ok.injEq]
  rfl

end Contraction

end FiniteStructures
