import FiniteStructures.Proofs.Contraction.Bindings
import FiniteStructures.Proofs.Contraction.Collapse
import FiniteStructures.Proofs.Tensor.Traverse

/-!
Contractions compute sums of products.  For the operations of a commutative semiring, entries that
were added without an error and distinct bound variables,

    get … result   at   result[ρ]   =   ∑ over the other variables, ∏ over the entries, e.cell

(`Contraction.get_einsum`), unless a size is out of range; with integers of 64 bits, a sum or a
product may be out of range as well.
-/

namespace FiniteStructures

namespace Contraction

open Outcome

variable {E : Type} [CommSemiring E] {safe : Prop} {sizes : Sizes} {result : List Char}
  {entries : List (Entry E)}

/-- The sum over the bound variables that are not in the result of the product of all entries. -/
def einsum (sizes : Sizes) (entries : List (Entry E)) (result : List Char) : Point → E :=
  sumOver (axisSize sizes) ((bound sizes).filter fun v => !result.contains v)
    fun τ => (entries.map fun e => e.cell τ).prod

/-- The axes of the tensor are those of the result, in order, and its cells are the sums. -/
structure IsEinsum (sizes : Sizes) (entries : List (Entry E)) (result : List Char) (t : Tensor E) :
    Prop where
  shape : t.shape = shapeOf sizes result
  get : ∀ ρ, Inside sizes result ρ → t.get (result.map ρ) = .ok (einsum sizes entries result ρ)

/-- When the bound variables are those of the entries, the loop computes the sums that are asked
for. -/
theorem total_eq_einsum (distinct : (bound sizes).Nodup) (fits : ∀ e ∈ entries, e.Fits sizes)
    (mentioned : ∀ v ∈ bound sizes, ∃ e ∈ entries, v ∈ e.vars) :
    total sizes result entries = einsum sizes entries result := by
  funext ρ
  refine sumOver_perm ?_ _ ρ
  refine (List.perm_ext_iff_of_nodup (nodup_pending _ _) (distinct.filter _)).mpr ?_
  intro v
  have here : (∃ e ∈ entries, v ∈ e.vars) ↔ v ∈ bound sizes :=
    ⟨fun ⟨e, he, hv⟩ => (fits e he).known v hv, mentioned v⟩
  rw [mem_pending, here, List.mem_filter]
  simp

/-! ## The axes of the result -/

theorem idxOf?_eq {v : Char} {l : List Char} (here : v ∈ l) : l.idxOf? v = some (l.idxOf v) := by
  rw [List.idxOf_eq_getD_idxOf?]
  rcases found : l.idxOf? v with _ | i
  · exact absurd here (List.idxOf?_eq_none_iff.mp found)
  · rfl

theorem places_eq {vars : List Char} (sub : ∀ v ∈ vars, v ∈ result) :
    places result vars = .ok (positions vars result) :=
  List.mapM_ok fun v hv => by rw [idxOf?_eq (sub v hv)]

/-- Writing the members of a list where they stand in it leaves it as it is, whatever was there
before. -/
theorem foldl_set_eq {target : List Char} (landings : List (Char × Nat))
    (lands : ∀ p ∈ landings, target[p.2]? = some p.1) {out : List Char}
    (length : out.length = target.length)
    (filled : ∀ i < target.length, out[i]? = target[i]? ∨ ∃ p ∈ landings, p.2 = i) :
    landings.foldl (fun out p => out.set p.2 p.1) out = target := by
  induction landings generalizing out with
  | nil =>
    refine List.ext_getElem? fun i => ?_
    by_cases hi : i < target.length
    · exact (filled i hi).resolve_right nofun
    · rw [List.foldl_nil, List.getElem?_eq_none (by omega), List.getElem?_eq_none (by omega)]
  | cons p landings ih =>
    refine ih (fun q hq => lands q (List.mem_cons_of_mem _ hq)) (by simpa using length) ?_
    intro i hi
    by_cases here : p.2 = i
    · subst here
      rw [List.getElem?_set_self (by omega), lands p List.mem_cons_self]
      exact .inl rfl
    · rw [List.getElem?_set_ne here]
      rcases filled i hi with h | ⟨q, hq, rfl⟩
      · exact .inl h
      · rcases List.mem_cons.mp hq with rfl | hq
        · exact absurd rfl here
        · exact .inr ⟨q, hq, rfl⟩

theorem arranged_eq {vars : List Char} (same : ∀ v, v ∈ vars ↔ v ∈ result)
    (distinct : result.Nodup) : arranged result.length vars (positions vars result) = result := by
  have zipped : vars.zip (positions vars result) = vars.map fun v => (v, result.idxOf v) := by
    exact List.map_prod_left_eq_zip.symm
  refine foldl_set_eq _ ?_ List.length_replicate ?_
  · intro p hp
    rw [zipped] at hp
    obtain ⟨v, hv, rfl⟩ := List.mem_map.mp hp
    exact List.getElem?_idxOf ((same v).mp hv)
  · intro i hi
    refine .inr ⟨(result[i], i), ?_, rfl⟩
    rw [zipped]
    refine List.mem_map.mpr ⟨result[i], (same _).mpr (List.getElem_mem hi), ?_⟩
    rw [distinct.idxOf_getElem]

/-- When the last entry has exactly the variables of the result, the checks pass. -/
theorem deliver_eq {E : Type} {last : Entry E}
    (same : ∀ v, v ∈ last.vars ↔ v ∈ result) (distinct : last.vars.Nodup)
    (distinct' : result.Nodup) :
    deliver result last = last.tensor.permute (positions last.vars result) := by
  have length : last.vars.length = result.length :=
    ((List.perm_ext_iff_of_nodup distinct distinct').mpr same).length_eq
  unfold deliver
  rw [if_neg (not_not.mpr length), places_eq fun v hv => (same v).mp hv]
  show (do
    if arranged result.length last.vars (positions last.vars result) ≠ result then _
    last.tensor.permute (positions last.vars result)) = _
  rw [arranged_eq same distinct', if_neg (not_not.mpr rfl)]

/-- The axes of the last entry are brought into the order of the result. -/
theorem yields_permute {last : Entry E} (final : Final sizes result entries last)
    (distinct : result.Nodup) (room : safe → Spacious sizes) :
    Yields safe (fun t => t.shape = shapeOf sizes result ∧
        ∀ ρ, Inside sizes result ρ → t.read (result.map ρ) = total sizes result entries ρ)
      (last.tensor.permute (positions last.vars result)) := by
  have sub : ∀ v ∈ last.vars, v ∈ result := fun v hv => (final.vars v).mp hv
  have known : ∀ v ∈ result, v ∈ bound sizes := fun v hv =>
    final.fits.known v ((final.vars v).mpr hv)
  have lands : Tensor.Lands (shapeOf sizes result) last.tensor.shape
      (positions last.vars result) := by
    rw [final.fits.shape]
    exact lands_positions sub
  have nodup : (positions last.vars result).Nodup :=
    final.distinct.map_on fun v hv w _ same => (List.idxOf_inj (sub v hv)).mp same
  have length : (positions last.vars result).length = (shapeOf sizes result).length := by
    have perm := (List.perm_ext_iff_of_nodup final.distinct distinct).mpr final.vars
    rw [positions, shapeOf, List.length_map, List.length_map, perm.length_eq]
  have onto : ∀ axis < (shapeOf sizes result).length, axis ∈ positions last.vars result := by
    intro axis lt
    rw [shapeOf, List.length_map] at lt
    refine List.mem_map.mpr ⟨result[axis], (final.vars _).mpr (List.getElem_mem lt), ?_⟩
    exact distinct.idxOf_getElem axis lt
  rw [Tensor.permute_eq lands nodup onto length]
  refine (yields_spread final.fits distinct known sub fun hs => ⟨room hs, final.fits.room
    final.distinct (room hs)⟩).mono fun t ht => ⟨ht.1, ?_⟩
  intro ρ inside
  rw [ht.2 ρ inside, final.cell ρ inside]

/-! ## Queries -/

variable {ops : SemiringOps E Outcome}

/-- The loop, and then the axes in order. -/
theorem yields_query (computes : ops.Computes safe) (nonempty : entries ≠ [])
    (distinct : result.Nodup) (fits : ∀ e ∈ entries, e.Fits sizes)
    (covers : ∀ v ∈ result, ∃ e ∈ entries, v ∈ e.vars)
    (room : safe → Spacious sizes ∧ ∀ e ∈ entries, e.Room) :
    Yields safe (fun t => t.shape = shapeOf sizes result ∧
        ∀ ρ, Inside sizes result ρ → t.read (result.map ρ) = total sizes result entries ρ) (do
      let last ← collapse ops sizes result entries.length entries
      deliver result last) := by
  refine (yields_collapse computes (Nat.le_refl _) nonempty fits covers room).bind ?_
  intro last final
  rw [deliver_eq final.vars final.distinct distinct]
  exact yields_permute final distinct fun hs => (room hs).1

/-- Without entries the product is one. -/
theorem einsum_nil (none : bound sizes = []) (ρ : Point) :
    einsum sizes ([] : List (Entry E)) [] ρ = 1 := by
  unfold einsum
  rw [none]
  rfl

theorem total_one (ρ : Point) :
    total sizes [] [(⟨Tensor.scalar (1 : E), []⟩ : Entry E)] ρ = 1 := mul_one 1

/-- What a contraction of bound entries computes. -/
theorem yields_evaluate (computes : ops.Computes safe) {c : Contraction E} (wellBound : WellBound c)
    (distinct : result.Nodup) (known : ∀ v ∈ result, v ∈ bound c.sizes)
    (room : safe → Spacious c.sizes ∧ ∀ e ∈ c.entries, e.Room) :
    Yields safe (fun t => t.shape = shapeOf c.sizes result ∧ ∀ ρ, Inside c.sizes result ρ →
        t.read (result.map ρ) = einsum c.sizes c.entries result ρ)
      (evaluate ops c.sizes c.entries result) := by
  have mentioned := wellBound.mentioned
  unfold evaluate
  by_cases none : c.entries = []
  · rw [none] at mentioned room ⊢
    have unbound : bound c.sizes = [] :=
      List.eq_nil_iff_forall_not_mem.mpr fun v hv => by
        obtain ⟨e, he, -⟩ := mentioned v hv
        cases he
    obtain rfl : result = [] := List.eq_nil_iff_forall_not_mem.mpr fun v hv => by
      have := known v hv
      rw [unbound] at this
      cases this
    refine (yields_query computes (List.cons_ne_nil _ _) distinct ?_ nofun fun hs => ⟨(room hs).1,
      ?_⟩).mono fun t ht => ⟨ht.1, ?_⟩
    · intro e he
      rw [List.mem_singleton.mp he]
      exact ⟨rfl, nofun⟩
    · intro e he
      rw [List.mem_singleton.mp he]
      show (0 + 1) * 1 < Count.limit
      decide
    · intro ρ inside
      rw [ht.2 ρ inside, einsum_nil unbound, computes.one, total_one]
  · have some : c.entries.isEmpty = false := List.isEmpty_eq_false_iff.mpr none
    simp only [some, Bool.false_eq_true, if_false]
    refine (yields_query computes none distinct wellBound.fits (fun v hv => mentioned v (known v
      hv)) room).mono fun t ht => ⟨ht.1, ?_⟩
    intro ρ inside
    rw [ht.2 ρ inside, total_eq_einsum wellBound.distinct wellBound.fits mentioned]

/-- A query empties the contraction and gives the tensor of the sums. -/
theorem yields_answer (computes : ops.Computes safe) {c : Contraction E} (filled : Filled entries c)
    (distinct : result.Nodup) (known : ∀ v ∈ result, v ∈ bound c.sizes)
    (room : safe → Spacious c.sizes ∧ ∀ e ∈ entries, e.Room) :
    Yields safe (fun r => ∃ t, r = (.ok t, empty) ∧ IsEinsum c.sizes entries result t)
      (c.get ops result) := by
  obtain ⟨wellBound, rfl⟩ := filled.wellBound
  unfold Contraction.get
  rw [wellBound.accepts, if_neg Bool.false_ne_true,
    checkResult_ok distinct (fun _ _ => List.not_mem_nil) known]
  refine (yields_evaluate computes wellBound distinct known room).bind ?_
  intro t ht
  refine .of_eq rfl ⟨t, rfl, ht.1, ?_⟩
  intro ρ inside
  have within : Shape.Within t.shape (result.map ρ) := by
    rw [ht.1]
    exact inside.within
  rw [Tensor.get_eq within, ht.2 ρ inside]

theorem yields_get (computes : ops.Computes safe) {c : Contraction E} (filled : Filled entries c)
    (distinct : result.Nodup) (known : ∀ v ∈ result, v ∈ bound c.sizes)
    (room : safe → Room c.sizes ∧ ∀ e ∈ entries, e.Room) :
    Yields safe (fun r => ∃ t, r = (.ok t, empty) ∧ IsEinsum c.sizes entries result t)
      (c.get ops result) :=
  yields_answer computes filled distinct known fun hs => ⟨(room hs).1.spacious, (room hs).2⟩

end Contraction

/-! ## Semirings and integers of 64 bits -/

open Outcome Contraction

namespace SemiringOps

/-- The operations are those of a commutative semiring, and its sums are taken from zero on. -/
structure Lawful {E : Type} [CommSemiring E] (ops : SemiringOps E Outcome) : Prop where
  zero : ops.zero = 0
  one : ops.one = 1
  add : ∀ a b, ops.add a b = .ok (a + b)
  mul : ∀ a b, ops.mul a b = .ok (a * b)
  sum : ∀ elems, ops.sum elems = elems.foldlM ops.add ops.zero

theorem Lawful.computes {E : Type} [CommSemiring E] {ops : SemiringOps E Outcome} (h : ops.Lawful)
    (safe : Prop) : ops.Computes safe :=
  ⟨h.zero, h.one, fun a b => .of_eq (h.add a b) rfl, fun a b => .of_eq (h.mul a b) rfl, h.sum⟩

theorem yields_whole (n : Int) : Yields False (· = n) (Whole.check n) := by
  unfold Whole.check
  split
  · exact .of_eq rfl rfl
  · exact .inr ⟨not_false, .inl rfl⟩

/-- Integers of 64 bits are added and multiplied exactly, unless they overflow. -/
theorem computes_counting : counting.Computes False :=
  ⟨rfl, rfl, fun a b => yields_whole (a + b), fun a b => yields_whole (a * b), fun _ => rfl⟩

end SemiringOps

/-- The tensors that a contraction builds, and the strides of its entries, are within range. -/
def Contraction.Roomy {E : Type} (c : Contraction E) : Prop :=
  Room c.sizes ∧ ∀ e ∈ c.entries, e.Room

/-- Over a commutative semiring, a contraction of any entries that were added without an error to
distinct bound variables gives the tensor of the sums of products; it fails only where a size is out
of range, which room for all tensors excludes.  Over integers of 64 bits, it gives the exact sums
unless it reports that a number is out of range. -/
theorem Contraction.get_einsum :
    (∀ {E : Type} [CommSemiring E] {ops : SemiringOps E Outcome}, ops.Lawful →
      ∀ {entries : List (Entry E)} {c : Contraction E}, Filled entries c →
      ∀ {result : List Char}, result.Nodup → (∀ v ∈ result, v ∈ bound c.sizes) →
        (∃ t, c.get ops result = .ok (.ok t, empty) ∧ IsEinsum c.sizes entries result t) ∨
          (¬ c.Roomy ∧ OutOfRange (c.get ops result))) ∧
    ∀ {entries : List (Entry Int)} {c : Contraction Int}, Filled entries c →
      ∀ {result : List Char}, result.Nodup → (∀ v ∈ result, v ∈ bound c.sizes) →
        (∃ t, c.get SemiringOps.counting result = .ok (.ok t, empty) ∧
            IsEinsum c.sizes entries result t) ∨
          OutOfRange (c.get SemiringOps.counting result) := by
  constructor
  · intro E _ ops lawful entries c filled result distinct known
    have room (roomy : c.Roomy) : Room c.sizes ∧ ∀ e ∈ entries, e.Room := by
      rw [← filled.wellBound.2]
      exact roomy
    rcases yields_get (lawful.computes c.Roomy) filled distinct known room with
      ⟨r, hr, t, rfl, ht⟩ | h
    · exact .inl ⟨t, hr, ht⟩
    · exact .inr h
  · intro entries c filled result distinct known
    rcases yields_get SemiringOps.computes_counting filled distinct known False.elim with
      ⟨r, hr, t, rfl, ht⟩ | h
    · exact .inl ⟨t, hr, ht⟩
    · exact .inr h.2

/-- Natural numbers of any size. -/
def SemiringOps.naturals : SemiringOps Nat Outcome where
  zero := 0
  one := 1
  add a b := .ok (a + b)
  mul a b := .ok (a * b)

theorem SemiringOps.lawful_naturals : SemiringOps.naturals.Lawful :=
  ⟨rfl, rfl, fun _ _ => rfl, fun _ _ => rfl, fun _ => rfl⟩

namespace Contraction

/-- A row and a column of two cells. -/
def rowColumn {E : Type} (a b c d : E) : Contraction E where
  entries := [⟨⟨[1, 2], [a, b], rfl⟩, ['i', 'j']⟩, ⟨⟨[2, 1], [c, d], rfl⟩, ['j', 'k']⟩]
  sizes := [('i', 1), ('j', 2), ('k', 1)]
  poisoned := false

theorem filled_rowColumn {E : Type} (a b c d : E) :
    Filled (rowColumn a b c d).entries (rowColumn a b c d) :=
  .add (.add .empty rfl) rfl

theorem roomy_rowColumn {E : Type} (a b c d : E) : (rowColumn a b c d).Roomy := by
  refine ⟨by show 4 * 2 < Count.storeLimit; decide, ?_⟩
  intro e he
  rcases List.mem_cons.mp he with rfl | he
  · show 3 * 2 < Count.limit
    decide
  · rw [List.mem_singleton.mp he]
    show 3 * 2 < Count.limit
    decide

theorem known_rowColumn {E : Type} (a b c d : E) :
    ∀ v ∈ ['k', 'i'], v ∈ bound (rowColumn a b c d).sizes := by
  intro v hv
  rcases List.mem_cons.mp hv with rfl | hv
  · exact .tail _ (.tail _ (.head _))
  · rw [List.mem_singleton.mp hv]
    exact .head _

theorem inside_rowColumn {E : Type} (a b c d : E) :
    Inside (rowColumn a b c d).sizes ['k', 'i'] fun _ => 0 := by
  intro v hv
  rcases List.mem_cons.mp hv with rfl | hv
  · exact Nat.one_pos
  · rw [List.mem_singleton.mp hv]
    exact Nat.one_pos

/-- The product of a row and a column, over natural numbers and over integers of 64 bits. -/
theorem get_einsum_row_column :
    (∃ t, (rowColumn 3 4 5 6).get SemiringOps.naturals ['k', 'i'] = .ok (.ok t, empty) ∧
        t.get [0, 0] = .ok 39) ∧
      ∃ t, (rowColumn 3 4 5 6).get SemiringOps.counting ['k', 'i'] = .ok (.ok t, empty) ∧
        t.get [0, 0] = .ok 39 := by
  have distinct : ['k', 'i'].Nodup := by decide
  obtain ⟨semiring, integers⟩ := Contraction.get_einsum
  constructor
  · rcases semiring SemiringOps.lawful_naturals (filled_rowColumn 3 4 5 6) distinct
      (known_rowColumn 3 4 5 6) with ⟨t, run, ht⟩ | ⟨narrow, -⟩
    · exact ⟨t, run, ht.get (fun _ => 0) (inside_rowColumn 3 4 5 6)⟩
    · exact absurd (roomy_rowColumn 3 4 5 6) narrow
  · have ran : ((rowColumn 3 4 5 6).get SemiringOps.counting ['k', 'i']).isOk = true := by
      decide +kernel
    rcases integers (filled_rowColumn 3 4 5 6) distinct (known_rowColumn 3 4 5 6) with
      ⟨t, run, ht⟩ | out | out
    · exact ⟨t, run, ht.get (fun _ => 0) (inside_rowColumn 3 4 5 6)⟩
    · rw [out] at ran
      cases ran
    · rw [out] at ran
      cases ran

end Contraction

end FiniteStructures
