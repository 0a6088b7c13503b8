import FiniteStructures.Proofs.Contraction.Witnesses
import FiniteStructures.Proofs.Relation.Tuples

/-!
Joins.  The last coordinate of r and the first one of s share a variable, and the result has the other
ones in their order,

    r[x₀ … xₖ v]   s[v z₁ … zₗ]   result[x₀ … xₖ z₁ … zₗ]

so a tuple of the result is related by the values of v at which both entries hold: by at least one
(`yields_compose`), or by an odd number of them (`yields_multiply`).
-/

namespace FiniteStructures

namespace Relation

open Outcome Tensor

variable {safe : Prop} {a b n d : Nat} {r s : Relation Bool} {xs zs : List Char} {v : Char}

/-! ## Variables -/

/-- Variables for the coordinates of two relations that share one. -/
structure Shared (a b : Nat) (xs : List Char) (v : Char) (zs : List Char) : Prop where
  left : xs.length + 1 = a
  right : zs.length + 1 = b
  distinct : (v :: (xs ++ zs)).Nodup

theorem exists_shared (ha : 1 ≤ a) (hb : 1 ≤ b) (few : a + b ≤ 53) :
    ∃ xs v zs, Shared a b xs v zs ∧ Contraction.namePool.take (a + b - 2) = xs ++ zs ∧
      Contraction.namePool.take (a + b - 1) = xs ++ zs ++ [v] := by
  have lt : a + b - 2 < Contraction.namePool.length := by
    show _ < 52
    omega
  have last : Contraction.namePool.take (a + b - 1) =
      Contraction.namePool.take (a + b - 2) ++ [Contraction.namePool[a + b - 2]] := by
    rw [← List.take_succ_eq_append_getElem lt]
    congr 1
    omega
  have nodup := Contraction.nodup_names (a + b - 1)
  have length : (Contraction.namePool.take (a + b - 2)).length = a + b - 2 :=
    Contraction.length_names (by omega)
  rw [last] at nodup
  generalize Contraction.namePool.take (a + b - 2) = outer at last nodup length ⊢
  have split := List.take_append_drop (a - 1) outer
  refine ⟨outer.take (a - 1), Contraction.namePool[a + b - 2], outer.drop (a - 1), ⟨?_, ?_, ?_⟩,
    split.symm, by rw [split, last]⟩
  · rw [List.length_take]
    omega
  · rw [List.length_drop]
    omega
  · rw [split]
    exact (List.perm_append_singleton _ _).nodup_iff.mp nodup

theorem Shared.front (h : Shared a b xs v zs) : xs.length = a - 1 :=
  Nat.eq_sub_of_add_eq h.left

theorem Shared.back (h : Shared a b xs v zs) : zs.length = b - 1 :=
  Nat.eq_sub_of_add_eq h.right

theorem Shared.length_result (h : Shared a b xs v zs) : (xs ++ zs).length = a + b - 2 := by
  rw [List.length_append, ← h.left, ← h.right]
  omega

theorem Shared.length (h : Shared a b xs v zs) : (v :: (xs ++ zs)).length = a + b - 1 := by
  rw [List.length_cons, List.length_append, ← h.left, ← h.right]
  omega

/-- Coordinates of the result have their variables. -/
theorem Shared.lengths (h : Shared a b xs v zs) {ls rs : List Nat}
    (left : Shape.Within (List.replicate (a - 1) n) ls)
    (right : Shape.Within (List.replicate (b - 1) n) rs) :
    ls.length = xs.length ∧ rs.length = zs.length := by
  refine ⟨?_, ?_⟩
  · rw [left.length, List.length_replicate, h.front]
  · rw [right.length, List.length_replicate, h.back]

/-- What the contraction of a join is made of. -/
def joined (r s : Relation Bool) (xs : List Char) (v : Char) (zs : List Char) :
    List (Tensor Bool × List Char) :=
  [(r.tensor, xs ++ [v]), (s.tensor, v :: zs)]

/-- Relations that share a coordinate are put into one contraction, if there are names for its
variables. -/
theorem joinWith_eq (ops : SemiringOps Bool Outcome) (left : r.arity = a) (right : s.arity = b)
    (ha : 1 ≤ a) (hb : 1 ≤ b) (enough : 3 ≤ a + b) (few : a + b ≤ 53) :
    ∃ xs v zs, Shared a b xs v zs ∧
      joinWith ops r s = Contraction.query ops (joined r s xs v zs) (xs ++ zs) >>= ofTensor := by
  obtain ⟨xs, v, zs, shared, outer, vars⟩ := exists_shared ha hb few
  refine ⟨xs, v, zs, shared, ?_⟩
  have cut : Count.sub a 1 = .ok (a - 1) := if_pos ha
  have whole := shared.length_result
  have middle : (xs ++ zs ++ [v]).drop (a + b - 2) = [v] := List.drop_left' whole
  unfold joinWith
  rw [left, right, if_neg (by omega), Contraction.names_eq (by omega), Contraction.names_eq (by omega),
    outer, vars, cut]
  show (if a - 1 > (xs ++ zs).length then (_ : Outcome (Relation Bool)) else _) = _
  rw [if_neg (by omega), middle, List.take_left' shared.front, List.drop_left' shared.front]
  rfl

/-! ## Entries -/

theorem ranges_joined (hr : r.tensor.shape = List.replicate a n)
    (hs : s.tensor.shape = List.replicate b n) (shared : Shared a b xs v zs) :
    ∀ e ∈ joined r s xs v zs, Contraction.Ranges n (v :: (xs ++ zs)) e := by
  obtain ⟨outside, distinct⟩ := List.nodup_cons.mp shared.distinct
  obtain ⟨front, back, -⟩ := List.nodup_append'.mp distinct
  refine List.forall_mem_cons.mpr ⟨.of ?_ ?_ ?_, List.forall_mem_singleton.mpr (.of ?_ ?_ ?_)⟩
  · rw [hr, List.length_append, List.length_singleton, shared.left]
  · refine List.nodup_append'.mpr ⟨front, List.nodup_singleton v, List.disjoint_singleton.mpr ?_⟩
    exact fun here => outside (List.mem_append_left _ here)
  · refine List.forall_mem_append.mpr ⟨fun u hu => ?_, List.forall_mem_singleton.mpr ?_⟩
    · exact List.mem_cons_of_mem _ (List.mem_append_left _ hu)
    · exact List.mem_cons_self
  · rw [hs, List.length_cons, shared.right]
  · exact List.nodup_cons.mpr ⟨fun here => outside (List.mem_append_right _ here), back⟩
  · exact List.cons_subset_cons _ (List.subset_append_right xs zs)

theorem covers_joined : ∀ u ∈ xs ++ zs, ∃ e ∈ joined r s xs v zs, u ∈ e.2 := by
  refine List.forall_mem_append.mpr ⟨fun u hu => ?_, fun u hu => ?_⟩
  · exact ⟨_, List.mem_cons_self, List.mem_append_left _ hu⟩
  · exact ⟨_, List.mem_cons_of_mem _ List.mem_cons_self, List.mem_cons_of_mem _ hu⟩

theorem witness_joined (τ : Point) : Contraction.Witness (joined r s xs v zs) τ ↔
    r.tensor.Holds (xs.map τ ++ [τ v]) ∧ s.tensor.Holds (τ v :: zs.map τ) := by
  simp [Contraction.Witness, joined]

/-- A witness with the coordinates of the result has a value in the middle. -/
theorem some_joined_iff (distinct : (v :: (xs ++ zs)).Nodup) {ls rs : List Nat}
    (left : ls.length = xs.length) (right : rs.length = zs.length) :
    (∃ τ : Point, (xs ++ zs).map τ = ls ++ rs ∧ Contraction.Witness (joined r s xs v zs) τ) ↔
      ∃ y, r.tensor.Holds (ls ++ [y]) ∧ s.tensor.Holds (y :: rs) := by
  constructor
  · rintro ⟨τ, values, witness⟩
    obtain ⟨first, second⟩ := (witness_joined τ).mp witness
    rw [List.map_append] at values
    obtain ⟨rfl, rfl⟩ := List.append_inj values (by rw [List.length_map, left])
    exact ⟨τ v, first, second⟩
  · rintro ⟨y, first, second⟩
    obtain ⟨τ, values⟩ : ∃ τ : Point, (v :: (xs ++ zs)).map τ = y :: (ls ++ rs) :=
      Contraction.exists_map_eq distinct (by simp [left, right])
    rw [List.map_cons, List.map_append] at values
    obtain ⟨middle, outer⟩ := List.cons_eq_cons.mp values
    obtain ⟨front, back⟩ := List.append_inj outer (by rw [List.length_map, left])
    refine ⟨τ, ?_, (witness_joined τ).mpr ?_⟩
    · rw [List.map_append, front, back]
    · rw [middle, front, back]
      exact ⟨first, second⟩

/-- The values in the middle are the witnesses. -/
theorem witnesses_joined (outside : v ∉ xs ++ zs) (ρ : Point) :
    Contraction.witnesses n [v] (joined r s xs v zs) ρ = ((Finset.range n).filter fun y =>
      r.tensor.Holds (xs.map ρ ++ [y]) ∧ s.tensor.Holds (y :: zs.map ρ)).card := by
  have kept (vars : List Char) (sub : ∀ u ∈ vars, u ∈ xs ++ zs) (y : Nat) :
      vars.map (Function.update ρ v y) = vars.map ρ := by
    refine List.map_congr_left fun u hu => Function.update_of_ne ?_ y ρ
    rintro rfl
    exact outside (sub u hu)
  have cells (y : Nat) : Contraction.Witness (joined r s xs v zs) (Function.update ρ v y) ↔
      r.tensor.Holds (xs.map ρ ++ [y]) ∧ s.tensor.Holds (y :: zs.map ρ) := by
    rw [witness_joined, Function.update_self, kept xs fun u => List.mem_append_left _,
      kept zs fun u => List.mem_append_right _]
  rw [Finset.card_filter]
  show ∑ y ∈ Finset.range n, (if Contraction.Witness _ _ then 1 else 0) = _
  simp only [cells]

/-! ## Composition and multiplication -/

/-- A composition relates by some value in the middle. -/
theorem yields_compose (hr : r.tensor.shape = List.replicate a n)
    (hs : s.tensor.shape = List.replicate b n) (ha : 1 ≤ a) (hb : 1 ≤ b) (enough : 3 ≤ a + b)
    (few : a + b ≤ 53) (room : safe → Shape.Spacious n (a + b - 1)) :
    Yields safe (fun u : Relation Bool => u.tensor.shape = List.replicate (a + b - 2) n ∧
        ∀ ls rs, Shape.Within (List.replicate (a - 1) n) ls →
          Shape.Within (List.replicate (b - 1) n) rs →
          (u.tensor.Holds (ls ++ rs) ↔ ∃ y, r.tensor.Holds (ls ++ [y]) ∧ s.tensor.Holds (y :: rs)))
      (r.compose s) := by
  obtain ⟨xs, v, zs, shared, call⟩ := joinWith_eq SemiringOps.logical (arity_of_shape hr)
    (arity_of_shape hs) ha hb enough few
  have result := (List.nodup_cons.mp shared.distinct).2
  unfold compose
  rw [call]
  refine (Contraction.yields_some (ranges_joined hr hs shared) (by rw [shared.length]; exact room)
    result covers_joined).bind fun t ht => ?_
  have shape : t.shape = List.replicate (a + b - 2) n := by
    rw [ht.shape_eq, shared.length_result]
  rw [ofTensor_of_pos (by omega) shape]
  refine .of_eq rfl ⟨shape, ?_⟩
  intro ls rs left right
  obtain ⟨front, back⟩ := shared.lengths left right
  refine ht.iff.trans ((and_iff_right ?_).trans (some_joined_iff shared.distinct front back))
  rw [List.length_append, List.replicate_add, shared.front, shared.back]
  exact Shape.within_append left right

/-- A multiplication relates by an odd number of values in the middle. -/
theorem yields_multiply (hr : r.tensor.shape = List.replicate a n)
    (hs : s.tensor.shape = List.replicate b n) (ha : 1 ≤ a) (hb : 1 ≤ b) (enough : 3 ≤ a + b)
    (few : a + b ≤ 53) (room : safe → Shape.Spacious n (a + b - 1)) :
    Yields safe (fun u : Relation Bool => u.tensor.shape = List.replicate (a + b - 2) n ∧
        ∀ ls rs, Shape.Within (List.replicate (a - 1) n) ls →
          Shape.Within (List.replicate (b - 1) n) rs →
          (u.tensor.Holds (ls ++ rs) ↔ Odd ((Finset.range n).filter fun y =>
            r.tensor.Holds (ls ++ [y]) ∧ s.tensor.Holds (y :: rs)).card))
      (r.multiply s) := by
  obtain ⟨xs, v, zs, shared, call⟩ := joinWith_eq SemiringOps.linear (arity_of_shape hr)
    (arity_of_shape hs) ha hb enough few
  obtain ⟨outside, result⟩ := List.nodup_cons.mp shared.distinct
  have rest (u : Char) : u ∈ [v] ↔ (∃ e ∈ joined r s xs v zs, u ∈ e.2) ∧ u ∉ xs ++ zs := by
    simp only [joined, List.mem_cons, List.not_mem_nil, or_false, exists_eq_or_imp, exists_eq_left,
      List.mem_append]
    constructor
    · rintro rfl
      exact ⟨.inl (.inr rfl), by simpa using outside⟩
    · tauto
  unfold multiply
  rw [call]
  refine (Contraction.yields_odd (ranges_joined hr hs shared) (by rw [shared.length]; exact room)
    result covers_joined (List.nodup_singleton v) rest).bind fun t ⟨shape, odd⟩ => ?_
  rw [shared.length_result] at shape
  rw [ofTensor_of_pos (by omega) shape]
  refine .of_eq rfl ⟨shape, ?_⟩
  intro ls rs left right
  obtain ⟨front, back⟩ := shared.lengths left right
  obtain ⟨ρ, values⟩ : ∃ ρ : Point, (xs ++ zs).map ρ = ls ++ rs :=
    Contraction.exists_map_eq result (by rw [List.length_append, List.length_append, front, back])
  have below : ∀ u ∈ xs ++ zs, ρ u < n := by
    have both := Shape.within_append left right
    rw [← List.replicate_add, Shape.within_replicate, ← values] at both
    exact List.forall_mem_map.mp both.2
  obtain ⟨rfl, rfl⟩ := List.append_inj ((List.map_append).symm.trans values)
    (by rw [List.length_map, front])
  rw [← List.map_append, odd ρ below, witnesses_joined outside]

/-! ## Refusals -/

/-- Relations with too few coordinates for a result are refused. -/
theorem joinWith_short (ops : SemiringOps Bool Outcome) (short : r.arity + s.arity < 3) :
    joinWith ops r s = Outcome.arity 3 (r.arity + s.arity) := by
  unfold joinWith
  rw [if_pos short]
  rfl

/-- Relations on different numbers of elements are refused: there are no names for their coordinates,
or the shared one has two sizes. -/
theorem joinWith_conflict (ops : SemiringOps Bool Outcome)
    (hr : r.tensor.shape = List.replicate a n) (hs : s.tensor.shape = List.replicate b d)
    (ha : 1 ≤ a) (hb : 1 ≤ b) (enough : 3 ≤ a + b) (ne : n ≠ d) :
    ∃ e, joinWith ops r s = .error (.error e) := by
  have left : r.arity = a := arity_of_shape hr
  have right : s.arity = b := arity_of_shape hs
  by_cases few : a + b ≤ 53
  · obtain ⟨xs, v, zs, shared, call⟩ := joinWith_eq ops left right ha hb enough few
    have axes : r.tensor.shape = List.replicate (xs ++ [v]).length n := by
      rw [hr, List.length_append, List.length_singleton, shared.left]
    have axes' : s.tensor.shape = List.replicate (v :: zs).length d := by
      rw [hs, List.length_cons, shared.right]
    have other : s.tensor.shape ≠ List.replicate (v :: zs).length n := by
      intro same
      exact ne ((List.replicate_inj.mp (same.symm.trans axes')).2.resolve_left (by simp))
    have conflict : ∃ u d, Contraction.query ops (joined r s xs v zs) (xs ++ zs) =
        .error (.error (.sizeConflict u n d)) :=
      Contraction.query_conflict ops _ axes
        (List.forall_mem_singleton.mpr ⟨v, zs, d, rfl, by simp, axes'⟩)
        ⟨_, List.mem_singleton_self _, other⟩
    obtain ⟨u, d', conflict⟩ := conflict
    refine ⟨.sizeConflict u n d', ?_⟩
    rw [call, conflict]
    rfl
  · -- the names of the result are asked for before those of all coordinates
    have many : Contraction.names (a + b - 1) = _ := Contraction.names_many (by omega)
    unfold joinWith
    rw [left, right, if_neg (by omega), many]
    by_cases outer : a + b - 2 ≤ 52
    · rw [Contraction.names_eq outer]
      exact ⟨_, rfl⟩
    · rw [Contraction.names_many (Nat.lt_of_not_le outer)]
      exact ⟨_, rfl⟩

end Relation

end FiniteStructures
