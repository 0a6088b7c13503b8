import FiniteStructures.Proofs.Contraction.Session
import FiniteStructures.Proofs.Relation.Joins
import Mathlib.Data.List.GetD

/-!
Projections.  The coordinates of r have a variable each, and the result has those of the chosen
coordinates in the chosen order,

    project r [2, 0]        r[x₀ x₁ x₂]   result[x₂ x₀]

so a tuple is in the projection when some tuple of r has its coordinates (`yields_project`).  There must
be a chosen coordinate, none beyond the arity, and none twice.  Joins and projections are put together
in `joins_and_projections`.
-/

namespace FiniteStructures

namespace Contraction

/-- Entries over variables of one size are not contracted to repeated variables. -/
theorem query_repeated {E : Type} (ops : SemiringOps E Outcome)
    {entries : List (Tensor E × List Char)} {result : List Char} {n : Nat}
    (shapes : ∀ e ∈ entries, e.1.shape = List.replicate e.2.length n)
    (covers : ∀ v ∈ result, ∃ e ∈ entries, v ∈ e.2) (repeated : ¬ result.Nodup) :
    query ops entries result = Outcome.arity result.toFinset.card result.length := by
  obtain ⟨c, filled, -, run⟩ := addOrEnd_alone .empty nofun shapes
  rw [List.nil_append] at filled
  have known : ∀ v ∈ result, v ∈ Contraction.bound c.sizes := fun v hv =>
    (mem_bound_of_filled filled).mpr (covers v hv)
  have refused : checkResult c.sizes result [] result =
      .error (.arityMismatch result.toFinset.card result.length) := by
    rcases fit_or_unfit (· ∈ Contraction.bound c.sizes) result with ⟨distinct, -⟩ | ⟨_, unfit⟩
    · exact absurd distinct repeated
    · rw [checkResult_unfit unfit]
      cases unfit with
      | repeated split distinct before again => rfl
      | unbound split distinct before new unknown =>
        exact absurd (known _ (by rw [split]; simp)) unknown
  rw [query_eq, run]
  show Contraction.get ops c result >>= _ = _
  unfold Contraction.get
  rw [filled.wellBound.1.accepts, if_neg Bool.false_ne_true, refused]
  rfl

end Contraction

namespace Relation

open Outcome Tensor

variable {safe : Prop} {a b n d : Nat} {r s : Relation Bool} {vars : List Char} {coords : List Nat}

/-! ## Choosing variables -/

/-- The variables of coordinates that there are. -/
def chosen (vars : List Char) (coords : List Nat) : List Char := coords.map (vars.getD · ' ')

theorem choose_ok (arity : Nat) (below : ∀ c ∈ coords, c < vars.length) :
    choose arity vars coords = .ok (chosen vars coords) := by
  refine List.mapM_ok fun c hc => ?_
  rw [List.getElem?_eq_getElem (below c hc), List.getD_eq_getElem _ _ (below c hc)]
  rfl

/-- The first coordinate beyond the variables ends the choice. -/
theorem choose_first (arity : Nat) {c : Nat} (first : coords.find? (vars.length ≤ ·) = some c) :
    choose arity vars coords = Count.add c 1 >>= Outcome.arity arity := by
  induction coords with
  | nil => cases first
  | cons c' coords ih =>
    unfold choose
    rw [List.mapM_cons]
    by_cases beyond : vars.length ≤ c'
    · rw [List.find?_cons_of_pos (by exact decide_eq_true beyond)] at first
      obtain rfl := Option.some.inj first
      rw [List.getElem?_eq_none beyond]
      cases Count.add c' 1 <;> rfl
    · rw [List.find?_cons_of_neg (by rwa [decide_eq_true_eq])] at first
      have rest := ih first
      unfold choose at rest
      rw [List.getElem?_eq_getElem (Nat.lt_of_not_le beyond), rest]
      cases Count.add c 1 <;> rfl

theorem choose_beyond (arity : Nat) {c : Nat} (first : coords.find? (vars.length ≤ ·) = some c)
    (countable : c + 1 < Count.limit) :
    choose arity vars coords = Outcome.arity arity (c + 1) := by
  rw [choose_first arity first, Count.add, Count.check, if_pos countable]
  rfl

theorem mem_chosen (below : ∀ c ∈ coords, c < vars.length) : ∀ v ∈ chosen vars coords, v ∈ vars := by
  refine List.forall_mem_map.mpr fun c hc => ?_
  rw [List.getD_eq_getElem _ _ (below c hc)]
  exact List.getElem_mem _

/-- Distinct variables are chosen by their coordinates. -/
theorem chosen_inj (distinct : vars.Nodup) (below : ∀ c ∈ coords, c < vars.length) :
    ∀ c ∈ coords, ∀ c' ∈ coords, vars.getD c ' ' = vars.getD c' ' ' → c = c' := by
  intro c hc c' hc' same
  rw [List.getD_eq_getElem _ _ (below c hc), List.getD_eq_getElem _ _ (below c' hc')] at same
  exact (distinct.getElem_inj_iff).mp same

theorem nodup_chosen_iff (distinct : vars.Nodup) (below : ∀ c ∈ coords, c < vars.length) :
    (chosen vars coords).Nodup ↔ coords.Nodup :=
  ⟨List.Nodup.of_map _, List.Nodup.map_on (chosen_inj distinct below)⟩

theorem card_chosen (distinct : vars.Nodup) (below : ∀ c ∈ coords, c < vars.length) :
    (chosen vars coords).toFinset.card = coords.toFinset.card := by
  have image : (chosen vars coords).toFinset = coords.toFinset.image (vars.getD · ' ') := by
    ext v
    simp [chosen]
  rw [image]
  refine Finset.card_image_of_injOn ?_
  intro c hc c' hc'
  exact chosen_inj distinct below c (List.mem_toFinset.mp hc) c' (List.mem_toFinset.mp hc')

/-- The values of the chosen variables are the coordinates of the values of all. -/
theorem map_chosen_iff (below : ∀ c ∈ coords, c < vars.length) (τ : Point) (u : List Nat) :
    (chosen vars coords).map τ = u ↔ coords.map (fun c => (vars.map τ)[c]?) = u.map some := by
  have cells : coords.map (fun c => (vars.map τ)[c]?) = ((chosen vars coords).map τ).map some := by
    unfold chosen
    rw [List.map_map, List.map_map]
    refine List.map_congr_left fun c hc => ?_
    rw [List.getElem?_map, List.getElem?_eq_getElem (below c hc), Function.comp_apply,
      Function.comp_apply, List.getD_eq_getElem _ _ (below c hc)]
    rfl
  rw [cells]
  exact (List.map_inj_right fun _ _ => Option.some.inj).symm

/-! ## Projections -/

theorem project_eq (few : r.arity ≤ 52) (nonempty : coords ≠ []) :
    r.project coords =
      choose r.arity (Contraction.namePool.take r.arity) coords >>= fun result =>
        Contraction.query SemiringOps.logical [(r.tensor, Contraction.namePool.take r.arity)] result
          >>= ofTensor := by
  unfold project
  rw [if_neg (by rwa [List.isEmpty_iff]), Contraction.names_eq few]
  rfl

/-- A projection has the chosen coordinates of tuples of the relation. -/
theorem yields_project (shape : r.tensor.shape = List.replicate a n) (few : a ≤ 52)
    (nonempty : coords ≠ []) (distinct : coords.Nodup) (below : ∀ c ∈ coords, c < a)
    (stored : safe → r.tensor.Stored) :
    Yields safe (fun u : Relation Bool => Table (List.replicate coords.length n)
        (fun u => ∃ t, r.tensor.Holds t ∧ coords.map (fun c => t[c]?) = u.map some) u.tensor)
      (r.project coords) := by
  have arity : r.arity = a := arity_of_shape shape
  have vars := Contraction.nodup_names a
  have length : (Contraction.namePool.take a).length = a := Contraction.length_names few
  rw [project_eq (by rwa [arity]) nonempty, arity]
  generalize Contraction.namePool.take a = vs at vars length ⊢
  rw [← length] at below
  rw [choose_ok a below]
  refine (Contraction.yields_shadow (by rwa [length]) vars
    ((nodup_chosen_iff vars below).mpr distinct) (mem_chosen below)
    (by rw [length]; exact fun h => (stored h).spacious shape)).bind fun t ht => ?_
  have size : (chosen vs coords).length = coords.length := List.length_map _
  rw [size] at ht
  rw [ofTensor_of_pos (List.length_pos_iff.mpr nonempty) ht.shape_eq]
  refine .of_eq rfl ⟨ht.shape_eq, fun u within => (ht.2 u within).trans ?_⟩
  constructor
  · rintro ⟨τ, values, holds⟩
    exact ⟨vs.map τ, holds, (map_chosen_iff below τ u).mp values⟩
  · rintro ⟨t, holds, values⟩
    have whole : t.length = vs.length := by
      rw [holds.within.length, shape, List.length_replicate, length]
    obtain ⟨τ, rfl⟩ := Contraction.exists_map_eq vars whole
    exact ⟨τ, (map_chosen_iff below τ u).mpr values, holds⟩

/-! ## Refusals -/

/-- There is no projection to no coordinates. -/
theorem project_nil : r.project [] = Outcome.arity 1 0 := rfl

/-- A coordinate beyond the arity is refused. -/
theorem project_beyond (few : r.arity ≤ 52) {c : Nat}
    (first : coords.find? (r.arity ≤ ·) = some c) (countable : c + 1 < Count.limit) :
    r.project coords = Outcome.arity r.arity (c + 1) := by
  have nonempty : coords ≠ [] := by
    rintro rfl
    cases first
  rw [project_eq few nonempty, choose_beyond r.arity
    (by rwa [Contraction.length_names few]) countable]
  rfl

/-- Coordinates chosen twice are refused. -/
theorem project_repeated (shape : r.tensor.shape = List.replicate a n) (few : a ≤ 52)
    (below : ∀ c ∈ coords, c < a) (repeated : ¬ coords.Nodup) :
    r.project coords = Outcome.arity coords.toFinset.card coords.length := by
  have arity : r.arity = a := arity_of_shape shape
  have nonempty : coords ≠ [] := by
    rintro rfl
    exact repeated .nil
  have vars := Contraction.nodup_names a
  have length : (Contraction.namePool.take a).length = a := Contraction.length_names few
  rw [project_eq (by rwa [arity]) nonempty, arity]
  generalize Contraction.namePool.take a = vs at vars length ⊢
  rw [← length] at below
  rw [choose_ok a below]
  have refused : Contraction.query SemiringOps.logical [(r.tensor, vs)] (chosen vs coords) = _ :=
    Contraction.query_repeated _ (List.forall_mem_singleton.mpr (by rwa [length]))
      (fun v hv => ⟨_, List.mem_singleton_self _, mem_chosen below v hv⟩)
      ((nodup_chosen_iff vars below).not.mpr repeated)
  rw [card_chosen vars below, chosen, List.length_map] at refused
  show Contraction.query _ _ (chosen vs coords) >>= ofTensor = _
  rw [chosen, refused]
  rfl

/-! ## Joins and projections -/

/-- Two relations that share a coordinate relate the others when some value of it is in both of them,
under composition, or an odd number of values, under multiplication; relations of other sizes or with
too few coordinates are refused.  A projection relates the chosen coordinates of the tuples that are in
the relation; coordinates that are missing, repeated or beyond the arity are refused.  Only where a
tensor does not fit, a size is out of range. -/
theorem joins_and_projections (hr : r.tensor.shape = List.replicate a n) :
    (∀ (s : Relation Bool) (b : Nat), s.tensor.shape = List.replicate b n → 1 ≤ a → 1 ≤ b →
      3 ≤ a + b → a + b ≤ 53 →
      Yields (Shape.Spacious n (a + b - 1)) (fun u : Relation Bool =>
          u.tensor.shape = List.replicate (a + b - 2) n ∧
          ∀ ls rs, Shape.Within (List.replicate (a - 1) n) ls →
            Shape.Within (List.replicate (b - 1) n) rs →
            (u.tensor.Holds (ls ++ rs) ↔
              ∃ y, r.tensor.Holds (ls ++ [y]) ∧ s.tensor.Holds (y :: rs)))
        (r.compose s) ∧
      Yields (Shape.Spacious n (a + b - 1)) (fun u : Relation Bool =>
          u.tensor.shape = List.replicate (a + b - 2) n ∧
          ∀ ls rs, Shape.Within (List.replicate (a - 1) n) ls →
            Shape.Within (List.replicate (b - 1) n) rs →
            (u.tensor.Holds (ls ++ rs) ↔ Odd ((Finset.range n).filter fun y =>
              r.tensor.Holds (ls ++ [y]) ∧ s.tensor.Holds (y :: rs)).card))
        (r.multiply s)) ∧
    (∀ (s : Relation Bool) (b d : Nat), s.tensor.shape = List.replicate b d → 1 ≤ a → 1 ≤ b →
      (n ≠ d ∨ a + b < 3) →
      (∃ e, r.compose s = .error (.error e)) ∧ ∃ e, r.multiply s = .error (.error e)) ∧
    (a ≤ 52 → ∀ coords : List Nat,
      (coords ≠ [] → coords.Nodup → (∀ c ∈ coords, c < a) →
        Yields r.tensor.Stored (fun u : Relation Bool =>
            u.tensor.shape = List.replicate coords.length n ∧
            ∀ xs, Shape.Within (List.replicate coords.length n) xs →
              (u.tensor.Holds xs ↔
                ∃ t, r.tensor.Holds t ∧ coords.map (fun c => t[c]?) = xs.map some))
          (r.project coords)) ∧
      (coords = [] → r.project coords = Outcome.arity 1 0) ∧
      (¬ coords.Nodup → (∀ c ∈ coords, c < a) →
        r.project coords = Outcome.arity coords.toFinset.card coords.length) ∧
      ∀ c, coords.find? (a ≤ ·) = some c → c + 1 < Count.limit →
        r.project coords = Outcome.arity a (c + 1)) := by
  have arity : r.arity = a := arity_of_shape hr
  refine ⟨?_, ?_, ?_⟩
  · intro s b hs ha hb enough few
    exact ⟨yields_compose hr hs ha hb enough few id, yields_multiply hr hs ha hb enough few id⟩
  · intro s b d hs ha hb mismatched
    have refused (ops : SemiringOps Bool Outcome) : ∃ e, joinWith ops r s = .error (.error e) := by
      by_cases enough : 3 ≤ a + b
      · exact joinWith_conflict ops hr hs ha hb enough
          (mismatched.resolve_right (Nat.not_lt_of_le enough))
      · have short : r.arity + s.arity < 3 := by
          rw [arity, arity_of_shape hs]
          exact Nat.lt_of_not_le enough
        exact ⟨_, joinWith_short ops short⟩
    exact ⟨refused _, refused _⟩
  · intro few coords
    refine ⟨?_, ?_, ?_, ?_⟩
    · intro nonempty distinct below
      exact (yields_project hr few nonempty distinct below id).mono fun u hu => ⟨hu.shape_eq, hu.2⟩
    · rintro rfl
      exact project_nil
    · intro repeated below
      exact project_repeated hr few below repeated
    · intro c first countable
      have beyond := project_beyond (r := r) (by rwa [arity]) (by rwa [arity]) countable
      rwa [arity] at beyond

/-- The tuples on three elements whose sum is two. -/
def sumTwo : Relation Bool := ⟨tabulate [3, 3, 3] fun t => t.sum = 2⟩

/-- The strict order of three elements. -/
def ascent : Relation Bool := ⟨tabulate [3, 3] fun t => t.getD 0 0 < t.getD 1 0⟩

/-- `0 + 0 + y = 2` and `y < 2` have no solution and `0 + 1 + y = 2` and `y < 2` have one; a sum of two can
begin with zero and end with two; and there is no fourth number, and no number twice. -/
theorem joins_and_projections_sums :
    sumTwo.tensor.shape = List.replicate 3 3 ∧
      (∃ u, sumTwo.compose ascent = .ok u ∧ ¬ u.tensor.Holds [0, 0, 2] ∧ u.tensor.Holds [0, 1, 2]) ∧
      (∃ u, sumTwo.multiply ascent = .ok u ∧ u.tensor.Holds [0, 1, 2]) ∧
      (∃ u, sumTwo.project [2, 0] = .ok u ∧ u.tensor.Holds [2, 0]) ∧
      sumTwo.project [1, 3] = Outcome.arity 3 4 ∧ sumTwo.project [1, 1] = Outcome.arity 1 2 := by
  have shape : sumTwo.tensor.shape = List.replicate 3 3 := rfl
  obtain ⟨joins, -, projections⟩ := joins_and_projections shape
  obtain ⟨composition, multiplication⟩ :=
    joins ascent 2 rfl (by decide) (by decide) (by decide) (by decide)
  have zeros : Shape.Within (List.replicate 2 3) [0, 0] := ⟨by decide, by decide, trivial⟩
  have bits : Shape.Within (List.replicate 2 3) [0, 1] := ⟨by decide, by decide, trivial⟩
  have last : Shape.Within (List.replicate 1 3) [2] := ⟨by decide, trivial⟩
  refine ⟨shape, ?_, ?_, ?_, ?_, ?_⟩
  · obtain ⟨u, run, -, holds⟩ | ⟨narrow, -⟩ := composition
    · refine ⟨u, run, (holds _ _ zeros last).not.mpr ?_, (holds _ _ bits last).mpr ?_⟩
      · rintro ⟨y, first, second⟩
        have none : ∀ y < 3, ¬ (sumTwo.tensor.Holds [0, 0, y] ∧ ascent.tensor.Holds [y, 2]) := by
          decide
        exact none y second.within.1 ⟨first, second⟩
      · exact ⟨1, by decide, by decide⟩
    · exact absurd (by decide) narrow
  · obtain ⟨u, run, -, holds⟩ | ⟨narrow, -⟩ := multiplication
    · exact ⟨u, run, (holds _ _ bits last).mpr (by decide)⟩
    · exact absurd (by decide) narrow
  · obtain ⟨related, -⟩ := projections (by decide) [2, 0]
    obtain ⟨u, run, -, holds⟩ | ⟨narrow, -⟩ := related (by decide) (by decide) (by decide)
    · have inside : Shape.Within (List.replicate 2 3) [2, 0] := ⟨by decide, by decide, trivial⟩
      exact ⟨u, run, (holds _ inside).mpr ⟨[0, 0, 2], by decide, rfl⟩⟩
    · exact absurd ⟨by decide, by decide⟩ narrow
  · obtain ⟨-, -, -, beyond⟩ := projections (by decide) [1, 3]
    exact beyond 3 rfl (by decide)
  · obtain ⟨-, -, repeated, -⟩ := projections (by decide) [1, 1]
    exact repeated (by decide) (by decide)

end Relation

end FiniteStructures
