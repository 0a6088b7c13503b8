import FiniteStructures.Proofs.Operation.Values

/-!
Superpositions.  Operations are graphs with the value first, so the superposition of f with g₁ … gₖ
is a join over the values in the middle,

    h takes r at x  ↔  some y₁ … yₖ:  gᵢ takes yᵢ at x, and f takes r at y₁ … yₖ

(`yields_composeWith`).  Where each operation takes exactly one value at all arguments, the values
in the middle are theirs, and h takes the one value of f there (`Valid.values`).  A polymer reads
the graph of f at the identified arguments (`yields_polymer`).
-/

namespace FiniteStructures

theorem forall_zipWith {α β γ : Type} {f : α → β → γ} {P : γ → Prop} {as : List α} {bs : List β}
    (length : as.length = bs.length) :
    (∀ c ∈ as.zipWith f bs, P c) ↔ List.Forall₂ (fun a b => P (f a b)) as bs := by
  rw [← List.map_uncurry_zip_eq_zipWith, List.forall_mem_map, List.forall₂_iff_zip]
  simp [length]

/-- What each member of a list relates to one thing, the list relates to one list. -/
theorem forall₂_iff_eq {α β : Type} {R : α → β → Prop} {as : List α} {bs : List β}
    (one : List.Forall₂ (fun a b => ∀ b', R a b' ↔ b' = b) as bs) (bs' : List β) :
    List.Forall₂ R as bs' ↔ bs' = bs := by
  induction one generalizing bs' with
  | nil => exact List.forall₂_nil_left_iff
  | cons first _ ih => simp [List.forall₂_cons_left_iff, first, ih]

theorem exists_forall₂ {α β : Type} {R : α → β → Prop} {as : List α} (h : ∀ a ∈ as, ∃ b, R a b) :
    ∃ bs, List.Forall₂ R as bs := by
  induction as with
  | nil => exact ⟨[], .nil⟩
  | cons a as ih =>
    obtain ⟨⟨b, first⟩, rest⟩ := List.forall_mem_cons.mp h
    obtain ⟨bs, others⟩ := ih rest
    exact ⟨b :: bs, .cons first others⟩

namespace Operation

open Outcome Tensor

variable {safe : Prop} {n k m : Nat} {f h : Operation Bool} {args : List Nat}

/-! ## The contraction -/

variable {inner : List (Operation Bool)} {v : Char} {ys xs : List Char}

/-- What the contraction of `composeWith` is made of: `f` takes `v` at the `ys`, and each of these
is taken by an inner operation at the `xs`. -/
def superposed (f : Operation Bool) (inner : List (Operation Bool)) (v : Char) (ys xs : List Char) :
    List (Tensor Bool × List Char) :=
  (f.tensor, v :: ys) :: inner.zipWith (fun g y => (g.tensor, y :: xs)) ys

theorem forall_superposed {P : Tensor Bool × List Char → Prop} (length : inner.length = ys.length) :
    (∀ e ∈ f.superposed inner v ys xs, P e) ↔
      P (f.tensor, v :: ys) ∧ List.Forall₂ (fun g y => P (g.tensor, y :: xs)) inner ys := by
  rw [superposed, List.forall_mem_cons, forall_zipWith length]

/-- Variables for the value, for the values in the middle and for the arguments. -/
structure Layout (k m : Nat) (v : Char) (ys xs : List Char) : Prop where
  middle : ys.length = k
  arguments : xs.length = m
  distinct : (v :: (ys ++ xs)).Nodup

theorem exists_layout (few : 1 + k + m ≤ 52) :
    ∃ v ys xs, Layout k m v ys xs ∧ Contraction.namePool.take (1 + k + m) = v :: (ys ++ xs) := by
  have length := Contraction.length_names few
  have nodup := Contraction.nodup_names (1 + k + m)
  generalize Contraction.namePool.take (1 + k + m) = vars at length nodup ⊢
  cases vars with
  | nil =>
    rw [List.length_nil] at length
    omega
  | cons v rest =>
    have split := List.take_append_drop k rest
    rw [List.length_cons] at length
    refine ⟨v, rest.take k, rest.drop k, ⟨?_, ?_, ?_⟩, by rw [split]⟩
    · rw [List.length_take]
      omega
    · rw [List.length_drop]
      omega
    · rwa [split]

/-- The inner operations have the arity, or the first that has not is named. -/
theorem requireArities_cases (arity : Nat) (inner : List (Operation Bool)) :
    (∀ g ∈ inner, g.arity = arity) ∧ requireArities arity inner = .ok () ∨
      ∃ g ∈ inner, g.arity ≠ arity ∧ requireArities arity inner = Outcome.arity arity g.arity := by
  induction inner with
  | nil => exact .inl ⟨nofun, rfl⟩
  | cons g inner ih =>
    have step : requireArities arity (g :: inner) =
        (g.requireArity arity >>= fun _ => requireArities arity inner) := rfl
    by_cases same : g.arity = arity
    · rw [step, requireArity, if_neg (not_not.mpr same)]
      rcases ih with ⟨rest, run⟩ | ⟨g', member, ne, run⟩
      · exact .inl ⟨List.forall_mem_cons.mpr ⟨same, rest⟩, run⟩
      · exact .inr ⟨g', List.mem_cons_of_mem _ member, ne, run⟩
    · rw [step, requireArity, if_pos same]
      exact .inr ⟨g, List.mem_cons_self, same, rfl⟩

/-- Operations of the right number and of one arity are put into one contraction, if there are
names for its variables. -/
theorem composeWith_eq (length : inner.length = f.arity) (nonempty : inner ≠ [])
    (arities : ∀ g ∈ inner, g.arity = m) (few : 1 + f.arity + m ≤ 52) :
    ∃ v ys xs, Layout f.arity m v ys xs ∧ f.composeWith inner =
      Contraction.query SemiringOps.logical (f.superposed inner v ys xs) (v :: xs) >>=
        ofTensor := by
  obtain ⟨v, ys, xs, layout, names⟩ := exists_layout few
  refine ⟨v, ys, xs, layout, ?_⟩
  obtain ⟨first, rest, rfl⟩ := List.exists_cons_of_ne_nil nonempty
  have arity : first.arity = m := arities first List.mem_cons_self
  have checked : requireArities m (first :: rest) = .ok () := by
    rcases requireArities_cases m (first :: rest) with ⟨-, run⟩ | ⟨g, member, ne, -⟩
    · exact run
    · exact absurd (arities g member) ne
  have middle : (ys ++ xs).take f.arity = ys := List.take_left' layout.middle
  have arguments : (ys ++ xs).drop f.arity = xs := List.drop_left' layout.middle
  unfold composeWith
  rw [if_neg (not_not.mpr length)]
  dsimp only
  rw [arity, checked, Contraction.names_eq few, names]
  have drop : (v :: (ys ++ xs)).drop (1 + f.arity) = xs := by
    rw [Nat.add_comm, List.drop_succ_cons, arguments]
  show Contraction.query SemiringOps.logical _ _ >>= ofTensor = _
  rw [List.take_succ_cons, List.take_zero, List.drop_succ_cons, List.drop_zero, middle, drop]
  rfl

/-- The operations share the numbers below `n`, and the inner ones have `m` arguments. -/
structure Fitting (k m n : Nat) (f : Operation Bool) (inner : List (Operation Bool)) : Prop where
  outer : f.tensor.shape = List.replicate (k + 1) n
  length : inner.length = k
  graphs : ∀ g ∈ inner, g.tensor.shape = List.replicate (m + 1) n

/-- The entries have distinct variables, all of one size. -/
theorem ranges_superposed (fitting : Fitting k m n f inner) (layout : Layout k m v ys xs) :
    ∀ e ∈ f.superposed inner v ys xs, Contraction.Ranges n (v :: (ys ++ xs)) e := by
  obtain ⟨outside, distinct⟩ := List.nodup_cons.mp layout.distinct
  obtain ⟨middle, arguments, disjoint⟩ := List.nodup_append'.mp distinct
  refine (forall_superposed (fitting.length.trans layout.middle.symm)).mpr ⟨?_, ?_⟩
  · refine .of ?_ (List.nodup_cons.mpr ⟨fun here => ?_, middle⟩) ?_
    · rw [fitting.outer, List.length_cons, layout.middle]
    · exact outside (List.mem_append_left _ here)
    · exact List.cons_subset_cons _ (List.subset_append_left ys xs)
  · refine List.forall₂_iff_zip.mpr ⟨fitting.length.trans layout.middle.symm, ?_⟩
    intro g y member
    obtain ⟨inside, known⟩ := List.of_mem_zip member
    refine .of ?_ (List.nodup_cons.mpr ⟨fun here => disjoint known here, arguments⟩) ?_
    · rw [fitting.graphs g inside, List.length_cons, layout.arguments]
    · refine List.forall_mem_cons.mpr ⟨?_, fun u hu => ?_⟩
      · exact List.mem_cons_of_mem _ (List.mem_append_left _ known)
      · exact List.mem_cons_of_mem _ (List.mem_append_right _ hu)

/-- A witness with a value and arguments has the values in the middle. -/
theorem some_superposed_iff (length : inner.length = ys.length)
    (distinct : (v :: (ys ++ xs)).Nodup) {r : Nat} (arguments : args.length = xs.length) :
    (∃ τ : Point, (v :: xs).map τ = r :: args ∧
        Contraction.Witness (f.superposed inner v ys xs) τ) ↔
      ∃ zs, List.Forall₂ (fun g z => g.tensor.Holds (z :: args)) inner zs ∧
        f.tensor.Holds (r :: zs) := by
  have entries (τ : Point) : Contraction.Witness (f.superposed inner v ys xs) τ ↔
      f.tensor.Holds (τ v :: ys.map τ) ∧
        List.Forall₂ (fun g z => g.tensor.Holds (z :: xs.map τ)) inner (ys.map τ) := by
    rw [List.forall₂_map_right_iff]
    exact forall_superposed length
  constructor
  · rintro ⟨τ, values, witness⟩
    obtain ⟨outer, middle⟩ := (entries τ).mp witness
    obtain ⟨rfl, rfl⟩ := List.cons_eq_cons.mp values
    exact ⟨ys.map τ, middle, outer⟩
  · rintro ⟨zs, middle, outer⟩
    have same : zs.length = ys.length := middle.length_eq.symm.trans length
    have tuple : (r :: (zs ++ args)).length = (v :: (ys ++ xs)).length := by
      rw [List.length_cons, List.length_cons, List.length_append, List.length_append, same,
        arguments]
    obtain ⟨τ, values⟩ := Contraction.exists_map_eq distinct tuple
    rw [List.map_cons, List.map_append] at values
    obtain ⟨value, rest⟩ := List.cons_eq_cons.mp values
    obtain ⟨left, right⟩ := List.append_inj rest (by rw [List.length_map, same])
    refine ⟨τ, ?_, (entries τ).mpr ?_⟩
    · rw [List.map_cons, value, right]
    · rw [value, left, right]
      exact ⟨outer, middle⟩

/-- A superposition takes the values that `f` takes at values of the inner operations. -/
theorem yields_composeWith (fitting : Fitting k m n f inner) (pos : 1 ≤ k) (few : 1 + k + m ≤ 52)
    (room : safe → Shape.Spacious n (1 + k + m)) :
    Yields safe (fun h : Operation Bool => h.tensor.shape = List.replicate (m + 1) n ∧
        ∀ args, Shape.Within (List.replicate m n) args → ∀ r, (h.tensor.Holds (r :: args) ↔
          ∃ zs, List.Forall₂ (fun g z => g.tensor.Holds (z :: args)) inner zs ∧
            f.tensor.Holds (r :: zs)))
      (f.composeWith inner) := by
  have arity : f.arity = k := arity_of_graph fitting.outer
  have nonempty : inner ≠ [] := List.ne_nil_of_length_pos (by rw [fitting.length]; omega)
  obtain ⟨v, ys, xs, layout, call⟩ := composeWith_eq (fitting.length.trans arity.symm) nonempty
    (fun g member => arity_of_graph (fitting.graphs g member)) (arity.symm ▸ few)
  rw [arity] at layout
  have length : inner.length = ys.length := fitting.length.trans layout.middle.symm
  have covers : ∀ u ∈ v :: xs, ∃ e ∈ f.superposed inner v ys xs, u ∈ e.2 := by
    intro u hu
    rcases List.mem_cons.mp hu with rfl | hu
    · exact ⟨_, List.mem_cons_self, List.mem_cons_self⟩
    · obtain ⟨g, rest, rfl⟩ := List.exists_cons_of_ne_nil nonempty
      obtain ⟨y, ys', rfl⟩ : ∃ y ys', ys = y :: ys' :=
        List.exists_cons_of_length_pos (by rw [layout.middle]; omega)
      exact ⟨(g.tensor, y :: xs), List.mem_cons_of_mem _ List.mem_cons_self,
        List.mem_cons_of_mem _ hu⟩
  have result : (v :: xs).Nodup :=
    layout.distinct.sublist ((List.sublist_append_right ys xs).cons_cons v)
  have axes : (v :: (ys ++ xs)).length = 1 + k + m := by
    rw [List.length_cons, List.length_append, layout.middle, layout.arguments]
    omega
  rw [call]
  refine (Contraction.yields_some (ranges_superposed fitting layout) (by rw [axes]; exact room)
    result covers).bind fun t ht => ?_
  have shape : t.shape = List.replicate (m + 1) n := by
    rw [ht.shape_eq, List.length_cons, layout.arguments]
  unfold ofTensor
  rw [Relation.ofTensor_uniform shape]
  refine .of_eq rfl ⟨shape, ?_⟩
  intro args within r
  have arguments : args.length = xs.length := by
    rw [within.length, List.length_replicate, layout.arguments]
  refine ht.iff.trans (Iff.trans ?_ (some_superposed_iff length layout.distinct arguments))
  refine and_iff_right_of_imp fun witness => ?_
  obtain ⟨zs, -, outer⟩ := (some_superposed_iff length layout.distinct arguments).mp witness
  have inside := outer.within
  rw [fitting.outer, List.replicate_succ] at inside
  rw [List.length_cons, layout.arguments, List.replicate_succ]
  exact ⟨inside.1, within⟩

/-! ## Superpositions of valid operations -/

/-- Valid operations have values, at which the outer one has a value. -/
theorem Valid.values (valid : f.Valid k n) (length : inner.length = k)
    (valids : ∀ g ∈ inner, g.Valid m n) (within : Shape.Within (List.replicate m n) args) :
    ∃ zs v, List.Forall₂ (fun g z => g.value args = .ok (some z)) inner zs ∧
      f.value zs = .ok (some v) ∧
      ∀ r, (∃ zs, List.Forall₂ (fun g z => g.tensor.Holds (z :: args)) inner zs ∧
        f.tensor.Holds (r :: zs)) ↔ r = v := by
  have each : ∀ g ∈ inner, ∃ z, z < n ∧ g.value args = .ok (some z) ∧
      ∀ r, g.tensor.Holds (r :: args) ↔ r = z := by
    intro g member
    obtain ⟨z, one⟩ := (valids g member).exists_value within
    have taken := ((one z).mpr rfl).within
    rw [(valids g member).shape, List.replicate_succ] at taken
    exact ⟨z, taken.1, value_eq (valids g member).shape within one, one⟩
  obtain ⟨zs, middle⟩ := exists_forall₂ each
  have inside : Shape.Within (List.replicate k n) zs := by
    have flipped : List.Forall₂ (fun z (g : Operation Bool) => z < n ∧
        g.value args = .ok (some z) ∧ ∀ r, g.tensor.Holds (r :: args) ↔ r = z) zs inner :=
      middle.flip
    exact Shape.within_replicate.mpr
      ⟨middle.length_eq.symm.trans length, ((List.forall₂_and_left _ _).mp flipped).1⟩
  obtain ⟨v, one⟩ := valid.exists_value inside
  refine ⟨zs, v, middle.imp fun g z h => h.2.1, value_eq valid.shape inside one, fun r => ?_⟩
  have values := forall₂_iff_eq (middle.imp fun g z h => h.2.2)
  simp only [values, exists_eq_left, one]

theorem yields_superposition (valid : f.Valid k n) (pos : 1 ≤ k) (length : inner.length = k)
    (valids : ∀ g ∈ inner, g.Valid m n) (few : 1 + k + m ≤ 52)
    (room : safe → Shape.Spacious n (1 + k + m)) :
    Yields safe (fun h : Operation Bool => h.Valid m n ∧
        ∀ args, Shape.Within (List.replicate m n) args →
          ∃ zs v, List.Forall₂ (fun g z => g.value args = .ok (some z)) inner zs ∧
            f.value zs = .ok (some v) ∧ h.value args = .ok (some v))
      (f.composeWith inner) := by
  have fitting : Fitting k m n f inner := ⟨valid.shape, length, fun g hg => (valids g hg).shape⟩
  refine (yields_composeWith fitting pos few room).mono fun h ⟨shape, holds⟩ => ⟨?_, ?_⟩
  · obtain ⟨g, rest, rfl⟩ := List.exists_cons_of_length_pos (l := inner) (by rw [length]; omega)
    have first : g.Valid m n := valids g List.mem_cons_self
    obtain ⟨b, run, -⟩ :=
      (isOperation_alike (first.shape.trans shape.symm)).of_ok first.functional
    refine valid_of_values shape (fun args within => ?_) run
    obtain ⟨zs, v, -, -, one⟩ := valid.values length valids within
    exact ⟨v, fun r => (holds args within r).trans (one r)⟩
  · intro args within
    obtain ⟨zs, v, middle, outer, one⟩ := valid.values length valids within
    exact ⟨zs, v, middle, outer, value_eq shape within fun r => (holds args within r).trans (one r)⟩

/-! ## Polymers -/

variable {arity : Nat} {places : List Nat} {R : Nat → List Nat → Prop}

/-- Each axis of the graph lands on that of the argument it is identified with. -/
theorem lands_polymer (length : places.length = k) (below : ∀ i ∈ places, i < arity) :
    Lands (List.replicate (arity + 1) n) (List.replicate (k + 1) n) (0 :: places.map (· + 1)) := by
  refine lands_replicate (by rw [List.length_cons, List.length_map, length]) ?_
  refine List.forall_mem_cons.mpr ⟨Nat.succ_pos arity, List.forall_mem_map.mpr fun i known => ?_⟩
  exact Nat.succ_lt_succ (below i known)

/-- The identified arguments are arguments. -/
theorem within_places (length : places.length = k) (below : ∀ i ∈ places, i < arity)
    (within : Shape.Within (List.replicate arity n) args) :
    Shape.Within (List.replicate k n) (places.map fun i => args.getD i 0) := by
  refine Shape.within_replicate.mpr ⟨by rw [List.length_map, length], ?_⟩
  refine List.forall_mem_map.mpr fun i known => within_getD within ?_
  rw [List.getElem?_replicate_of_lt (below i known)]

theorem polymer_eq (graph : f.tensor.shape = List.replicate (k + 1) n) (length : places.length = k)
    (below : ∀ i ∈ places, i < arity) :
    f.polymer arity places = (do
      return ⟨← f.tensor.reshape (← graphShape n arity) (0 :: places.map (· + 1))⟩) := by
  have size : f.size = .ok n := Relation.size_of_shape graph
  have inside : places.find? (· ≥ arity) = none := by
    refine List.find?_eq_none.mpr ?_
    intro i known
    have := below i known
    simpa using this
  unfold polymer
  rw [arity_of_graph graph, if_neg (not_not.mpr length), inside, size]
  rfl

/-- A polymer takes the values at the identified arguments, and only one that can be stored is built. -/
theorem Graph.polymer (hf : Graph k n R f) (length : places.length = k)
    (below : ∀ i ∈ places, i < arity)
    (room : safe → Shape.Spacious n (max k arity + 1) ∧ arity + 1 < Count.storeLimit) :
    Yields safe (fun h => Graph arity n (fun v args => R v (places.map fun i => args.getD i 0)) h ∧
        Shape.Spacious n (arity + 1)) (f.polymer arity places) := by
  rw [polymer_eq hf.shape_eq length below]
  refine (yields_graphShape fun hs => (room hs).2).known.bind fun shape ⟨same, run⟩ => ?_
  obtain ⟨-, axes⟩ := graphShape_ok run
  subst same
  have fits (hs : safe) : Shape.span (List.replicate (arity + 1) n) < Count.storeLimit ∧
      ((List.replicate (k + 1) n).length + 1) * Shape.span (List.replicate (k + 1) n) <
        Count.limit := by
    have target : Shape.Spacious n (arity + 1) := (room hs).1.mono (by omega)
    have source : Shape.Spacious n (k + 1) := (room hs).1.mono (by omega)
    rw [List.length_replicate]
    exact ⟨target.store, source.strides⟩
  refine ((graph_iff_table.mp hf).reshape (lands_polymer length below) fits).known.bind
    fun t ⟨table, moved⟩ => .of_eq rfl ⟨graph_iff_table.mpr (table.congr ?_),
      Shape.spacious_of_storable axes (storable_of_reshape moved)⟩
  refine forall_graph.mpr fun v _ args _ => ?_
  rw [OnGraph, pick, List.map_cons, List.map_map]
  rfl

/-- A polymer of a valid operation is valid, and has its values at the identified arguments. -/
theorem yields_polymer (valid : f.Valid k n) (length : places.length = k)
    (below : ∀ i ∈ places, i < arity)
    (room : safe → Shape.Spacious n (max k arity + 1) ∧ arity + 1 < Count.storeLimit) :
    Yields safe (fun h : Operation Bool => h.Valid arity n ∧
        ∀ args, Shape.Within (List.replicate arity n) args →
          ∃ v, f.value (places.map fun i => args.getD i 0) = .ok (some v) ∧
            h.value args = .ok (some v))
      (f.polymer arity places) := by
  refine ((graph_self valid.shape).polymer length below room).mono fun h ⟨graph, spacious⟩ => ?_
  have values : ∀ args, Shape.Within (List.replicate arity n) args →
      ∃ v, f.value (places.map fun i => args.getD i 0) = .ok (some v) ∧
        ∀ r, h.tensor.Holds (r :: args) ↔ r = v := by
    intro args within
    obtain ⟨v, one⟩ := valid.exists_value (within_places length below within)
    refine ⟨v, value_eq valid.shape (within_places length below within) one, fun r => ?_⟩
    rw [graph.iff, one]
    refine and_iff_right_of_imp ?_
    rintro rfl
    have taken := ((one r).mpr rfl).within
    rw [valid.shape, List.replicate_succ] at taken
    exact ⟨taken.1, within⟩
  obtain ⟨b, run, -⟩ := (yields_isOperation graph.shape_eq fun _ => spacious).of_safe trivial
  refine ⟨valid_of_values graph.shape_eq (fun args within => ?_) run, fun args within => ?_⟩
  · obtain ⟨v, -, one⟩ := values args within
    exact ⟨v, one⟩
  · obtain ⟨v, outer, one⟩ := values args within
    exact ⟨v, outer, value_eq graph.shape_eq within one⟩

/-! ## Refusals -/

/-- Inner operations of one arity, one of them on other numbers, are refused where a variable would
get a second size. -/
theorem composeWith_conflict (graph : f.tensor.shape = List.replicate (k + 1) n)
    (length : inner.length = k)
    (graphs : ∀ g ∈ inner, ∃ d, g.tensor.shape = List.replicate (m + 1) d)
    (few : 1 + k + m ≤ 52) (other : ∃ g ∈ inner, g.size ≠ .ok n) :
    ∃ v d, f.composeWith inner = .error (.error (.sizeConflict v n d)) := by
  have arity : f.arity = k := arity_of_graph graph
  obtain ⟨g, member, ne⟩ := other
  have arities : ∀ g ∈ inner, g.arity = m := by
    intro g member
    obtain ⟨d, shape⟩ := graphs g member
    exact arity_of_graph shape
  obtain ⟨v, ys, xs, layout, call⟩ := composeWith_eq (length.trans arity.symm)
    (List.ne_nil_of_mem member) arities (arity.symm ▸ few)
  rw [arity] at layout
  have axes : f.tensor.shape = List.replicate (v :: ys).length n := by
    rw [graph, List.length_cons, layout.middle]
  have same : inner.length = ys.length := length.trans layout.middle.symm
  have uniform : ∀ e ∈ inner.zipWith (fun g y => (g.tensor, y :: xs)) ys, ∃ y vars d,
      e.2 = y :: vars ∧ y ∈ v :: ys ∧ e.1.shape = List.replicate e.2.length d := by
    refine (forall_zipWith same).mpr (List.forall₂_iff_zip.mpr ⟨same, ?_⟩)
    intro g y pair
    obtain ⟨inside, here⟩ := List.of_mem_zip pair
    obtain ⟨d, shape⟩ := graphs g inside
    refine ⟨y, xs, d, rfl, List.mem_cons_of_mem _ here, ?_⟩
    rw [shape, List.length_cons, layout.arguments]
  have other : ∃ e ∈ inner.zipWith (fun g y => (g.tensor, y :: xs)) ys,
      e.1.shape ≠ List.replicate e.2.length n := by
    by_contra none
    simp only [not_exists, not_and, not_not] at none
    rw [← List.map_fst_zip (Nat.le_of_eq same)] at member
    obtain ⟨⟨g, y⟩, pair, rfl⟩ := List.mem_map.mp member
    have shape := (List.forall₂_iff_zip.mp ((forall_zipWith same).mp none)).2 pair
    exact absurd (Relation.size_of_shape (r := g.toRelation) shape) ne
  have conflict : ∃ u d, Contraction.query SemiringOps.logical (f.superposed inner v ys xs) (v :: xs) =
      .error (.error (.sizeConflict u n d)) := Contraction.query_conflict _ _ axes uniform other
  obtain ⟨u, d, conflict⟩ := conflict
  refine ⟨u, d, ?_⟩
  rw [call, conflict]
  rfl

/-- What stops before the contraction stops the superposition. -/
theorem composeWith_stops {first : Operation Bool} {rest : List (Operation Bool)} {e : Fault}
    (length : (first :: rest).length = f.arity)
    (stops : (do
      requireArities first.arity (first :: rest)
      Contraction.names (1 + f.arity + first.arity)) = .error e) :
    f.composeWith (first :: rest) = .error e := by
  unfold composeWith
  rw [if_neg (not_not.mpr length)]
  dsimp only
  cases checked : requireArities first.arity (first :: rest) with
  | error e' =>
    rw [checked] at stops
    obtain rfl : e' = e := Except.error.inj stops
    rfl
  | ok _ =>
    rw [checked] at stops
    have unnamed : Contraction.names (1 + f.arity + first.arity) = .error e := stops
    rw [unnamed]
    rfl

/-- Inner operations that are too few or too many, differ in their arity or are not all on the
numbers below `n` are refused with an error. -/
theorem composeWith_refuses (graph : f.tensor.shape = List.replicate (k + 1) n)
    (graphs : ∀ g ∈ inner, ∃ m d, g.tensor.shape = List.replicate (m + 1) d)
    (mismatched : inner.length ≠ k ∨ (∃ g ∈ inner, ∃ g' ∈ inner, g.arity ≠ g'.arity) ∨
      ∃ g ∈ inner, g.size ≠ .ok n) : ∃ e, f.composeWith inner = .error (.error e) := by
  have arity : f.arity = k := arity_of_graph graph
  by_cases length : inner.length = k
  · have counted : inner.length = f.arity := length.trans arity.symm
    cases inner with
    | nil =>
      refine ⟨.arityMismatch 1 0, ?_⟩
      unfold composeWith
      rw [if_neg (not_not.mpr counted)]
      rfl
    | cons first rest =>
      rcases requireArities_cases first.arity (first :: rest) with
        ⟨same, passed⟩ | ⟨g, -, -, stopped⟩
      · by_cases few : 1 + k + first.arity ≤ 52
        · have one : ∀ g ∈ first :: rest, ∃ d,
              g.tensor.shape = List.replicate (first.arity + 1) d := by
            intro g member
            obtain ⟨m, d, shape⟩ := graphs g member
            rw [← same g member, arity_of_graph shape]
            exact ⟨d, shape⟩
          have sized : ∃ g ∈ first :: rest, g.size ≠ .ok n := by
            rcases mismatched with other | ⟨g, hg, g', hg', ne⟩ | sized
            · exact absurd length other
            · exact absurd ((same g hg).trans (same g' hg').symm) ne
            · exact sized
          obtain ⟨v, d, conflict⟩ := composeWith_conflict graph length one few sized
          exact ⟨_, conflict⟩
        · refine ⟨.unsupported (.contraction (1 + f.arity + first.arity) 52),
            composeWith_stops counted ?_⟩
          rw [passed, Contraction.names_many (by rw [arity]; exact Nat.lt_of_not_le few)]
          rfl
      · refine ⟨.arityMismatch first.arity g.arity, composeWith_stops counted ?_⟩
        rw [stopped]
        rfl
  · refine ⟨.arityMismatch k inner.length, ?_⟩
    unfold composeWith
    rw [arity, if_pos length]
    rfl

/-! ## The composed function -/

/-- Superpositions and polymers of valid operations are valid and compute the composed function, at
all arguments; only where the tensors of the join do not fit, a size is out of range.  Inner
operations of a wrong number, of different arities or on other numbers are refused with an error. -/
theorem superposition_computes (graph : f.tensor.shape = List.replicate (k + 1) n) :
    (∀ (inner : List (Operation Bool)) (m : Nat), f.isOperation = .ok true → 1 ≤ k →
      inner.length = k → (∀ g ∈ inner, g.Valid m n) → 1 + k + m ≤ 52 →
      Yields (Shape.Spacious n (1 + k + m)) (fun h : Operation Bool => h.Valid m n ∧
          ∀ args, Shape.Within (List.replicate m n) args →
            ∃ zs v, List.Forall₂ (fun g z => g.value args = .ok (some z)) inner zs ∧
              f.value zs = .ok (some v) ∧ h.value args = .ok (some v))
        (f.composeWith inner)) ∧
    (∀ (arity : Nat) (places : List Nat), f.isOperation = .ok true → places.length = k →
      (∀ i ∈ places, i < arity) →
      Yields (Shape.Spacious n (max k arity + 1) ∧ arity + 1 < Count.storeLimit)
        (fun h : Operation Bool => h.Valid arity n ∧
          ∀ args, Shape.Within (List.replicate arity n) args →
            ∃ v, f.value (places.map fun i => args.getD i 0) = .ok (some v) ∧
              h.value args = .ok (some v))
        (f.polymer arity places)) ∧
    ∀ inner : List (Operation Bool),
      (∀ g ∈ inner, ∃ m d, g.tensor.shape = List.replicate (m + 1) d) →
      (inner.length ≠ k ∨ (∃ g ∈ inner, ∃ g' ∈ inner, g.arity ≠ g'.arity) ∨
        ∃ g ∈ inner, g.size ≠ .ok n) →
      ∃ e, f.composeWith inner = .error (.error e) := by
  refine ⟨?_, ?_, ?_⟩
  · intro inner m functional pos length valids few
    exact yields_superposition ⟨graph, functional⟩ pos length valids few id
  · intro arity places functional length below
    exact yields_polymer ⟨graph, functional⟩ length below id
  · intro inner graphs mismatched
    exact composeWith_refuses graph graphs mismatched

/-- Disjunction of truth values. -/
def disjunction : Operation Bool :=
  ⟨⟨[2, 2, 2], [true, false, false, true, false, true, false, true], rfl⟩⟩

/-- Negation of truth values. -/
def negation : Operation Bool := ⟨⟨[2, 2], [false, true, true, false], rfl⟩⟩

/-- `¬x ∨ ¬x` at falsity, `x ∨ x` at falsity, and one inner operation where two are needed. -/
theorem superposition_computes_disjunction :
    disjunction.tensor.shape = List.replicate 3 2 ∧
      (∃ h, disjunction.composeWith [negation, negation] = .ok h ∧ h.value [0] = .ok (some 1)) ∧
      (∃ h, disjunction.polymer 1 [0, 0] = .ok h ∧ h.value [0] = .ok (some 0)) ∧
      ∃ e, disjunction.composeWith [negation] = .error (.error e) := by
  have shape : disjunction.tensor.shape = List.replicate 3 2 := rfl
  obtain ⟨superposition, polymers, refusals⟩ := superposition_computes (k := 2) shape
  have functional : disjunction.isOperation = .ok true := by decide +kernel
  have valid : negation.Valid 1 2 := ⟨rfl, by decide +kernel⟩
  have inside : Shape.Within (List.replicate 1 2) [0] := ⟨by decide, trivial⟩
  refine ⟨shape, ?_, ?_, ?_⟩
  · rcases superposition [negation, negation] 1 functional (by decide) rfl (by simpa using valid)
      (by decide) with ⟨h, run, -, values⟩ | ⟨narrow, -⟩
    · obtain ⟨zs, v, middle, outer, value⟩ := values [0] inside
      have first : negation.value [0] = .ok (some 1) := by decide +kernel
      obtain ⟨z, rest, here, others, rfl⟩ := List.forall₂_cons_left_iff.mp middle
      obtain ⟨z', none, here', last, rfl⟩ := List.forall₂_cons_left_iff.mp others
      obtain rfl := List.forall₂_nil_left_iff.mp last
      obtain rfl : 1 = z := by simpa [first] using here
      obtain rfl : 1 = z' := by simpa [first] using here'
      refine ⟨h, run, value.trans ?_⟩
      rw [← outer]
      decide +kernel
    · exact absurd (by decide) narrow
  · rcases polymers 1 [0, 0] functional rfl (by decide) with ⟨h, run, -, values⟩ | ⟨narrow, -⟩
    · obtain ⟨v, outer, value⟩ := values [0] inside
      refine ⟨h, run, value.trans ?_⟩
      rw [← outer]
      decide +kernel
    · exact absurd (by decide) narrow
  · exact refusals [negation] (by simpa using ⟨1, 2, rfl⟩) (.inl (by decide))

/-- A polymer of a valid operation is not built if it has 64 arguments: its graph has 2⁶⁵ cells. -/
theorem polymer_overflow :
    negation.Valid 1 2 ∧ [0].length = 1 ∧ (∀ i ∈ [0], i < 64) ∧
      negation.polymer 64 [0] = .error .overflow :=
  ⟨⟨rfl, by decide +kernel⟩, rfl, by decide, by decide +kernel⟩

end Operation

end FiniteStructures
