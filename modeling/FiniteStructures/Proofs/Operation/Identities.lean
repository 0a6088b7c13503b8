import FiniteStructures.Proofs.Operation.Superposition

/-!
Identities.  Both sides of an equation become graphs over the variables in use, and equal graphs take
the same values under all assignments of the variables,

    f(x_left) = f(x_right)      f takes r at x_left ↔ f takes r at x_right      (Graph.isSatisfied)
    f(x_pattern) = x_var        f takes r at x_pattern ↔ r = x_var     (Graph.isSatisfiedByVariable)

This is said of any graph; where it is that of a function, the equation is one between its values
(`Computes`).  A graph over more variables than can be stored is not built, and the test ends out of
range.
-/

namespace FiniteStructures

namespace Operation

open Outcome Tensor

variable {safe : Prop} {n k vars arity : Nat} {f h : Operation Bool} {R S : Nat → List Nat → Prop}
  {left right pattern places args : List Nat}

/-! ## Variables in use -/

/-- There is a variable, and the pattern speaks of no other variables than the first ones. -/
def Bounds (vars : Nat) (pattern : List Nat) : Prop := 1 ≤ vars ∧ ∀ i ∈ pattern, i < vars

theorem yields_variableCount (room : safe → ∃ vars, Bounds vars pattern ∧ vars < Count.limit) :
    Yields safe (fun vars => Bounds vars pattern ∧ ∀ other, Bounds other pattern → vars ≤ other)
      (variableCount pattern) := by
  unfold variableCount
  cases largest : pattern.max? with
  | none =>
    obtain rfl := List.max?_eq_none_iff.mp largest
    exact .of_eq rfl ⟨⟨Nat.le_refl 1, nofun⟩, fun _ bounds => bounds.1⟩
  | some m =>
    obtain ⟨member, most⟩ := List.max?_eq_some_iff.mp largest
    have least (other : Nat) (bounds : Bounds other pattern) : m + 1 ≤ other := bounds.2 m member
    refine (Count.yields_check fun hs => ?_).mono ?_
    · obtain ⟨other, bounds, countable⟩ := room hs
      exact Nat.lt_of_le_of_lt (least other bounds) countable
    · rintro _ rfl
      exact ⟨⟨Nat.le_add_left 1 m, fun i hi => Nat.lt_succ_of_le (most i hi)⟩, least⟩

/-- Graphs over the variables of the pattern can be stored. -/
def Affords (n : Nat) (pattern : List Nat) : Prop :=
  ∃ vars, Bounds vars pattern ∧ Shape.Spacious n (vars + 1) ∧ vars + 1 < Count.storeLimit

/-- An operation over the variables of an affordable pattern has room. -/
theorem Affords.room (affords : Affords n pattern)
    (least : ∀ other, Bounds other pattern → vars ≤ other) (own : Shape.Spacious n (k + 1)) :
    Shape.Spacious n (max k vars + 1) ∧ vars + 1 < Count.storeLimit := by
  obtain ⟨other, bounds, room, axes⟩ := affords
  have le := least other bounds
  refine ⟨?_, by omega⟩
  rcases Nat.le_total k vars with more | fewer
  · rw [Nat.max_eq_right more]
    exact room.mono (by omega)
  · rwa [Nat.max_eq_left fewer]

theorem Affords.counted (affords : Affords n pattern) :
    ∃ vars, Bounds vars pattern ∧ vars < Count.limit := by
  obtain ⟨vars, bounds, -, axes⟩ := affords
  exact ⟨vars, bounds, Nat.lt_trans (by omega) (show Count.storeLimit < Count.limit by decide)⟩

/-! ## Assignments -/

/-- The tuples of values of the first variables are those of assignments. -/
theorem forall_assignments (pos : 1 ≤ vars) {Q : List Nat → Prop} :
    (∀ args, Shape.Within (List.replicate vars n) args → Q args) ↔
      ∀ x : Nat → Nat, (∀ i, x i < n) → Q ((List.range vars).map x) := by
  constructor
  · intro h x below
    refine h _ (Shape.within_replicate.mpr ⟨by rw [List.length_map, List.length_range], ?_⟩)
    exact List.forall_mem_map.mpr fun i _ => below i
  · intro h args within
    obtain ⟨length, below⟩ := Shape.within_replicate.mp within
    have values : (List.range vars).map (fun i => args.getD i 0) = args := by
      rw [← length]
      exact List.ext_getElem (by simp) fun i _ hi => by simp [hi]
    rw [← values]
    refine h _ fun i => ?_
    rcases Nat.lt_or_ge i args.length with hi | hi
    · rw [List.getD_eq_getElem _ _ hi]
      exact below _ (List.getElem_mem hi)
    · rw [List.getD_eq_default _ _ hi]
      have first : 0 < args.length := length ▸ pos
      exact Nat.zero_lt_of_lt (below _ (List.getElem_mem first))

/-- An assignment gives the variables of a pattern their values. -/
theorem map_getD_range (below : ∀ i ∈ pattern, i < vars) (x : Nat → Nat) :
    (pattern.map fun i => ((List.range vars).map x).getD i 0) = pattern.map x := by
  refine List.map_congr_left fun i hi => ?_
  rw [List.getD_eq_getElem?_getD, List.getElem?_map, List.getElem?_range (below i hi)]
  rfl

/-- An assignment is one value where one variable matters. -/
theorem forall_value {Q : Nat → Prop} :
    (∀ x : Nat → Nat, (∀ i, x i < n) → Q (x 0)) ↔ ∀ a < n, Q a :=
  ⟨fun h a ha => h (fun _ => a) fun _ => ha, fun h _ below => h _ (below 0)⟩

/-- An assignment is two values where two variables matter. -/
theorem forall_values {Q : Nat → Nat → Prop} :
    (∀ x : Nat → Nat, (∀ i, x i < n) → Q (x 0) (x 1)) ↔ ∀ a < n, ∀ b < n, Q a b := by
  constructor
  · intro h a ha b hb
    refine h (fun i => if i = 0 then a else b) fun i => ?_
    split
    · exact ha
    · exact hb
  · intro h x below
    exact h _ (below 0) _ (below 1)

/-! ## Projections -/

/-- A projection takes the argument at its coordinate. -/
theorem yields_projection {coord : Nat} (below : coord < k)
    (room : safe → Shape.Spacious n (k + 1) ∧ k + 1 < Count.storeLimit) :
    Yields safe (Graph k n fun v args => args[coord]? = some v)
      (projection n k coord : Outcome (Operation Bool)) := by
  unfold projection
  rw [if_neg (Nat.not_le_of_lt below)]
  refine (yields_graphShape fun hs => (room hs).2).bind fun shape same => ?_
  subst same
  refine (yields_generate_table (f := fun index => index.head? == index.tail[coord]?)
    (fun hs => (room hs).1.store) fun index _ => ?_).bind fun t table =>
      .of_eq rfl (graph_iff_table.mpr (table.congr ?_))
  · show Except.ok (BooleanDomain.constant (index.head? == index.tail[coord]?)) = _
    cases index.head? == index.tail[coord]? <;> rfl
  · refine forall_graph.mpr fun v _ args _ => beq_iff_eq.trans eq_comm

/-! ## Equations -/

/-- The two arrangements take the same values. -/
theorem Graph.isSatisfied (hf : Graph k n R f) (hl : left.length = k) (hr : right.length = k)
    (room : safe → Shape.Spacious n (k + 1) ∧ Affords n (left ++ right)) :
    Yields safe (fun b => b = true ↔ ∀ v < n, ∀ x : Nat → Nat, (∀ i, x i < n) →
        (R v (left.map x) ↔ R v (right.map x))) (f.isSatisfied left right) := by
  unfold Operation.isSatisfied
  refine (yields_variableCount fun hs => (room hs).2.counted).bind fun vars ⟨bounds, least⟩ => ?_
  obtain ⟨pos, below⟩ := bounds
  obtain ⟨inLeft, inRight⟩ := List.forall_mem_append.mp below
  have fits (hs : safe) := (room hs).2.room least (room hs).1
  refine (hf.polymer hl inLeft fits).bind fun p ⟨hp, _⟩ => ?_
  refine (hf.polymer hr inRight fits).bind fun q ⟨hq, _⟩ => ?_
  refine (hp.isEqualTo hq).mono fun b hb => hb.trans (forall₂_congr fun v _ => ?_)
  -- the arguments of the graphs are the values of the variables in use
  refine (forall_assignments pos).trans (forall₂_congr fun x _ => ?_)
  rw [map_getD_range inLeft, map_getD_range inRight]

/-- The arrangement takes the values of the variable. -/
theorem Graph.isSatisfiedByVariable {var : Nat} (hf : Graph k n R f) (length : pattern.length = k)
    (room : safe → Shape.Spacious n (k + 1) ∧ Affords n (pattern ++ [var])) :
    Yields safe (fun b => b = true ↔ ∀ v < n, ∀ x : Nat → Nat, (∀ i, x i < n) →
        (R v (pattern.map x) ↔ v = x var)) (f.isSatisfiedByVariable pattern var) := by
  unfold Operation.isSatisfiedByVariable
  refine (yields_variableCount fun hs => (room hs).2.counted).bind fun vars ⟨bounds, least⟩ => ?_
  obtain ⟨pos, below⟩ := bounds
  obtain ⟨inside, last⟩ := List.forall_mem_append.mp below
  have here : var < vars := last var (List.mem_singleton_self var)
  have fits (hs : safe) := (room hs).2.room least (room hs).1
  have size : f.size = .ok n := Relation.size_of_shape hf.shape_eq
  refine (hf.polymer length inside fits).bind fun p ⟨hp, _⟩ => ?_
  rw [size]
  refine (yields_projection here fun hs => ⟨(fits hs).1.mono (by omega), (fits hs).2⟩).bind
    fun q hq => ?_
  refine (hp.isEqualTo hq).mono fun b hb => hb.trans (forall₂_congr fun v _ => ?_)
  refine (forall_assignments pos).trans (forall₂_congr fun x _ => ?_)
  rw [map_getD_range inside, List.getElem?_map, List.getElem?_range here]
  simp [eq_comm]

/-- The operation takes the argument at one coordinate. -/
theorem Graph.isProjection (hf : Graph k n R f)
    (room : safe → Shape.Spacious n (k + 1) ∧ k + 1 < Count.storeLimit) :
    Yields safe (fun b => b = true ↔ ∃ coord < k, ∀ v < n, ∀ args,
        Shape.Within (List.replicate k n) args → (R v args ↔ args[coord]? = some v))
      f.isProjection := by
  classical
  obtain rfl := arity_of_graph hf.shape_eq
  let equal (coord : Nat) : Prop := ∀ v < n, ∀ args,
    Shape.Within (List.replicate f.arity n) args → (R v args ↔ args[coord]? = some v)
  have size : f.size = .ok n := Relation.size_of_shape hf.shape_eq
  unfold Operation.isProjection
  rw [size]
  refine (Yields.traverse_map (g := fun coord => decide (equal coord)) fun coord member => ?_).bind
    fun r found => .of_eq rfl ?_
  · refine (yields_projection (List.mem_range.mp member) room).bind fun p hp => ?_
    exact (hf.isEqualTo hp).mono fun b hb => Bool.eq_iff_iff.mpr (hb.trans decide_eq_true_iff.symm)
  · rw [found, List.any_map, List.any_eq_true]
    simp [equal]

/-- Two operations in the arguments of another one. -/
theorem Graph.composeWith_two {P Q : Nat → List Nat → Prop} {p q : Operation Bool}
    (hf : Graph 2 n R f) (hp : Graph k n P p) (hq : Graph k n Q q) (few : k ≤ 49)
    (room : safe → Shape.Spacious n (k + 3)) :
    Yields safe (Graph k n fun v args => ∃ a < n, ∃ b < n, P a args ∧ Q b args ∧ R v [a, b])
      (f.composeWith [p, q]) := by
  have fitting : Fitting 2 k n f [p, q] := by
    refine ⟨hf.shape_eq, rfl, ?_⟩
    exact List.forall_mem_cons.mpr ⟨hp.shape_eq, List.forall_mem_singleton.mpr hq.shape_eq⟩
  refine (yields_composeWith fitting (by decide) (by omega)
    fun hs => (room hs).mono (by omega)).mono fun h ⟨shape, holds⟩ => ⟨shape, ?_⟩
  intro v lt args within
  refine (holds args within v).trans ?_
  constructor
  · rintro ⟨zs, middle, outer⟩
    obtain ⟨a, rest, first, others, rfl⟩ := List.forall₂_cons_left_iff.mp middle
    obtain ⟨b, none, second, last, rfl⟩ := List.forall₂_cons_left_iff.mp others
    obtain rfl := List.forall₂_nil_left_iff.mp last
    obtain ⟨⟨ha, -⟩, first⟩ := hp.iff.mp first
    obtain ⟨⟨hb, -⟩, second⟩ := hq.iff.mp second
    exact ⟨a, ha, b, hb, first, second, (hf.iff.mp outer).2⟩
  · rintro ⟨a, ha, b, hb, first, second, outer⟩
    refine ⟨[a, b], .cons (hp.iff.mpr ⟨⟨ha, within⟩, first⟩) (.cons ?_ .nil), ?_⟩
    · exact hq.iff.mpr ⟨⟨hb, within⟩, second⟩
    · exact hf.iff.mpr ⟨⟨lt, ha, hb, trivial⟩, outer⟩

/-! ## Identities by name -/

theorem requireArity_ok (shape : f.tensor.shape = List.replicate (k + 1) n) :
    f.requireArity k = .ok () := by
  unfold requireArity
  rw [if_neg (not_not.mpr (arity_of_graph shape))]

theorem requireArity_ne (shape : f.tensor.shape = List.replicate (k + 1) n) (ne : k ≠ arity) :
    f.requireArity arity = Outcome.arity arity k := by
  unfold requireArity
  rw [arity_of_graph shape, if_pos ne]

/-- Two variables are afforded where graphs with two arguments are. -/
theorem affords_two (few : ∀ i ∈ pattern, i < 2) (room : Shape.Spacious n 3) : Affords n pattern :=
  ⟨2, ⟨by decide, few⟩, room, by decide⟩

theorem Graph.isIdempotent (hf : Graph k n R f)
    (room : safe → Shape.Spacious n (k + 1) ∧ Shape.Spacious n 2) :
    Yields safe (fun b => b = true ↔ ∀ v < n, ∀ x < n, (R v (List.replicate k x) ↔ v = x))
      f.isIdempotent := by
  have zeros : ∀ i ∈ List.replicate k 0 ++ [0], i < 1 := by
    rw [← List.replicate_succ']
    intro i hi
    rw [List.eq_of_mem_replicate hi]
    decide
  have affords (hs : safe) : Affords n (List.replicate k 0 ++ [0]) :=
    ⟨1, ⟨Nat.le_refl 1, zeros⟩, (room hs).2, by decide⟩
  unfold Operation.isIdempotent
  rw [arity_of_graph hf.shape_eq]
  refine (hf.isSatisfiedByVariable List.length_replicate
    fun hs => ⟨(room hs).1, affords hs⟩).mono fun b hb => hb.trans (forall₂_congr fun v _ => ?_)
  simp only [List.map_replicate]
  exact forall_value (Q := fun x => R v (List.replicate k x) ↔ v = x)

theorem Graph.isCommutative (hf : Graph 2 n R f) (room : safe → Shape.Spacious n 3) :
    Yields safe (fun b => b = true ↔ ∀ v < n, ∀ x < n, ∀ y < n, (R v [x, y] ↔ R v [y, x]))
      f.isCommutative := by
  have affords (hs : safe) : Affords n ([0, 1] ++ [1, 0]) := affords_two (by decide) (room hs)
  have test : Yields safe _ (f.isSatisfied [0, 1] [1, 0]) :=
    hf.isSatisfied rfl rfl fun hs => ⟨room hs, affords hs⟩
  unfold Operation.isCommutative
  rw [requireArity_ok hf.shape_eq]
  refine test.mono fun b hb => hb.trans (forall₂_congr fun v _ => ?_)
  exact forall_values (Q := fun x y => R v [x, y] ↔ R v [y, x])

/-- The test of symmetry builds graphs over two variables. -/
theorem Graph.spacious_of_isCommutative (hf : Graph 2 n R f) {b : Bool}
    (run : f.isCommutative = .ok b) : Shape.Spacious n 3 := by
  unfold Operation.isCommutative at run
  rw [requireArity_ok hf.shape_eq] at run
  change f.isSatisfied [0, 1] [1, 0] = .ok b at run
  obtain ⟨vars, counted, built⟩ := bind_ok run
  have count : Yields False _ (variableCount ([0, 1] ++ [1, 0])) := yields_variableCount nofun
  obtain ⟨-, below⟩ := (count.of_ok counted).1
  obtain ⟨p, polymer, -⟩ := bind_ok built
  have inside : ∀ i ∈ [0, 1], i < vars := (List.forall_mem_append.mp below).1
  have swapped : Yields False _ (f.polymer vars [0, 1]) := hf.polymer rfl inside nofun
  have last : 1 < vars := inside 1 (by decide)
  exact (swapped.of_ok polymer).2.mono (by omega)

theorem forall_triples {Q : List Nat → Prop} :
    (∀ args, Shape.Within (List.replicate 3 n) args → Q args) ↔
      ∀ x < n, ∀ y < n, ∀ z < n, Q [x, y, z] := by
  constructor
  · intro h x hx y hy z hz
    exact h _ ⟨hx, hy, hz, trivial⟩
  · intro h args within
    match args, within with
    | [x, y, z], ⟨hx, hy, hz, _⟩ => exact h x hx y hy z hz

/-- Both ways to apply the operation twice take the same values. -/
theorem Graph.isAssociative (hf : Graph 2 n R f) (room : safe → Shape.Spacious n 6) :
    Yields safe (fun b => b = true ↔ ∀ v < n, ∀ x < n, ∀ y < n, ∀ z < n,
        ((∃ a < n, R a [x, y] ∧ R v [a, z]) ↔ ∃ a < n, R a [y, z] ∧ R v [x, a]))
      f.isAssociative := by
  have size : f.size = .ok n := Relation.size_of_shape hf.shape_eq
  have four (hs : safe) : Shape.Spacious n 4 ∧ 4 < Count.storeLimit :=
    ⟨(room hs).mono (by decide), by decide⟩
  have firsts : Yields safe _ (projection n 3 0) := yields_projection (by decide) four
  have lasts : Yields safe _ (projection n 3 2) := yields_projection (by decide) four
  unfold Operation.isAssociative
  rw [requireArity_ok hf.shape_eq, size]
  refine firsts.bind fun first hfirst => lasts.bind fun last hlast => ?_
  refine (hf.polymer rfl (by decide) four).bind fun p ⟨hp, _⟩ => ?_
  refine (hf.polymer rfl (by decide) four).bind fun q ⟨hq, _⟩ => ?_
  refine (hf.composeWith_two hp hlast (by decide) room).bind fun l hl => ?_
  refine (hf.composeWith_two hfirst hq (by decide) room).bind fun r hr => ?_
  refine (hl.isEqualTo hr).mono fun b hb => hb.trans (forall₂_congr fun v _ => ?_)
  refine forall_triples.trans ?_
  refine forall₂_congr fun x hx => forall₂_congr fun y _ => forall₂_congr fun z hz => iff_congr ?_ ?_
  · constructor
    · rintro ⟨a, ha, _, -, inner, ⟨⟩, outer⟩
      exact ⟨a, ha, inner, outer⟩
    · rintro ⟨a, ha, inner, outer⟩
      exact ⟨a, ha, z, hz, inner, rfl, outer⟩
  · constructor
    · rintro ⟨_, -, a, ha, ⟨⟩, inner, outer⟩
      exact ⟨a, ha, inner, outer⟩
    · rintro ⟨a, ha, inner, outer⟩
      exact ⟨x, hx, a, ha, rfl, inner, outer⟩

/-! ## Equations of functions -/

/-- The operation is the graph of a function on the numbers below `n`. -/
structure Computes (k n : Nat) (g : List Nat → Nat) (f : Operation Bool) : Prop where
  graph : Graph k n (fun v args => v = g args) f
  below : ∀ args, Shape.Within (List.replicate k n) args → g args < n

/-- A valid operation computes a function. -/
theorem Valid.exists_computes (valid : f.Valid k n) : ∃ g, Computes k n g f := by
  have values (args : List Nat) : ∃ v, Shape.Within (List.replicate k n) args →
      ∀ r, f.tensor.Holds (r :: args) ↔ r = v := by
    by_cases within : Shape.Within (List.replicate k n) args
    · obtain ⟨v, one⟩ := valid.exists_value within
      exact ⟨v, fun _ => one⟩
    · exact ⟨0, fun within' => absurd within' within⟩
  choose g one using values
  refine ⟨g, ⟨valid.shape, fun v _ args within => one args within v⟩, fun args within => ?_⟩
  have taken := ((one args within (g args)).mpr rfl).within
  rw [valid.shape, List.replicate_succ] at taken
  exact taken.1

namespace Computes

variable {g : List Nat → Nat}

theorem iff (hf : Computes k n g f) (within : Shape.Within (List.replicate k n) args) {v : Nat} :
    f.tensor.Holds (v :: args) ↔ v = g args := by
  refine hf.graph.iff.trans (and_iff_right_of_imp ?_)
  rintro rfl
  exact ⟨hf.below args within, within⟩

/-- The function gives the values of the operation. -/
theorem value (hf : Computes k n g f) (within : Shape.Within (List.replicate k n) args) :
    f.value args = .ok (some (g args)) :=
  value_eq hf.graph.shape_eq within fun _ => hf.iff within

theorem isSatisfied (hf : Computes k n g f) (hl : left.length = k) (hr : right.length = k)
    (room : safe → Shape.Spacious n (k + 1) ∧ Affords n (left ++ right)) :
    Yields safe (fun b => b = true ↔ ∀ x : Nat → Nat, (∀ i, x i < n) →
        g (left.map x) = g (right.map x)) (f.isSatisfied left right) := by
  refine (hf.graph.isSatisfied hl hr room).mono fun b hb => hb.trans ?_
  constructor
  · intro h x below
    have within : Shape.Within (List.replicate k n) (left.map x) :=
      Shape.within_replicate.mpr ⟨by rw [List.length_map, hl], List.forall_mem_map.mpr fun i _ => below i⟩
    -- the value on the left is taken there, hence on the right
    exact (h _ (hf.below _ within) x below).mp rfl
  · intro h v _ x below
    rw [h x below]

theorem isSatisfiedByVariable {var : Nat} (hf : Computes k n g f) (length : pattern.length = k)
    (room : safe → Shape.Spacious n (k + 1) ∧ Affords n (pattern ++ [var])) :
    Yields safe (fun b => b = true ↔ ∀ x : Nat → Nat, (∀ i, x i < n) → g (pattern.map x) = x var)
      (f.isSatisfiedByVariable pattern var) := by
  refine (hf.graph.isSatisfiedByVariable length room).mono fun b hb => hb.trans ?_
  constructor
  · intro h x below
    exact ((h _ (below var) x below).mpr rfl).symm
  · intro h v _ x below
    rw [h x below]

theorem isProjection (hf : Computes k n g f)
    (room : safe → Shape.Spacious n (k + 1) ∧ k + 1 < Count.storeLimit) :
    Yields safe (fun b => b = true ↔ ∃ coord < k, ∀ args,
        Shape.Within (List.replicate k n) args → args[coord]? = some (g args)) f.isProjection := by
  refine (hf.graph.isProjection room).mono fun b hb => hb.trans ?_
  refine exists_congr fun coord => and_congr_right fun _ => ?_
  constructor
  · intro h args within
    exact (h _ (hf.below args within) args within).mp rfl
  · intro h v _ args within
    rw [h args within, Option.some_inj, eq_comm]

theorem isIdempotent (hf : Computes k n g f)
    (room : safe → Shape.Spacious n (k + 1) ∧ Shape.Spacious n 2) :
    Yields safe (fun b => b = true ↔ ∀ x < n, g (List.replicate k x) = x) f.isIdempotent := by
  refine (hf.graph.isIdempotent room).mono fun b hb => hb.trans ?_
  constructor
  · intro h x hx
    exact ((h x hx x hx).mpr rfl).symm
  · intro h v _ x hx
    rw [h x hx]

theorem isCommutative (hf : Computes 2 n g f) (room : safe → Shape.Spacious n 3) :
    Yields safe (fun b => b = true ↔ ∀ x < n, ∀ y < n, g [x, y] = g [y, x]) f.isCommutative := by
  refine (hf.graph.isCommutative room).mono fun b hb => hb.trans ?_
  constructor
  · intro h x hx y hy
    exact (h _ (hf.below [x, y] ⟨hx, hy, trivial⟩) x hx y hy).mp rfl
  · intro h v _ x hx y hy
    rw [h x hx y hy]

theorem isAssociative (hf : Computes 2 n g f) (room : safe → Shape.Spacious n 6) :
    Yields safe (fun b => b = true ↔ ∀ x < n, ∀ y < n, ∀ z < n,
        g [g [x, y], z] = g [x, g [y, z]]) f.isAssociative := by
  refine (hf.graph.isAssociative room).mono fun b hb => hb.trans ?_
  have two (x : Nat) (hx : x < n) (y : Nat) (hy : y < n) : g [x, y] < n :=
    hf.below [x, y] ⟨hx, hy, trivial⟩
  constructor
  · intro h x hx y hy z hz
    have outer : g [g [x, y], z] < n := two _ (two x hx y hy) z hz
    obtain ⟨_, -, rfl, same⟩ := (h _ outer x hx y hy z hz).mp ⟨_, two x hx y hy, rfl, rfl⟩
    exact same
  · intro h v _ x hx y hy z hz
    constructor
    · rintro ⟨_, -, rfl, rfl⟩
      exact ⟨_, two y hy z hz, rfl, h x hx y hy z hz⟩
    · rintro ⟨_, -, rfl, rfl⟩
      exact ⟨_, two x hx y hy, rfl, (h x hx y hy z hz).symm⟩

/-- An equation of three arguments between two variables. -/
theorem equation (hf : Computes 3 n g f) {var : Nat} {Q : Nat → Nat → Prop}
    (length : pattern.length = 3) (few : ∀ i ∈ pattern ++ [var], i < 2)
    (means : ∀ x : Nat → Nat, g (pattern.map x) = x var ↔ Q (x 0) (x 1))
    (room : safe → Shape.Spacious n 4) :
    Yields safe (fun b => b = true ↔ ∀ x < n, ∀ y < n, Q x y)
      (f.isSatisfiedByVariable pattern var) := by
  refine (hf.isSatisfiedByVariable length fun hs => ⟨room hs, affords_two few
    ((room hs).mono (by decide))⟩).mono fun b hb => hb.trans ?_
  simp only [means]
  exact forall_values

/-- Three equations, for the places at which one argument differs from the others. -/
theorem differing (hf : Computes 3 n g f) {var : Nat} {value : Nat → Nat → Nat} (few : var < 2)
    (means : ∀ x : Nat → Nat, x var = value (x 0) (x 1)) (room : safe → Shape.Spacious n 4) :
    Yields safe (fun b => b = true ↔ ∀ x < n, ∀ y < n,
        g [x, x, y] = value x y ∧ g [x, y, x] = value x y ∧ g [y, x, x] = value x y)
      (do
        let a ← f.isSatisfiedByVariable [0, 0, 1] var
        let b ← f.isSatisfiedByVariable [0, 1, 0] var
        let c ← f.isSatisfiedByVariable [1, 0, 0] var
        BooleanDomain.all [a, b, c]) := by
  have last : Yields safe _ (f.isSatisfiedByVariable [0, 0, 1] var) :=
    hf.equation (Q := fun x y => g [x, x, y] = value x y) rfl (by simpa using few)
      (fun x => by rw [means x]; rfl) room
  have middle : Yields safe _ (f.isSatisfiedByVariable [0, 1, 0] var) :=
    hf.equation (Q := fun x y => g [x, y, x] = value x y) rfl (by simpa using few)
      (fun x => by rw [means x]; rfl) room
  have first : Yields safe _ (f.isSatisfiedByVariable [1, 0, 0] var) :=
    hf.equation (Q := fun x y => g [y, x, x] = value x y) rfl (by simpa using few)
      (fun x => by rw [means x]; rfl) room
  refine last.bind fun a ha => middle.bind fun b hb => first.bind fun c hc => .of_eq rfl ?_
  simp [ha, hb, hc, forall_and]

theorem isMajority (hf : Computes 3 n g f) (room : safe → Shape.Spacious n 4) :
    Yields safe (fun b => b = true ↔ ∀ x < n, ∀ y < n,
        g [x, x, y] = x ∧ g [x, y, x] = x ∧ g [y, x, x] = x) f.isMajority := by
  unfold Operation.isMajority
  rw [requireArity_ok hf.graph.shape_eq]
  exact hf.differing (by decide) (fun _ => rfl) room

theorem isMinority (hf : Computes 3 n g f) (room : safe → Shape.Spacious n 4) :
    Yields safe (fun b => b = true ↔ ∀ x < n, ∀ y < n,
        g [x, x, y] = y ∧ g [x, y, x] = y ∧ g [y, x, x] = y) f.isMinority := by
  unfold Operation.isMinority
  rw [requireArity_ok hf.graph.shape_eq]
  exact hf.differing (by decide) (fun _ => rfl) room

theorem isMaltsev (hf : Computes 3 n g f) (room : safe → Shape.Spacious n 4) :
    Yields safe (fun b => b = true ↔ ∀ x < n, ∀ y < n, g [x, y, y] = x ∧ g [y, y, x] = x)
      f.isMaltsev := by
  unfold Operation.isMaltsev
  rw [requireArity_ok hf.graph.shape_eq]
  refine (hf.equation (Q := fun x y => g [x, y, y] = x) rfl (by decide) (fun _ => Iff.rfl) room).bind
    fun a ha => ?_
  refine (hf.equation (Q := fun x y => g [y, y, x] = x) rfl (by decide) (fun _ => Iff.rfl) room).bind
    fun b hb => .of_eq rfl ?_
  simp [ha, hb, forall_and]

end Computes

/-- The tests of identities decide equations between the values of a valid operation, for all elements
and all assignments of variables, and refuse operations with other numbers of arguments.  Only where the
graphs over the variables in use do not fit, a size is out of range. -/
theorem identities_decided (valid : f.Valid k n) : ∃ g : List Nat → Nat,
    (∀ args, Shape.Within (List.replicate k n) args →
      g args < n ∧ f.value args = .ok (some (g args))) ∧
    (∀ left right : List Nat, left.length = k → right.length = k →
      Yields (f.tensor.Stored ∧ Affords n (left ++ right)) (fun b => b = true ↔
          ∀ x : Nat → Nat, (∀ i, x i < n) → g (left.map x) = g (right.map x))
        (f.isSatisfied left right)) ∧
    (∀ (pattern : List Nat) (var : Nat), pattern.length = k →
      Yields (f.tensor.Stored ∧ Affords n (pattern ++ [var])) (fun b => b = true ↔
          ∀ x : Nat → Nat, (∀ i, x i < n) → g (pattern.map x) = x var)
        (f.isSatisfiedByVariable pattern var)) ∧
    Yields f.tensor.Stored (fun b => b = true ↔ ∃ coord < k, ∀ args,
        Shape.Within (List.replicate k n) args → args[coord]? = some (g args)) f.isProjection ∧
    Yields (f.tensor.Stored ∧ Shape.Spacious n 2) (fun b => b = true ↔
        ∀ x < n, g (List.replicate k x) = x) f.isIdempotent ∧
    (k = 2 →
      Yields f.tensor.Stored (fun b => b = true ↔
          ∀ x < n, ∀ y < n, g [x, y] = g [y, x]) f.isCommutative ∧
      Yields (Shape.Spacious n 6) (fun b => b = true ↔
          ∀ x < n, ∀ y < n, ∀ z < n, g [g [x, y], z] = g [x, g [y, z]]) f.isAssociative) ∧
    (k ≠ 2 → f.isCommutative = Outcome.arity 2 k ∧ f.isAssociative = Outcome.arity 2 k) ∧
    (k = 3 →
      Yields f.tensor.Stored (fun b => b = true ↔ ∀ x < n, ∀ y < n,
          g [x, x, y] = x ∧ g [x, y, x] = x ∧ g [y, x, x] = x) f.isMajority ∧
      Yields f.tensor.Stored (fun b => b = true ↔ ∀ x < n, ∀ y < n,
          g [x, x, y] = y ∧ g [x, y, x] = y ∧ g [y, x, x] = y) f.isMinority ∧
      Yields f.tensor.Stored (fun b => b = true ↔ ∀ x < n, ∀ y < n,
          g [x, y, y] = x ∧ g [y, y, x] = x) f.isMaltsev) ∧
    (k ≠ 3 → f.isMajority = Outcome.arity 3 k ∧ f.isMinority = Outcome.arity 3 k ∧
      f.isMaltsev = Outcome.arity 3 k) := by
  obtain ⟨g, computes⟩ := valid.exists_computes
  have shape := valid.shape
  have own (stored : f.tensor.Stored) : Shape.Spacious n (k + 1) := stored.spacious shape
  have axes (stored : f.tensor.Stored) : k + 1 < Count.storeLimit := by
    have few := stored.1
    rwa [shape, List.length_replicate] at few
  refine ⟨g, fun args within => ⟨computes.below args within, computes.value within⟩, ?_, ?_, ?_, ?_,
    ?_, ?_, ?_, ?_⟩
  · intro left right hl hr
    exact computes.isSatisfied hl hr fun hs => ⟨own hs.1, hs.2⟩
  · intro pattern var length
    exact computes.isSatisfiedByVariable length fun hs => ⟨own hs.1, hs.2⟩
  · exact computes.isProjection fun stored => ⟨own stored, axes stored⟩
  · exact computes.isIdempotent fun hs => ⟨own hs.1, hs.2⟩
  · rintro rfl
    exact ⟨computes.isCommutative own, computes.isAssociative id⟩
  · intro ne
    unfold isCommutative isAssociative
    rw [requireArity_ne shape ne]
    exact ⟨rfl, rfl⟩
  · rintro rfl
    exact ⟨computes.isMajority own, computes.isMinority own, computes.isMaltsev own⟩
  · intro ne
    unfold isMajority isMinority isMaltsev
    rw [requireArity_ne shape ne]
    exact ⟨rfl, rfl, rfl⟩

/-- Disjunction is symmetric and associative, and no projection; it has no third argument. -/
theorem identities_decided_disjunction :
    disjunction.Valid 2 2 ∧ disjunction.isSatisfied [0, 1] [1, 0] = .ok true ∧
      disjunction.isAssociative = .ok true ∧ disjunction.isProjection = .ok false ∧
      disjunction.isMajority = Outcome.arity 3 2 := by
  have valid : disjunction.Valid 2 2 := ⟨rfl, by decide +kernel⟩
  obtain ⟨g, values, satisfied, -, projection, -, two, -, -, three⟩ := identities_decided valid
  have stored : disjunction.tensor.Stored := ⟨by decide, by decide⟩
  have larger (a : Nat) (ha : a < 2) (b : Nat) (hb : b < 2) : g [a, b] = max a b := by
    have table : ∀ a < 2, ∀ b < 2, disjunction.value [a, b] = .ok (some (max a b)) := by
      decide +kernel
    have found := (values [a, b] ⟨ha, hb, trivial⟩).2.symm.trans (table a ha b hb)
    exact Option.some.inj (Except.ok.inj found)
  refine ⟨valid, ?_, ?_, ?_, (three (by decide)).1⟩
  · have affords : Affords 2 ([0, 1] ++ [1, 0]) := affords_two (by decide) (by decide)
    obtain ⟨b, run, holds⟩ := (satisfied [0, 1] [1, 0] rfl rfl).of_safe ⟨stored, affords⟩
    rw [run, holds.mpr]
    intro x below
    exact (larger _ (below 0) _ (below 1)).trans
      ((max_comm _ _).trans (larger _ (below 1) _ (below 0)).symm)
  · obtain ⟨b, run, holds⟩ := (two rfl).2.of_safe (by decide)
    rw [run, holds.mpr]
    intro x hx y hy z hz
    rw [larger x hx y hy, larger y hy z hz, larger _ (max_lt hx hy) z hz,
      larger x hx _ (max_lt hy hz), max_assoc]
  · obtain ⟨b, run, holds⟩ := projection.of_safe stored
    rw [run, Except.ok.injEq, Bool.eq_false_iff]
    intro yes
    obtain ⟨coord, lt, same⟩ := holds.mp yes
    have up := same [0, 1] ⟨by decide, by decide, trivial⟩
    have down := same [1, 0] ⟨by decide, by decide, trivial⟩
    rw [larger 0 (by decide) 1 (by decide)] at up
    rw [larger 1 (by decide) 0 (by decide)] at down
    match coord, lt with
    | 0, _ => cases up
    | 1, _ => cases down

/-- The constant operation with one argument and the value zero, on two elements. -/
def zeroOfOne : Operation Bool := ⟨⟨[2, 2], [true, false, true, false], rfl⟩⟩

/-- An equation that holds is not found to hold if it speaks of the variable number 63: a graph over 64
variables has 2⁶⁵ cells. -/
theorem isSatisfied_overflow :
    zeroOfOne.Valid 1 2 ∧
      (∀ x : Nat → Nat, (∀ i, x i < 2) →
        zeroOfOne.value ([63].map x) = zeroOfOne.value ([0].map x)) ∧
      zeroOfOne.isSatisfied [63] [0] = .error .overflow := by
  refine ⟨⟨rfl, by decide +kernel⟩, ?_, by decide +kernel⟩
  intro x below
  have same : ∀ a < 2, ∀ b < 2, zeroOfOne.value [a] = zeroOfOne.value [b] := by decide +kernel
  exact same _ (below 63) _ (below 0)

end Operation

end FiniteStructures
