import FiniteStructures.Proofs.Operation.Superposition

/-!
Operations that are functions by construction.  The tables, projections and constants that are built
are graphs of functions, and superpositions and polymers keep them so (`Constructed.valid`); what
a call must give is told by its result alone.  Two kinds of calls build graphs without a value at
some arguments:

    ofFunction 0 0 values       no number is a value, and the function is not asked
    const n k v                 if v is no number below n, and there are arguments

The check of validity tells them from the others (`Generated.isOperation_eq`).
-/

namespace FiniteStructures

open Outcome Tensor

namespace Operation

variable {n k m arity coord v : Nat} {f g h : Operation Bool} {args : List Nat}
  {cell : List Nat → Outcome Bool} {values : List Nat → Outcome Nat} {places : List Nat}
  {inner : List (Operation Bool)}

/-! ## Graphs that are generated -/

/-- The graph has the computed cells. -/
structure Generated (k n : Nat) (cell : List Nat → Outcome Bool) (f : Operation Bool) : Prop where
  shape : f.tensor.shape = List.replicate (k + 1) n
  room : Shape.Spacious n (k + 1)
  cells : ∀ r < n, ∀ args, Shape.Within (List.replicate k n) args →
    f.tensor.get (r :: args) = cell (r :: args)

theorem generated_of_ok
    (run : (do return ⟨← generate (← graphShape n k) cell⟩ : Outcome (Operation Bool)) = .ok f) :
    Generated k n cell f := by
  obtain ⟨shape, filled, rest⟩ := bind_ok run
  obtain ⟨rfl, axes⟩ := graphShape_ok filled
  obtain ⟨t, built, given⟩ := bind_ok rest
  obtain rfl := Except.ok.inj given
  obtain ⟨_, stored, -⟩ := bind_ok built
  obtain ⟨shape, cells⟩ := get_of_generate built
  exact ⟨shape, Shape.spacious_of_storable axes stored, fun r lt args within =>
    cells (r :: args) ⟨lt, within⟩⟩

/-- A generated graph is that of a function when at all arguments the cell of one value is true. -/
theorem Generated.valid_iff (gen : Generated k n cell f) :
    f.Valid k n ↔ ∀ args, Shape.Within (List.replicate k n) args →
      ∃ v < n, ∀ r < n, cell (r :: args) = .ok (decide (r = v)) := by
  have inside {r : Nat} {args : List Nat} (lt : r < n)
      (within : Shape.Within (List.replicate k n) args) :
      Shape.Within f.tensor.shape (r :: args) := by
    rw [gen.shape, List.replicate_succ]
    exact ⟨lt, within⟩
  constructor
  · intro valid args within
    obtain ⟨v, one⟩ := valid.exists_value within
    have taken := ((one v).mpr rfl).within
    rw [gen.shape, List.replicate_succ] at taken
    refine ⟨v, taken.1, fun r lt => ?_⟩
    rw [← gen.cells r lt args within, get_decide (inside lt within)]
    simp only [one]
  · intro computed
    obtain ⟨b, run, -⟩ := (yields_isOperation gen.shape fun _ => gen.room).of_safe trivial
    refine valid_of_values gen.shape (fun args within => ?_) run
    obtain ⟨v, lt, cells⟩ := computed args within
    refine ⟨v, fun r => ?_⟩
    by_cases inRange : r < n
    · unfold Holds
      rw [gen.cells r inRange args within, cells r inRange, Except.ok.injEq, decide_eq_true_iff]
    · refine iff_of_false (fun taken => inRange ?_) (fun same => inRange (by rwa [same]))
      have bounds := taken.within
      rw [gen.shape, List.replicate_succ] at bounds
      exact bounds.1

theorem Generated.isOperation_eq (gen : Generated k n cell f) {P : Prop} [Decidable P]
    (valid : f.Valid k n ↔ P) : f.isOperation = .ok (decide P) := by
  obtain ⟨b, run, -⟩ := (yields_isOperation gen.shape fun _ => gen.room).of_safe trivial
  rw [run, Except.ok.injEq, Bool.eq_iff_iff, decide_eq_true_iff, ← valid]
  constructor
  · rintro rfl
    exact ⟨gen.shape, run⟩
  · intro valid
    exact Except.ok.inj (run.symm.trans valid.functional)

/-- There are arguments, unless there are no numbers and some are asked for. -/
theorem exists_arguments :
    (∃ args, Shape.Within (List.replicate k n) args) ↔ (n = 0 → k = 0) := by
  constructor
  · rintro ⟨args, within⟩ rfl
    cases k with
    | zero => rfl
    | succ k => cases args with
      | nil => exact within.elim
      | cons a args => exact absurd within.1 (Nat.not_lt_zero a)
  · intro some
    refine ⟨List.replicate k 0, Shape.within_replicate.mpr ⟨List.length_replicate, ?_⟩⟩
    intro a ha
    obtain ⟨nonzero, rfl⟩ := List.mem_replicate.mp ha
    exact Nat.pos_of_ne_zero fun empty => nonzero (some empty)

/-! ## The constructors -/

theorem constant_eq (b : Bool) : (BooleanDomain.constant b : Bool) = b := by cases b <;> rfl

theorem head_eq (r v : Nat) (args : List Nat) :
    ((r :: args).head? == some v) = decide (r = v) := by
  rw [Bool.eq_iff_iff]
  simp

theorem projection_valid (run : projection n k coord = .ok f) : f.Valid k n := by
  unfold projection at run
  split at run
  · obtain ⟨_, -, refused⟩ := bind_ok run
    obtain ⟨_, refused, -⟩ := bind_ok refused
    cases refused
  · next below =>
    have gen := generated_of_ok run
    refine gen.valid_iff.mpr fun args within => ?_
    obtain ⟨length, bounds⟩ := Shape.within_replicate.mp within
    have known : coord < args.length := by omega
    refine ⟨args[coord], bounds _ (List.getElem_mem known), fun r _ => ?_⟩
    rw [List.tail_cons, List.getElem?_eq_getElem known, constant_eq, head_eq]

/-- A constant is a function if its value is a number of the set, or if it is never asked for. -/
theorem const_isOperation (run : const n k v = .ok f) :
    f.isOperation = .ok (decide (v < n ∨ n = 0 ∧ 0 < k)) := by
  have gen := generated_of_ok run
  refine gen.isOperation_eq (gen.valid_iff.trans ?_)
  have cells (r : Nat) (args : List Nat) : (.ok (BooleanDomain.constant
      ((r :: args).head? == some v)) : Outcome Bool) = .ok (decide (r = v)) := by
    rw [constant_eq, head_eq]
  constructor
  · intro computed
    by_cases some : n = 0 → k = 0
    · obtain ⟨args, within⟩ := exists_arguments.mpr some
      obtain ⟨w, lt, here⟩ := computed args within
      have same := (cells w args).symm.trans (here w lt)
      rw [decide_eq_true rfl, Except.ok.injEq, decide_eq_true_iff] at same
      exact .inl (same ▸ lt)
    · exact .inr (by omega)
  · rintro (lt | ⟨rfl, pos⟩) args within
    · exact ⟨v, lt, fun r _ => cells r args⟩
    · exact absurd (exists_arguments.mp ⟨args, within⟩ rfl) (by omega)

theorem ofFunction_isOperation (run : ofFunction n k values = .ok f) :
    f.isOperation = .ok (decide (n = 0 → 0 < k)) := by
  have gen := generated_of_ok run
  refine gen.isOperation_eq (gen.valid_iff.trans ?_)
  constructor
  · intro computed empty
    refine Nat.pos_of_ne_zero fun none => ?_
    obtain ⟨args, within⟩ := exists_arguments.mpr fun _ => none
    obtain ⟨v, lt, -⟩ := computed args within
    omega
  · intro asked args within
    have pos : 0 < n := by
      refine Nat.pos_of_ne_zero fun empty => ?_
      have none := exists_arguments.mp ⟨args, within⟩ empty
      have some := asked empty
      omega
    have inside : Shape.Within f.tensor.shape (0 :: args) := by
      rw [gen.shape, List.replicate_succ]
      exact ⟨pos, within⟩
    -- one cell was computed at the arguments, so the function has a value there
    have computed := (gen.cells 0 pos args within).symm.trans (get_decide inside)
    obtain ⟨v, given, rest⟩ := bind_ok computed
    rw [List.tail_cons] at given
    by_cases lt : v < n
    · refine ⟨v, lt, fun r _ => ?_⟩
      rw [List.tail_cons, given]
      show (if v ≥ n then _ else _) = _
      rw [if_neg (Nat.not_le_of_lt lt), ← head_eq r v args]
      rfl
    · rw [if_pos (Nat.le_of_not_lt lt)] at rest
      cases rest

/-! ## Superpositions -/

/-- A superposition that is computed has as many inner operations as arguments, all of them with the
same arguments and on the same set. -/
theorem fitting_of_composeWith (shape : f.tensor.shape = List.replicate (k + 1) n)
    (graphs : ∀ g ∈ inner, ∃ m d, g.tensor.shape = List.replicate (m + 1) d)
    (run : f.composeWith inner = .ok h) :
    inner.length = k ∧ (∀ g ∈ inner, ∀ g' ∈ inner, g.arity = g'.arity) ∧
      ∀ g ∈ inner, g.size = .ok n := by
  by_contra other
  have unfit : inner.length ≠ k ∨ (∃ g ∈ inner, ∃ g' ∈ inner, g.arity ≠ g'.arity) ∨
      ∃ g ∈ inner, g.size ≠ .ok n := by
    by_contra none
    simp only [not_or, not_not, not_exists, not_and] at none
    exact other none
  obtain ⟨e, refused⟩ := composeWith_refuses shape graphs unfit
  rw [run] at refused
  cases refused

/-- A superposition that is computed has names for all its axes. -/
theorem few_of_composeWith (length : (g :: inner).length = f.arity)
    (arities : ∀ g' ∈ g :: inner, g'.arity = g.arity) (run : f.composeWith (g :: inner) = .ok h) :
    1 + f.arity + g.arity ≤ 52 := by
  by_contra many
  have checked : requireArities g.arity (g :: inner) = .ok () := by
    rcases requireArities_cases g.arity (g :: inner) with ⟨-, run⟩ | ⟨g', member, ne, -⟩
    · exact run
    · exact absurd (arities g' member) ne
  have stops : (do
      requireArities g.arity (g :: inner)
      Contraction.names (1 + f.arity + g.arity)) =
        .error (.error (.unsupported (.contraction (1 + f.arity + g.arity) 52))) := by
    rw [checked, Contraction.names_many (by omega)]
    rfl
  have refused := composeWith_stops length stops
  rw [run] at refused
  cases refused

theorem Valid.composeWith (hf : f.Valid k n) (hi : ∀ g ∈ inner, ∃ m d, g.Valid m d)
    (run : f.composeWith inner = .ok h) : ∃ m, h.Valid m n := by
  have graphs : ∀ g ∈ inner, ∃ m d, g.tensor.shape = List.replicate (m + 1) d := by
    intro g member
    obtain ⟨m, d, valid⟩ := hi g member
    exact ⟨m, d, valid.shape⟩
  obtain ⟨length, arities, sizes⟩ := fitting_of_composeWith hf.shape graphs run
  have arity : f.arity = k := arity_of_graph hf.shape
  cases inner with
  | nil =>
    unfold Operation.composeWith at run
    rw [arity, if_neg (not_not.mpr length)] at run
    cases run
  | cons first rest =>
    have valids : ∀ g ∈ first :: rest, g.Valid first.arity n := by
      intro g member
      obtain ⟨m, d, valid⟩ := hi g member
      have size : g.size = .ok d := Relation.size_of_shape (r := g.toRelation) valid.shape
      obtain rfl : d = n := Except.ok.inj (size.symm.trans (sizes g member))
      rw [← arities g member first List.mem_cons_self, arity_of_graph valid.shape]
      exact valid
    have few := few_of_composeWith (length.trans arity.symm)
      (fun g member => arities g member first List.mem_cons_self) run
    rw [arity] at few
    have pos : 1 ≤ k := by
      rw [← length, List.length_cons]
      omega
    have built : Yields False _ (f.composeWith (first :: rest)) :=
      yields_superposition hf pos length valids few nofun
    exact ⟨first.arity, (built.of_ok run).1⟩

theorem Valid.polymer (hf : f.Valid k n) (run : f.polymer arity places = .ok h) :
    h.Valid arity n := by
  have length : places.length = k := by
    by_contra other
    unfold Operation.polymer at run
    rw [arity_of_graph hf.shape, if_pos other] at run
    cases run
  have below : ∀ i ∈ places, i < arity := by
    unfold Operation.polymer at run
    rw [arity_of_graph hf.shape, if_neg (not_not.mpr length)] at run
    cases found : places.find? (· ≥ arity) with
    | none =>
      intro i known
      simpa using List.find?_eq_none.mp found i known
    | some bad =>
      rw [found] at run
      obtain ⟨_, -, refused⟩ := bind_ok run
      obtain ⟨_, refused, -⟩ := bind_ok refused
      cases refused
  have built : Yields False _ (f.polymer arity places) := yields_polymer hf length below nofun
  exact (built.of_ok run).1

/-! ## Constructed operations -/

/-- The operations that calls give, starting from those constructors that have a value at all
arguments. -/
inductive Constructed : Operation Bool → Prop
  | ofFunction {n k : Nat} {values : List Nat → Outcome Nat} {f : Operation Bool}
      (asked : n = 0 → 0 < k) (run : Operation.ofFunction n k values = .ok f) : Constructed f
  | projection {n k coord : Nat} {f : Operation Bool}
      (run : Operation.projection n k coord = .ok f) : Constructed f
  | const {n k v : Nat} {f : Operation Bool} (inside : v < n ∨ n = 0 ∧ 0 < k)
      (run : Operation.const n k v = .ok f) : Constructed f
  | polymer {f h : Operation Bool} {arity : Nat} {places : List Nat} (hf : Constructed f)
      (run : f.polymer arity places = .ok h) : Constructed h
  | compose {f g h : Operation Bool} (hf : Constructed f) (hg : Constructed g)
      (run : f.compose g = .ok h) : Constructed h
  | composeWith {f h : Operation Bool} {inner : List (Operation Bool)} (hf : Constructed f)
      (hi : ∀ g ∈ inner, Constructed g) (run : f.composeWith inner = .ok h) : Constructed h

theorem Constructed.valid (made : Constructed f) : ∃ k n, f.Valid k n := by
  induction made with
  | @ofFunction n k values f asked run =>
    have gen := generated_of_ok run
    refine ⟨k, n, gen.shape, ?_⟩
    rw [ofFunction_isOperation run, decide_eq_true asked]
  | @projection n k coord f run => exact ⟨k, n, projection_valid run⟩
  | @const n k v f inside run =>
    have gen := generated_of_ok run
    refine ⟨k, n, gen.shape, ?_⟩
    rw [const_isOperation run, decide_eq_true inside]
  | polymer _ run ihf =>
    obtain ⟨k, n, hf⟩ := ihf
    exact ⟨_, n, hf.polymer run⟩
  | @compose f g h _ _ run ihf ihg =>
    obtain ⟨k, n, hf⟩ := ihf
    obtain ⟨_, -, rest⟩ := bind_ok run
    obtain ⟨_, -, composed⟩ := bind_ok rest
    obtain ⟨m, hh⟩ := hf.composeWith (List.forall_mem_singleton.mpr ihg) composed
    exact ⟨m, n, hh⟩
  | composeWith _ _ run ihf ihi =>
    obtain ⟨k, n, hf⟩ := ihf
    obtain ⟨m, hh⟩ := hf.composeWith ihi run
    exact ⟨m, n, hh⟩

/-- A valid operation is accepted with its graph, and has a value at all arguments. -/
theorem Valid.accepted (valid : f.Valid k n) : ofGraph f.tensor = .ok f := by
  unfold ofGraph Operation.ofTensor
  rw [Relation.ofTensor_uniform valid.shape]
  show (f.isOperation >>= _) = _
  rw [valid.functional]
  rfl

theorem Valid.value_lt (valid : f.Valid k n) (within : Shape.Within (List.replicate k n) args) :
    ∃ v < n, f.value args = .ok (some v) := by
  obtain ⟨v, one⟩ := valid.exists_value within
  have taken := ((one v).mpr rfl).within
  rw [valid.shape, List.replicate_succ] at taken
  exact ⟨v, taken.1, value_eq valid.shape within one⟩

/-- Constructed operations are functions: the check finds one value at all arguments, the graph is
accepted, and there is a value at each.  A constant that is built is a function exactly if its value
is in the set or it has no arguments to be asked at, and a table unless it has no value to give. -/
theorem constructed_functional (f : Operation Bool) :
    (Constructed f → f.isOperation = .ok true ∧ ofGraph f.tensor = .ok f ∧
      ∃ n, f.size = .ok n ∧ ∀ args : List Nat, args.length = f.arity → (∀ a ∈ args, a < n) →
        ∃ v < n, f.value args = .ok (some v)) ∧
    (∀ n k v : Nat, const n k v = .ok f →
      f.isOperation = .ok (decide (v < n ∨ n = 0 ∧ 0 < k))) ∧
    (∀ (n k : Nat) (values : List Nat → Outcome Nat), ofFunction n k values = .ok f →
      f.isOperation = .ok (decide (n = 0 → 0 < k))) := by
  refine ⟨fun made => ?_, fun n k v => const_isOperation, fun n k values => ofFunction_isOperation⟩
  obtain ⟨k, n, valid⟩ := made.valid
  have size : f.size = .ok n := Relation.size_of_shape (r := f.toRelation) valid.shape
  refine ⟨valid.functional, valid.accepted, n, size,
    fun args length below => valid.value_lt (Shape.within_replicate.mpr ⟨?_, below⟩)⟩
  rw [length, arity_of_graph valid.shape]

/-- The identity on two numbers. -/
def unmoved : Operation Bool := ⟨⟨[2, 2], [true, false, false, true], rfl⟩⟩

/-- Negation twice is constructed, and has a value at 1. -/
theorem constructed_functional_negation :
    Constructed negation ∧ negation.compose negation = .ok unmoved ∧
      unmoved.isOperation = .ok true ∧ ofGraph unmoved.tensor = .ok unmoved ∧
      ∃ v < 2, unmoved.value [1] = .ok (some v) := by
  have table : ofFunction 2 1 (fun args => .ok (1 - args.headD 0)) = .ok negation := by rfl
  have made : Constructed negation := .ofFunction (by decide) table
  have run : negation.compose negation = .ok unmoved := by decide +kernel
  obtain ⟨functional, accepted, n, size, values⟩ :=
    (constructed_functional unmoved).1 (.compose made made run)
  obtain rfl : 2 = n := Except.ok.inj size
  exact ⟨made, run, functional, accepted, values [1] rfl (by decide)⟩

/-- A constant outside the set, and a table that has no value to give, are built as well. -/
theorem not_functional_outside :
    (∃ f : Operation Bool, const 2 1 5 = .ok f ∧ f.isOperation = .ok false ∧
      f.value [0] = .ok none ∧ ofGraph f.tensor = .error (.error (.invalid .operationGraph))) ∧
    ∃ f : Operation Bool, ofFunction 0 0 (fun _ => .ok 0) = .ok f ∧ f.isOperation = .ok false ∧
      f.value [] = .ok none := by
  refine ⟨⟨⟨⟨[2, 2], [false, false, false, false], rfl⟩⟩, by rfl, ?_, ?_, ?_⟩,
    ⟨⟨[0], [], rfl⟩⟩, by rfl, ?_, ?_⟩
  all_goals decide +kernel

end Operation

end FiniteStructures
