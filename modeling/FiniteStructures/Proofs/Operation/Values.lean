import FiniteStructures.Proofs.Operation.Graphs
import FiniteStructures.Proofs.Parametricity.Operations
import FiniteStructures.Proofs.Parametricity.Shapes

/-!
Values of operations.  The scan of `value` finds a value that the operation takes alone, and a valid
operation takes one at all arguments,

    f.value args = v    where   f.tensor.Holds (r :: args)  ↔  r = v      (value_eq)

The check of validity itself stops or not by the shape of the graph alone.
-/

namespace FiniteStructures

namespace Operation

open Outcome Tensor

variable {safe : Prop} {n k : Nat} {f h : Operation Bool} {args : List Nat}

/-! ## Values -/

/-- The scan finds the one value, whether it comes before or after the values already seen. -/
theorem scan_eq {v : Nat} (cells : ∀ r < n, f.tensor.get (r :: args) = .ok (decide (r = v)))
    (lt : v < n) {count r : Nat} (rest : r + count = n) :
    value.scan f args count r (if v < r then some v else none) = .ok (some v) := by
  induction count generalizing r with
  | zero =>
    rw [if_pos (by omega)]
    rfl
  | succ count ih =>
    have next := ih (r := r + 1) (by omega)
    unfold value.scan
    rw [cells r (by omega)]
    by_cases here : r = v
    · subst here
      rw [if_pos (by omega)] at next
      rw [if_neg (Nat.lt_irrefl r)]
      simpa [bind, Except.bind] using next
    · have same : (if v < r + 1 then some v else none) = if v < r then some v else none := by
        simp only [show v < r + 1 ↔ v < r by omega]
      rw [same] at next
      simpa [bind, Except.bind, here] using next

/-- A value that is taken alone is the one that is found. -/
theorem value_eq (shape : f.tensor.shape = List.replicate (k + 1) n)
    (within : Shape.Within (List.replicate k n) args) {v : Nat}
    (one : ∀ r, f.tensor.Holds (r :: args) ↔ r = v) : f.value args = .ok (some v) := by
  let _ : Zero Bool := ⟨false⟩
  have inside (r : Nat) (lt : r < n) : Shape.Within f.tensor.shape (r :: args) := by
    rw [shape, List.replicate_succ]
    exact ⟨lt, within⟩
  have cells : ∀ r < n, f.tensor.get (r :: args) = .ok (decide (r = v)) := by
    intro r lt
    rw [get_eq (inside r lt), Except.ok.injEq, Bool.eq_iff_iff, decide_eq_true_iff,
      ← holds_iff (inside r lt), one]
  have lt : v < n := by
    have taken := ((one v).mpr rfl).within
    rw [shape, List.replicate_succ] at taken
    exact taken.1
  have size : f.size = .ok n := Relation.size_of_shape shape
  unfold value
  rw [size]
  exact scan_eq cells lt (Nat.zero_add n)

/-! ## Validity -/

/-- The operation has `k` arguments, all below `n`, and at all of them exactly one value. -/
structure Valid (k n : Nat) (f : Operation Bool) : Prop where
  shape : f.tensor.shape = List.replicate (k + 1) n
  functional : f.isOperation = .ok true

theorem Valid.exists_value (valid : f.Valid k n)
    (within : Shape.Within (List.replicate k n) args) :
    ∃ v, ∀ r, f.tensor.Holds (r :: args) ↔ r = v := by
  obtain ⟨t, rfl⟩ := Shape.within_ofFn.mp within
  have check : Yields False _ f.isOperation := yields_isOperation valid.shape nofun
  obtain ⟨v, takes, unique⟩ := (check.of_ok valid.functional).mp rfl t
  refine ⟨v, fun r => ⟨?_, ?_⟩⟩
  · intro taken
    have lt := taken.within
    rw [valid.shape, List.replicate_succ] at lt
    exact congrArg Fin.val (unique ⟨r, lt.1⟩ taken)
  · rintro rfl
    exact takes

/-- One value at all arguments makes an operation valid, if the check can be made. -/
theorem valid_of_values (shape : f.tensor.shape = List.replicate (k + 1) n)
    (values : ∀ args, Shape.Within (List.replicate k n) args →
      ∃ v, ∀ r, f.tensor.Holds (r :: args) ↔ r = v)
    {b : Bool} (run : f.isOperation = .ok b) : f.Valid k n := by
  have check : Yields False _ f.isOperation := yields_isOperation shape nofun
  refine ⟨shape, run.trans (congrArg _ ((check.of_ok run).mpr ?_))⟩
  intro t
  obtain ⟨v, one⟩ := values _ (Shape.within_ofFn.mpr ⟨t, rfl⟩)
  have lt := ((one v).mpr rfl).within
  rw [shape, List.replicate_succ] at lt
  refine ⟨⟨v, lt.1⟩, (one v).mpr rfl, ?_⟩
  intro r taken
  exact Fin.ext ((one r).mp taken)

/-- The check of validity stops or not by the shape of the graph alone. -/
theorem isOperation_alike (same : f.tensor.shape = h.tensor.shape) :
    Agree (fun _ _ => True) f.isOperation h.isOperation :=
  (Simulation.isOperation (rel_blank same)).alike (Simulation.isOperation (rel_blank rfl))

/-! ## Graphs that are built -/

theorem graphShape_ok {shape : List Nat} (run : graphShape n k = .ok shape) :
    shape = List.replicate (k + 1) n ∧ k + 1 < Count.storeLimit := by
  obtain ⟨axes, counted, filled⟩ := bind_ok run
  have added : Yields False (· = k + 1) (Count.add k 1) := Count.yields_check nofun
  obtain rfl := added.of_ok counted
  obtain ⟨stored, kept, rest⟩ := bind_ok filled
  have same : Yields False (· = k + 1) (Count.store (k + 1)) := Count.yields_store nofun
  obtain rfl := same.of_ok kept
  refine ⟨(Except.ok.inj rest).symm, ?_⟩
  by_contra many
  rw [Count.store, if_neg many] at kept
  cases kept

theorem yields_graphShape (room : safe → k + 1 < Count.storeLimit) :
    Yields safe (· = List.replicate (k + 1) n) (graphShape n k) := by
  refine (Count.yields_check fun hs => Nat.lt_trans (room hs) (by decide)).bind fun axes h => ?_
  subst h
  refine (Count.yields_store room).bind fun stored h => ?_
  subst h
  exact .of_eq rfl rfl

/-- What is built from a function is its graph. -/
theorem yields_ofFunction {values : List Nat → Outcome Nat} {g : (Fin k → Fin n) → Fin n}
    (computes : ∀ args : Fin k → Fin n, values (List.ofFn fun j => (args j : Nat)) = .ok (g args))
    (room : safe → Shape.Spacious n (k + 1) ∧ k + 1 < Count.storeLimit) :
    Yields safe (fun f : Operation Bool => f.tensor.shape = List.replicate (k + 1) n ∧ f.IsGraph g)
      (ofFunction n k values) := by
  unfold ofFunction
  refine (yields_graphShape fun hs => (room hs).2).bind fun shape same => ?_
  subst same
  refine (yields_generate_table (f := fun index => decide ((graphOf g).Holds index))
    (fun hs => (room hs).1.store) ?_).bind fun t table => .of_eq rfl ⟨table.shape_eq, ?_⟩
  · intro index within
    obtain ⟨args, value, rfl⟩ := within_graph.mp within
    have taken : (graphOf g).Holds _ ↔ value = g args := graphOf_isGraph g args value
    rw [List.tail_cons, computes args]
    show (if (g args : Nat) ≥ n then _ else _) = _
    rw [if_neg (Nat.not_le_of_lt (g args).isLt)]
    refine congrArg Except.ok ?_
    rw [Bool.eq_iff_iff, decide_eq_true_iff, taken]
    simp [Fin.ext_iff]
  · intro args value
    refine (table.holds _ (within_graph.mpr ⟨args, value, rfl⟩)).trans ?_
    rw [decide_eq_true_iff]
    exact graphOf_isGraph g args value

end Operation

end FiniteStructures
