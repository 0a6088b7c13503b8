import FiniteStructures.Operation.Superposition
import FiniteStructures.Proofs.Effects
import FiniteStructures.Proofs.Relation.Projections

/-!
Numbers out of range.  A coordinate that is not below the arity, or a member of a tuple that is not in
the set, is refused with an error that tells what the number would need: an arity, or sizes, of one more
than the number.  This is counted first, and for all numbers but the greatest one it is a count,

    c < 2⁶⁴ - 1     ArityMismatch arity (c + 1),  ShapeMismatch [size, …] [max (c + 1) size, …]
    c = 2⁶⁴ - 1     overflow

(`Fault.beyond`, `Fault.outside`).  Where the numbers are looked at in order, the first one that is out
of range ends the call (`out_of_range_reported`).
-/

namespace FiniteStructures

/-- The end of a call that meets a number which is not below the arity. -/
def Fault.beyond (arity number : Nat) : Fault :=
  if number + 1 < Count.limit then .error (.arityMismatch arity (number + 1)) else .overflow

/-- The end of a call that meets a tuple outside of a set. -/
def Fault.outside (size : Nat) (tuple : List Nat) : Fault :=
  if ∀ a ∈ tuple, a + 1 < Count.limit then
    .error (.shapeMismatch (List.replicate tuple.length size) (tuple.map fun a => max (a + 1) size))
  else .overflow

namespace Count

variable {α β : Type}

theorem add_one_arity (arity number : Nat) :
    (add number 1 >>= Outcome.arity arity : Outcome α) = .error (.beyond arity number) := by
  unfold add check Fault.beyond
  split <;> rfl

theorem add_one_arity_bind (arity number : Nat) (f : α → Outcome β) :
    (do f (← Outcome.arity arity (← add number 1))) = .error (.beyond arity number) := by
  rw [← bind_assoc, add_one_arity]
  rfl

/-- The sizes of axes that would have the members of a tuple. -/
theorem mapM_add_one (size : Nat) (tuple : List Nat) :
    tuple.mapM (fun a => do return max (← add a 1) size) =
      if ∀ a ∈ tuple, a + 1 < limit then .ok (tuple.map fun a => max (a + 1) size)
      else .error .overflow := by
  induction tuple with
  | nil => rfl
  | cons a tuple ih =>
    rw [List.mapM_cons, ih, add, check]
    simp only [List.forall_mem_cons, List.map_cons]
    by_cases first : a + 1 < limit
    · rw [if_pos first]
      by_cases rest : ∀ a ∈ tuple, a + 1 < limit
      · rw [if_pos rest, if_pos ⟨first, rest⟩]
        rfl
      · rw [if_neg rest, if_neg fun h => rest h.2]
        rfl
    · have all : ¬ (a + 1 < limit ∧ ∀ a ∈ tuple, a + 1 < limit) := fun h => first h.1
      rw [if_neg first, if_neg all]
      rfl

end Count

namespace Relation

open Outcome

variable {E : Type} {size arity : Nat} {tuple : List Nat}

theorem markTuples_outside {before : List (List Nat)}
    (inside : ∀ t ∈ before, t.length = arity ∧ ∀ a ∈ t, a < size) (after : List (List Nat))
    (length : tuple.length = arity) (outside : ∃ a ∈ tuple, size ≤ a) (cells : List Bool) :
    markTuples size arity (List.replicate arity size) (before ++ tuple :: after) cells =
      .error (.outside size tuple) := by
  induction before generalizing cells with
  | nil =>
    have found : tuple.any (· ≥ size) = true := by simpa using outside
    rw [List.nil_append, markTuples, if_neg (not_not.mpr length), if_pos found, Count.mapM_add_one,
      Fault.outside, length]
    split <;> rfl
  | cons t before ih =>
    rw [List.forall_mem_cons] at inside
    have found : ¬ t.any (· ≥ size) = true := by simpa using inside.1.2
    rw [List.cons_append, markTuples, if_neg (not_not.mpr inside.1.1), if_neg found]
    exact ih inside.2 _

/-- The first tuple that leaves the set ends the call, if the cells can be stored. -/
theorem ofTuples_outside {before : List (List Nat)}
    (inside : ∀ t ∈ before, t.length = arity ∧ ∀ a ∈ t, a < size) (after : List (List Nat))
    (length : tuple.length = arity) (outside : ∃ a ∈ tuple, size ≤ a) :
    ofTuples size arity (before ++ tuple :: after) =
      (do Shape.storable (← Shape.uniform size arity); .error (.outside size tuple)) := by
  unfold ofTuples
  cases filled : Shape.uniform size arity with
  | error e => rfl
  | ok shape =>
    have same : Yields False (· = List.replicate arity size) (Shape.uniform size arity) :=
      Shape.yields_uniform nofun
    obtain rfl := same.of_ok filled
    show (Shape.storable _ >>= fun _ => _ >>= _) = (Shape.storable _ >>= fun _ => _)
    rw [markTuples_outside inside after length outside]
    rfl

/-! ## Coordinates -/

variable {m : Type → Type} {σ : Type} [BooleanDomain E m] [Monad m] [MonadLiftT Outcome m]
  [Runnable m σ] {r : Relation E} {coords : List Nat} {c : Nat}

/-- The first coordinate beyond the arity ends a projection, and the state is not touched. -/
theorem run_project_beyond (few : r.arity ≤ 52)
    (first : coords.find? (r.arity ≤ ·) = some c) (s : σ) :
    Runnable.run (r.project coords : m (Relation E)) s = (.error (.beyond r.arity c), s) := by
  have nonempty : ¬ coords.isEmpty := by
    rw [List.isEmpty_iff]
    rintro rfl
    cases first
  have chosen : choose r.arity (Contraction.namePool.take r.arity) coords =
      .error (.beyond r.arity c) := by
    rw [choose_first r.arity (by rwa [Contraction.length_names few]), Count.add_one_arity]
  unfold project
  rw [if_neg nonempty, Contraction.names_eq few]
  rw [Runnable.run_bind, Runnable.run_lift]
  dsimp only
  rw [chosen, Runnable.run_bind, Runnable.run_lift]

/-- Relations with too many coordinates to be named have no projections. -/
theorem run_project_many (many : 52 < r.arity) (nonempty : coords ≠ []) (s : σ) :
    Runnable.run (r.project coords : m (Relation E)) s =
      (.error (.error (.unsupported (.contraction r.arity 52))), s) := by
  unfold project
  rw [if_neg (by rwa [List.isEmpty_iff]), Contraction.names_many many, Runnable.run_bind,
    Runnable.run_lift]
  rfl

end Relation

namespace Operation

variable {E : Type} {f : Operation E} {arity c : Nat} {places : List Nat}

/-- The first place beyond the new arity ends the call. -/
theorem polymer_beyond (length : places.length = f.arity)
    (first : places.find? (· ≥ arity) = some c) :
    f.polymer arity places = .error (.beyond arity c) := by
  unfold polymer
  rw [if_neg (not_not.mpr length), first]
  exact Count.add_one_arity_bind arity c _

theorem projection_beyond {m : Type → Type} [BooleanDomain E m] (size : Nat)
    (beyond : arity ≤ c) :
    (projection size arity c : Outcome (Operation E)) = .error (.beyond arity c) := by
  unfold projection
  rw [if_pos beyond]
  exact Count.add_one_arity_bind arity c _

end Operation

/-! ## Numbers out of range -/

/-- A number out of range ends a call with an error that tells what the number needs, unless this is no
count: a coordinate beyond the arity that a projection is asked for, over any domain and without touching
its state; a place beyond the arity of a polymer; the coordinate of a projection operation; and a tuple
that leaves the set.  Other checks that fail come first: of the arity that a contraction can name, of the
number of places, and of the room for the cells. -/
theorem out_of_range_reported {E : Type} {m : Type → Type} {σ : Type} [BooleanDomain E m] [Monad m]
    [MonadLiftT Outcome m] [Runnable m σ] :
    (∀ (r : Relation E) (coords : List Nat) (c : Nat), coords.find? (r.arity ≤ ·) = some c →
      ∀ s : σ, Runnable.run (r.project coords : m (Relation E)) s =
        (.error (if r.arity ≤ 52 then .beyond r.arity c
          else .error (.unsupported (.contraction r.arity 52))), s)) ∧
    (∀ (f : Operation E) (arity : Nat) (places : List Nat) (c : Nat),
      places.find? (arity ≤ ·) = some c → f.polymer arity places =
        .error (if places.length = f.arity then .beyond arity c
          else .error (.arityMismatch f.arity places.length))) ∧
    (∀ size arity c : Nat, arity ≤ c →
      (Operation.projection size arity c : Outcome (Operation E)) = .error (.beyond arity c)) ∧
    ∀ (size arity : Nat) (before : List (List Nat)) (tuple : List Nat) (after : List (List Nat)),
      (∀ t ∈ before, t.length = arity ∧ ∀ a ∈ t, a < size) → tuple.length = arity →
      (∃ a ∈ tuple, size ≤ a) → Relation.ofTuples size arity (before ++ tuple :: after) =
        (do Shape.storable (← Shape.uniform size arity); .error (.outside size tuple)) := by
  refine ⟨fun r coords c first s => ?_, fun f arity places c first => ?_,
    fun size arity c => Operation.projection_beyond size,
    fun size arity before tuple after inside => Relation.ofTuples_outside inside after⟩
  · by_cases few : r.arity ≤ 52
    · rw [if_pos few]
      exact Relation.run_project_beyond few first s
    · have nonempty : coords ≠ [] := by
        rintro rfl
        cases first
      rw [if_neg few]
      exact Relation.run_project_many (Nat.lt_of_not_le few) nonempty s
  · by_cases length : places.length = f.arity
    · rw [if_pos length]
      exact Operation.polymer_beyond length first
    · rw [if_neg length]
      unfold Operation.polymer
      rw [if_pos length]
      rfl

/-- The greatest numbers that are reported. -/
theorem out_of_range_reported_greatest :
    Relation.project (⟨⟨[2], [true, false], rfl⟩⟩ : Relation Bool) [0, 18446744073709551614] =
        Outcome.arity 1 18446744073709551615 ∧
      Operation.polymer (⟨⟨[1, 1], [true], rfl⟩⟩ : Operation Bool) 3 [18446744073709551614] =
        Outcome.arity 3 18446744073709551615 ∧
      (Operation.projection 2 1 18446744073709551614 : Outcome (Operation Bool)) =
        Outcome.arity 1 18446744073709551615 ∧
      Relation.ofTuples 3 2 [[0, 2], [18446744073709551614, 1]] =
        Outcome.shapes [3, 3] [18446744073709551615, 3] := by
  obtain ⟨project, polymer, projection, tuples⟩ :=
    out_of_range_reported (E := Bool) (m := Outcome) (σ := Unit)
  refine ⟨?_, ?_, ?_, ?_⟩
  · exact congrArg Prod.fst
      (project ⟨⟨[2], [true, false], rfl⟩⟩ [0, 18446744073709551614] _ rfl ())
  · exact polymer ⟨⟨[1, 1], [true], rfl⟩⟩ 3 [18446744073709551614] _ rfl
  · exact projection 2 1 18446744073709551614 (by decide)
  · exact tuples 3 2 [[0, 2]] _ [] (by decide) rfl (by decide)

/-- The greatest number is not reported: counting what it needs overflows. -/
theorem greatest_overflows :
    Relation.project (⟨⟨[2], [true, false], rfl⟩⟩ : Relation Bool) [0, 18446744073709551615] =
        .error .overflow ∧
      Operation.polymer (⟨⟨[1, 1], [true], rfl⟩⟩ : Operation Bool) 3 [18446744073709551615] =
        .error .overflow ∧
      (Operation.projection 2 1 18446744073709551615 : Outcome (Operation Bool)) =
        .error .overflow ∧
      Relation.ofTuples 3 2 [[0, 2], [18446744073709551615, 1]] = .error .overflow :=
  ⟨rfl, rfl, rfl, rfl⟩

end FiniteStructures
