import FiniteStructures.Proofs.Relation.Binary
import Mathlib.GroupTheory.OrderOfElement
import Mathlib.GroupTheory.Perm.Closure
import Mathlib.GroupTheory.Perm.Fin

/-!
Symmetric relations.  A permutation `σ` of the coordinates takes a tuple `t` to `t ∘ σ`.  Two
inclusions are tested,

    t in r  →  t ∘ σ in r      for the exchange of the first two coordinates, and for their cycle

and they imply `t in r ↔ t ∘ σ in r` for all permutations `σ`: the permutations that keep `r` are
closed under products, in a finite group also under inverses, and these two generate all.
-/

namespace FiniteStructures

namespace Relation

open Outcome Tensor

variable {safe : Prop} {k m : Nat} {r : Relation Bool}

/-! ## Permutations that keep a relation -/

/-- The permutations of coordinates that lead from tuples of the relation to tuples of it. -/
def keeping (r : Relation Bool) (k m : Nat) : Submonoid (Equiv.Perm (Fin k)) where
  carrier := { σ | ∀ t : Fin k → Fin m, r.Contains t → r.Contains (t ∘ σ) }
  one_mem' _ h := h
  mul_mem' hσ hτ t h := hτ _ (hσ t h)

theorem mem_keeping {σ : Equiv.Perm (Fin k)} :
    σ ∈ r.keeping k m ↔ ∀ t : Fin k → Fin m, r.Contains t → r.Contains (t ∘ σ) := Iff.rfl

/-- Permutations that generate all of them keep a relation only if all of them keep it. -/
theorem keeping_eq_top {gens : Set (Equiv.Perm (Fin k))} (generate : Subgroup.closure gens = ⊤)
    (keep : gens ⊆ r.keeping k m) : r.keeping k m = ⊤ := by
  refine top_le_iff.mp ?_
  calc (⊤ : Submonoid (Equiv.Perm (Fin k))) = (Subgroup.closure gens).toSubmonoid := by
        rw [generate, Subgroup.top_toSubmonoid]
    _ = Submonoid.closure gens := Subgroup.closure_toSubmonoid_of_finite
    _ ≤ r.keeping k m := Submonoid.closure_le.mpr keep

/-- A relation that all permutations keep has a tuple exactly when it has the permuted one. -/
theorem keeping_eq_top_iff :
    r.keeping k m = ⊤ ↔
      ∀ (σ : Equiv.Perm (Fin k)) (t : Fin k → Fin m), r.Contains t ↔ r.Contains (t ∘ σ) := by
  constructor
  · intro all σ t
    have keeps (τ : Equiv.Perm (Fin k)) : τ ∈ r.keeping k m := by
      rw [all]
      exact Submonoid.mem_top τ
    refine ⟨keeps σ t, ?_⟩
    intro permuted
    have back := keeps σ⁻¹ _ permuted
    rwa [Function.comp_assoc, ← Equiv.Perm.coe_mul, mul_inv_cancel, Equiv.Perm.coe_one,
      Function.comp_id] at back
  · intro invariant
    exact (Submonoid.eq_top_iff' _).mpr fun σ t => (invariant σ t).mp

/-! ## The two tests -/

/-- The exchange of the first two coordinates. -/
def exchange (k : Nat) : Equiv.Perm (Fin (k + 2)) := Equiv.swap 0 1

/-- Each coordinate goes to the one before it, the first one to the last. -/
def cycle (k : Nat) : Equiv.Perm (Fin (k + 2)) := (finRotate (k + 2))⁻¹

theorem closure_exchange_cycle (k : Nat) : Subgroup.closure {exchange k, cycle k} = ⊤ := by
  have all := Equiv.Perm.closure_cycle_adjacent_swap (isCycle_finRotate (n := k))
    support_finRotate 0
  rw [finRotate_apply, zero_add] at all
  refine top_le_iff.mp (all ▸ (Subgroup.closure_le _).mpr ?_)
  rintro σ (rfl | rfl)
  · rw [← inv_inv (finRotate (k + 2))]
    exact inv_mem (Subgroup.subset_closure (.inr rfl))
  · exact Subgroup.subset_closure (.inl rfl)

theorem axesOf_eq {f : Nat → Nat} {σ : Equiv.Perm (Fin k)} (h : ∀ i : Fin k, (σ i : Nat) = f i) :
    axesOf σ = (List.range k).map f := by
  rw [map_range_eq_ofFn]
  exact congrArg List.ofFn (funext h)

theorem axesOf_exchange (k : Nat) : axesOf (exchange k) =
    (List.range (k + 2)).map fun i => if i = 0 then 1 else if i = 1 then 0 else i := by
  refine axesOf_eq fun i => ?_
  unfold exchange
  rw [Equiv.swap_apply_def]
  simp only [Fin.ext_iff, Fin.val_zero, Fin.val_one]
  split
  · rfl
  · split <;> rfl

theorem axesOf_cycle (k : Nat) : axesOf (cycle k) =
    (List.range (k + 2)).map fun i => (i + (k + 2) - 1) % (k + 2) := by
  refine axesOf_eq fun i => ?_
  have before : cycle k i = i - 1 := by
    unfold cycle
    rw [Equiv.Perm.inv_eq_iff_eq, finRotate_apply, sub_add_cancel]
  rw [before, Fin.sub_def]
  show (k + 2 - 1 + i) % (k + 2) = _
  congr 1
  omega

/-- The relation has the tuples that a permutation takes into `r`. -/
def Permuted (σ : Equiv.Perm (Fin k)) (m : Nat) (r u : Relation Bool) : Prop :=
  Table (List.replicate k m) (fun index => r.tensor.Holds (pick index (axesOf σ))) u.tensor

theorem yields_permuted (shape : r.tensor.shape = List.replicate k m) (σ : Equiv.Perm (Fin k)) :
    Yields r.tensor.Stored (Permuted σ m r)
      (do return ⟨← r.tensor.permute (axesOf σ)⟩ : Outcome (Relation Bool)) := by
  have table : Table (List.replicate k m) r.tensor.Holds r.tensor := table_holds shape
  exact (table.permute σ fun stored => stored.spacious shape).bind fun t ht => .of_eq rfl ht

/-- A relation is in the permuted one exactly when the permutation keeps it. -/
theorem yields_isSubsetOf_permuted (shape : r.tensor.shape = List.replicate k m)
    {σ : Equiv.Perm (Fin k)} {u : Relation Bool} (hu : Permuted σ m r u) :
    Yields safe (fun b => b = true ↔ σ ∈ r.keeping k m) (r.isSubsetOf u) := by
  have table : Table (List.replicate k m) r.tensor.Holds r.tensor := table_holds shape
  refine (yields_isSubsetOf table hu).mono fun b hb => hb.trans ?_
  rw [mem_keeping]
  constructor
  · intro h t here
    have there := h _ (Shape.within_ofFn.mpr ⟨t, rfl⟩) here
    rwa [pick_axesOf] at there
  · intro h index within here
    obtain ⟨t, rfl⟩ := Shape.within_ofFn.mp within
    rw [pick_axesOf]
    exact h t here

/-- Both tests succeed exactly when all permutations keep the relation. -/
theorem keeping_eq_top_iff_tests :
    r.keeping (k + 2) m = ⊤ ↔ exchange k ∈ r.keeping (k + 2) m ∧ cycle k ∈ r.keeping (k + 2) m := by
  constructor
  · intro all
    rw [all]
    exact ⟨Submonoid.mem_top _, Submonoid.mem_top _⟩
  · rintro ⟨exchanged, cycled⟩
    refine keeping_eq_top (closure_exchange_cycle k) ?_
    rintro σ (rfl | rfl)
    · exact exchanged
    · exact cycled

theorem yields_isSymmetric_tests (shape : r.tensor.shape = List.replicate (k + 2) m) :
    Yields r.tensor.Stored (fun b => b = true ↔
        exchange k ∈ r.keeping (k + 2) m ∧ cycle k ∈ r.keeping (k + 2) m) r.isSymmetric := by
  have swaps : r.swap = do return ⟨← r.tensor.permute (axesOf (exchange k))⟩ := by
    unfold swap
    rw [arity_of_shape shape, axesOf_exchange]
  have rotates : r.rotate = do return ⟨← r.tensor.permute (axesOf (cycle k))⟩ := by
    unfold rotate
    rw [arity_of_shape shape, axesOf_cycle]
  have enough : ¬ r.arity < 2 := by
    rw [arity_of_shape shape]
    omega
  unfold isSymmetric
  rw [if_neg enough, swaps, rotates]
  refine (yields_permuted shape (exchange k)).bind fun u hu => ?_
  refine (yields_isSubsetOf_permuted shape hu).bind fun first hfirst => ?_
  refine (yields_permuted shape (cycle k)).bind fun v hv => ?_
  refine (yields_isSubsetOf_permuted shape hv).bind fun second hsecond => .of_eq rfl ?_
  rw [← hfirst, ← hsecond]
  exact Bool.and_eq_true_iff

/-- A relation is found symmetric exactly when it has a tuple whenever it has any permutation of
it. -/
theorem isSymmetric_iff_invariant (shape : r.tensor.shape = List.replicate k m) :
    Yields r.tensor.Stored (fun b => b = true ↔
        ∀ (σ : Equiv.Perm (Fin k)) (t : Fin k → Fin m), r.Contains t ↔ r.Contains (t ∘ σ))
      r.isSymmetric := by
  match k with
  | 0 | 1 =>
    -- the identity is the only permutation
    unfold isSymmetric
    rw [arity_of_shape shape]
    refine .of_eq rfl ⟨?_, fun _ => rfl⟩
    intro _ σ t
    rw [Subsingleton.elim σ 1]
    rfl
  | k + 2 =>
    refine (yields_isSymmetric_tests shape).mono fun b hb => ?_
    rw [hb, ← keeping_eq_top_iff_tests, keeping_eq_top_iff]

/-- The tuples (0, 1, 2), (1, 2, 0) and (2, 0, 1) on three elements. -/
def turns : Relation Bool :=
  ⟨tabulate [3, 3, 3] fun t => t = [0, 1, 2] ∨ t = [1, 2, 0] ∨ t = [2, 0, 1]⟩

/-- A relation that only the cycle keeps is not symmetric. -/
theorem isSymmetric_iff_invariant_turns :
    turns.tensor.shape = List.replicate 3 3 ∧ turns.isSymmetric = .ok false := by
  refine ⟨rfl, ?_⟩
  obtain ⟨b, run, invariant⟩ | ⟨narrow, -⟩ :=
    isSymmetric_iff_invariant (k := 3) (m := 3) (r := turns) rfl
  · rw [run, Except.ok.injEq, Bool.eq_false_iff]
    intro symmetric
    have exchanged := invariant.mp symmetric (Equiv.swap 0 1) ![0, 1, 2]
    revert exchanged
    decide
  · exact absurd ⟨by decide, by decide⟩ narrow

end Relation

end FiniteStructures
