import FiniteStructures.Permutation
import FiniteStructures.Proofs.Operation.Graphs
import Mathlib.GroupTheory.Perm.Fin

/-!
Permutations by their graphs.  A graph is that of a permutation when it is one of a function that
takes all values.  The parity of a permutation σ is that of its number of inversions,

    i < j  with  σ j < σ i

which are the witnesses of one linear contraction: `i` goes to `x` and `j` to `y`, and `y < x`.
-/

namespace FiniteStructures

namespace Permutation

open Outcome Tensor

variable {safe : Prop} {n : Nat} {p : Permutation Bool} {σ : Equiv.Perm (Fin n)}

/-- A permutation of numbers as a function of one argument. -/
def onFirst (σ : Equiv.Perm (Fin n)) (args : Fin 1 → Fin n) : Fin n := σ (args 0)

theorem onFirst_injective :
    Function.Injective (onFirst : Equiv.Perm (Fin n) → (Fin 1 → Fin n) → Fin n) := by
  intro σ τ same
  ext x
  exact congrArg Fin.val (congrFun same fun _ => x)

/-- The functions of one argument that take all values are the permutations. -/
theorem surjective_iff {g : (Fin 1 → Fin n) → Fin n} :
    Function.Surjective g ↔ ∃ σ : Equiv.Perm (Fin n), g = onFirst σ := by
  constructor
  · intro onto
    let h (x : Fin n) : Fin n := g fun _ => x
    have one (args : Fin 1 → Fin n) : g args = h (args 0) :=
      congrArg g (funext fun j => by rw [Subsingleton.elim j 0])
    have onto' : Function.Surjective h := by
      intro y
      obtain ⟨args, rfl⟩ := onto y
      exact ⟨args 0, (one args).symm⟩
    exact ⟨.ofBijective h (Finite.surjective_iff_bijective.mp onto'), funext one⟩
  · rintro ⟨σ, rfl⟩ y
    exact ⟨fun _ => σ.symm y, σ.apply_symm_apply y⟩

/-- The graph of a permutation. -/
def IsGraph (p : Permutation Bool) (σ : Equiv.Perm (Fin n)) : Prop :=
  p.operation.IsGraph (onFirst σ)

/-- The tensor of the graph of a permutation. -/
def graphOf (σ : Equiv.Perm (Fin n)) : Tensor Bool := Operation.graphOf (onFirst σ)

theorem graphOf_injective : Function.Injective (graphOf : Equiv.Perm (Fin n) → Tensor Bool) :=
  Operation.graphOf_injective.comp onFirst_injective

theorem isGraph_iff {t : Tensor Bool} (shape : t.shape = List.replicate 2 n) :
    IsGraph ⟨⟨t⟩⟩ σ ↔ t = graphOf σ :=
  Operation.isGraph_iff (k := 1) shape

theorem yields_isPermutation (shape : p.tensor.shape = List.replicate 2 n)
    (room : safe → Shape.Spacious n 2) :
    Yields safe (fun b => b = true ↔ ∃ σ : Equiv.Perm (Fin n), p.IsGraph σ) p.isPermutation := by
  unfold isPermutation
  refine (Operation.yields_isOperation (k := 1) shape room).bind fun a ha => ?_
  refine (Operation.yields_isSurjective (k := 1) shape (by decide) room).bind fun b hb =>
    .of_eq rfl ?_
  rw [Bool.and_eq_true_iff, ha, hb, Operation.functional_iff]
  constructor
  · rintro ⟨⟨g, graph⟩, onto⟩
    have surjective : Function.Surjective g := by
      intro y
      obtain ⟨args, takes⟩ := onto y
      exact ⟨args, ((graph args y).mp takes).symm⟩
    obtain ⟨σ, rfl⟩ := surjective_iff.mp surjective
    exact ⟨σ, graph⟩
  · rintro ⟨σ, graph⟩
    refine ⟨⟨_, graph⟩, ?_⟩
    intro y
    obtain ⟨args, same⟩ := surjective_iff.mpr ⟨σ, rfl⟩ y
    exact ⟨args, (graph args y).mpr same.symm⟩

/-! ## Inversions -/

/-- The number of pairs whose order is reversed. -/
def inversions (σ : Equiv.Perm (Fin n)) : Nat :=
  ∑ i, ∑ j, if i < j ∧ σ j < σ i then 1 else 0

/-- Each inversion changes the sign. -/
theorem sign_eq_neg_one_iff (σ : Equiv.Perm (Fin n)) : σ.sign = -1 ↔ Odd (inversions σ) := by
  have power : σ.sign = (-1) ^ inversions σ := by
    rw [Equiv.Perm.sign_eq_prod_prod_Ioi]
    unfold inversions
    rw [← Finset.prod_pow_eq_pow_sum]
    refine Finset.prod_congr rfl fun i _ => ?_
    rw [← Finset.prod_pow_eq_pow_sum, ← Finset.filter_lt_eq_Ioi, Finset.prod_filter]
    refine Finset.prod_congr rfl fun j _ => ?_
    by_cases later : i < j
    · have ne : σ i ≠ σ j := fun same => absurd (σ.injective same) (by omega)
      by_cases kept : σ i < σ j
      · simp [later, kept, Fin.lt_asymm kept]
      · have reversed : σ j < σ i := by omega
        simp [later, kept, reversed]
    · simp [later]
  rw [power]
  exact neg_one_pow_eq_neg_one_iff_odd (by decide)

/-- What the contraction of `isOdd` is made of. -/
def crossing (less p : Tensor Bool) : List (Tensor Bool × List Char) :=
  [(less, ['i', 'j']), (p, ['x', 'i']), (p, ['y', 'j']), (less, ['y', 'x'])]

/-- The witnesses are the inversions, with their images. -/
theorem witnesses_crossing {less : Relation Bool} (order : less.Pairs n (· < ·))
    (graph : p.IsGraph σ) (ρ : Point) :
    Contraction.witnesses n ['i', 'j', 'x', 'y'] (crossing less.tensor p.tensor) ρ =
      inversions σ := by
  have cells (i j x y : Fin n) :
      Contraction.Witness (crossing less.tensor p.tensor) (Function.update (Function.update
        (Function.update (Function.update ρ 'i' i) 'j' j) 'x' x) 'y' y) ↔
      x = σ i ∧ y = σ j ∧ i < j ∧ y < x := by
    have below (u v : Fin n) : less.tensor.Holds [(u : Nat), v] ↔ u < v :=
      order.holds u u.isLt v v.isLt
    have image (u v : Fin n) : p.tensor.Holds [(u : Nat), v] ↔ u = σ v := graph (fun _ => v) u
    simp only [Contraction.Witness, crossing, List.forall_mem_cons, List.not_mem_nil,
      IsEmpty.forall_iff, implies_true, and_true, List.map_cons, List.map_nil, Function.update_self,
      Function.update_of_ne, ne_eq, Char.reduceEq, not_false_eq_true, below, image]
    tauto
  unfold Contraction.witnesses
  calc sumOver (fun _ => n) ['i', 'j', 'x', 'y'] _ ρ
      = ∑ i : Fin n, ∑ j : Fin n, ∑ x : Fin n, ∑ y : Fin n,
          if x = σ i ∧ y = σ j ∧ i < j ∧ y < x then 1 else 0 := by
        simp only [sumOver, Finset.sum_range, cells]
    _ = inversions σ := by
        unfold inversions
        simp only [ite_and, Finset.sum_ite_irrel, Finset.sum_const_zero, Finset.sum_ite_eq',
          Finset.mem_univ, if_true]

/-- The contraction finds the odd permutations. -/
theorem yields_isOdd (shape : p.tensor.shape = List.replicate 2 n)
    (room : safe → Shape.Spacious n 4) :
    Yields safe (fun b => ∀ σ : Equiv.Perm (Fin n), p.IsGraph σ → (b = true ↔ σ.sign = -1))
      p.isOdd := by
  have size : p.size = .ok n := Relation.size_of_shape (k := 1) shape
  unfold isOdd
  rw [size]
  refine (Relation.yields_lessThan fun hs => (room hs).mono (by decide)).bind fun less order => ?_
  have ranges : ∀ e ∈ crossing less.tensor p.tensor,
      Contraction.Ranges n ['i', 'j', 'x', 'y'] e := by
    simp only [crossing, List.forall_mem_cons, List.not_mem_nil, IsEmpty.forall_iff, implies_true,
      and_true]
    exact ⟨.of order.shape_eq (by simp) (by simp), .of shape (by simp) (by simp),
      .of shape (by simp) (by simp), .of order.shape_eq (by simp) (by simp)⟩
  have rest (v : Char) : v ∈ ['i', 'j', 'x', 'y'] ↔
      (∃ e ∈ crossing less.tensor p.tensor, v ∈ e.2) ∧ v ∉ ([] : List Char) := by
    simp [crossing]
    tauto
  refine (Contraction.yields_odd ranges room List.nodup_nil nofun (by decide) rest).bind
    fun t ht => ?_
  rw [toScalar_eq ht.1]
  refine .of_eq rfl ?_
  intro σ graph
  rw [decide_eq_true_iff]
  refine (ht.2 (fun _ => 0) nofun).trans ?_
  rw [witnesses_crossing order graph, sign_eq_neg_one_iff]

theorem yields_isEven (shape : p.tensor.shape = List.replicate 2 n)
    (room : safe → Shape.Spacious n 4) :
    Yields safe (fun b => ∀ σ : Equiv.Perm (Fin n), p.IsGraph σ → (b = true ↔ σ.sign = 1))
      p.isEven := by
  unfold isEven
  refine (yields_isOdd shape room).bind fun odd hodd => .of_eq rfl ?_
  intro σ graph
  rw [Bool.not_eq_true', ← Bool.not_eq_true, hodd σ graph]
  rcases Int.units_eq_one_or σ.sign with even | minus
  · rw [even]
    decide
  · rw [minus]
    decide

end Permutation

end FiniteStructures
