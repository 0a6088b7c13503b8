import FiniteStructures.Proofs.Operation.Graphs
import FiniteStructures.Proofs.Relation.Symmetry

/-!
Predicates of relations.  Each of them returns the truth value of its definition, quantified over all
elements (`predicates_decide`).  A composition goes through a tensor with three axes, so the predicates
that test transitivity need room for one; the others need none beyond that of the relation.
-/

namespace FiniteStructures

namespace Relation

open Outcome Tensor

variable {safe : Prop} {n k m : Nat} {r s : Relation Bool} {P : Nat → Nat → Prop}

/-! ## Symmetry -/

/-- Two coordinates are exchanged by either test of symmetry. -/
theorem mem_keeping_pair (hr : Pairs n P r) {σ : Equiv.Perm (Fin 2)} (exchanges : σ = Equiv.swap 0 1) :
    σ ∈ r.keeping 2 n ↔ ∀ x < n, ∀ y < n, P x y → P y x := by
  have pair (t : Fin 2 → Fin n) : r.Contains t ↔ P (t 0) (t 1) := by
    refine Iff.trans ?_ (hr.holds (t 0) (t 0).isLt (t 1) (t 1).isLt)
    simp [Contains, List.ofFn_succ]
  rw [mem_keeping, exchanges]
  simp only [pair, Function.comp_apply, Equiv.swap_apply_left, Equiv.swap_apply_right]
  constructor
  · intro kept x hx y hy related
    exact kept ![⟨x, hx⟩, ⟨y, hy⟩] related
  · intro symm t related
    exact symm _ (t 0).isLt _ (t 1).isLt related

theorem Pairs.isSymmetric (hr : Pairs n P r) :
    Yields r.tensor.Stored (fun b => b = true ↔ ∀ x < n, ∀ y < n, P x y → P y x)
      r.isSymmetric := by
  have exchanges : exchange 0 = Equiv.swap 0 1 := by decide
  have cycles : cycle 0 = Equiv.swap 0 1 := by decide
  refine (yields_isSymmetric_tests (k := 0) hr.shape_eq).mono fun b hb => hb.trans ?_
  rw [mem_keeping_pair hr exchanges, mem_keeping_pair hr cycles]
  exact and_self_iff

/-! ## Transitivity -/

/-- The middle element may be named second. -/
theorem transitive_iff :
    (∀ x < n, ∀ y < n, ∀ z < n, P x z → P z y → P x y) ↔
      ∀ x < n, ∀ y < n, ∀ z < n, P x y → P y z → P x z :=
  ⟨fun h x hx y hy z hz => h x hx z hz y hy, fun h x hx y hy z hz => h x hx z hz y hy⟩

/-- In a linear order, equal elements are comparable as well. -/
theorem linear_iff_total : Linear n P ↔
    (∀ x < n, P x x) ∧ (∀ x < n, ∀ y < n, P x y → P y x → x = y) ∧
      (∀ x < n, ∀ y < n, ∀ z < n, P x z → P z y → P x y) ∧ ∀ x < n, ∀ y < n, P x y ∨ P y x := by
  constructor
  · intro linear
    refine ⟨linear.refl, linear.antisymm, linear.trans, fun x hx y hy => ?_⟩
    rcases linear.total x hx y hy with related | rfl
    · exact related
    · exact .inl (linear.refl x hx)
  · rintro ⟨refl, antisymm, trans, total⟩
    exact ⟨refl, antisymm, trans, fun x hx y hy => .inl (total x hx y hy)⟩

/-! ## Equivalences -/

theorem Pairs.isEquivalence (hr : Pairs n P r) (room : safe → Shape.Spacious n 3) :
    Yields safe (fun b => b = true ↔ (∀ x < n, P x x) ∧ (∀ x < n, ∀ y < n, P x y → P y x) ∧
        ∀ x < n, ∀ y < n, ∀ z < n, P x z → P z y → P x y) r.isEquivalence := by
  have small (hs : safe) : Shape.Spacious n 2 := (room hs).mono (by decide)
  have stored (hs : safe) : r.tensor.Stored := .of_spacious (k := 2) (by decide) hr.shape_eq (small hs)
  unfold Relation.isEquivalence
  refine (hr.isReflexive small).bind fun a ha => (hr.isSymmetric.narrow stored).bind fun b hb => ?_
  refine (hr.isTransitive room).bind fun c hc => .of_eq rfl ?_
  rw [← ha, ← hb, ← hc]
  simp

/-! ## Functions -/

theorem yields_isFunction (shape : s.tensor.shape = List.replicate (k + 1) m)
    (room : safe → Shape.Spacious m (k + 1)) :
    Yields safe (fun b => b = true ↔
        ∀ rest : Fin k → Fin m, ∃! x : Fin m, s.Contains (Fin.cons x rest : Fin (k + 1) → Fin m))
      s.isFunction := by
  refine (Operation.yields_isOperation (f := ⟨s.tensor⟩) shape room).mono fun b hb => hb.trans ?_
  have takes (rest : Fin k → Fin m) (x : Fin m) : Operation.Takes ⟨s.tensor⟩ rest x ↔
      s.Contains (Fin.cons x rest : Fin (k + 1) → Fin m) := by
    unfold Operation.Takes Contains
    rw [List.ofFn_succ]
    rfl
  simp only [takes]

/-! ## Definitions -/

/-- The predicates of a binary relation return the truth values of their definitions over all elements;
a relation is found to be a function when any trailing coordinates have exactly one first coordinate.
Only where a tensor does not fit, a size is out of range. -/
theorem predicates_decide (shape : r.tensor.shape = [n, n]) :
    Yields r.tensor.Stored (fun b => b = true ↔ ∀ x < n, r.Relates x x) r.isReflexive ∧
    Yields r.tensor.Stored (fun b => b = true ↔
        ∀ x < n, ∀ y < n, r.Relates x y → r.Relates y x → x = y) r.isAntisymmetric ∧
    Yields r.tensor.Stored (fun b => b = true ↔
        ∀ x < n, ∀ y < n, r.Relates x y ∨ r.Relates y x ∨ x = y) r.isTrichotome ∧
    Yields (Shape.Spacious n 3) (fun b => b = true ↔
        ∀ x < n, ∀ y < n, ∀ z < n, r.Relates x y → r.Relates y z → r.Relates x z)
      r.isTransitive ∧
    Yields (Shape.Spacious n 3) (fun b => b = true ↔
        (∀ x < n, r.Relates x x) ∧ (∀ x < n, ∀ y < n, r.Relates x y → r.Relates y x) ∧
        ∀ x < n, ∀ y < n, ∀ z < n, r.Relates x y → r.Relates y z → r.Relates x z)
      r.isEquivalence ∧
    Yields (Shape.Spacious n 3) (fun b => b = true ↔
        (∀ x < n, r.Relates x x) ∧
        (∀ x < n, ∀ y < n, r.Relates x y → r.Relates y x → x = y) ∧
        ∀ x < n, ∀ y < n, ∀ z < n, r.Relates x y → r.Relates y z → r.Relates x z)
      r.isPartialOrder ∧
    Yields (Shape.Spacious n 3) (fun b => b = true ↔
        (∀ x < n, r.Relates x x) ∧
        (∀ x < n, ∀ y < n, r.Relates x y → r.Relates y x → x = y) ∧
        (∀ x < n, ∀ y < n, ∀ z < n, r.Relates x y → r.Relates y z → r.Relates x z) ∧
        ∀ x < n, ∀ y < n, r.Relates x y ∨ r.Relates y x)
      r.isTotalOrder ∧
    ∀ (s : Relation Bool) (k m : Nat), s.tensor.shape = List.replicate (k + 1) m →
      Yields s.tensor.Stored (fun b => b = true ↔
          ∀ rest : Fin k → Fin m, ∃! x : Fin m, s.Contains (Fin.cons x rest : Fin (k + 1) → Fin m))
        s.isFunction := by
  have pairs := pairs_self shape
  have small (stored : r.tensor.Stored) : Shape.Spacious n 2 := stored.spacious (k := 2) shape
  refine ⟨pairs.isReflexive small, pairs.isAntisymmetric small, ?_, ?_, ?_, ?_, ?_, ?_⟩
  · simpa only [or_assoc] using pairs.isTrichotome small
  · exact (pairs.isTransitive id).mono fun b hb => hb.trans transitive_iff
  · exact (pairs.isEquivalence id).mono fun b hb => by rw [hb, transitive_iff]
  · exact (pairs.isPartialOrder id).mono fun b hb => by rw [hb, transitive_iff]
  · exact (pairs.isTotalOrder id).mono fun b hb => by rw [hb, linear_iff_total, transitive_iff]
  · intro s k m uniform
    exact yields_isFunction uniform fun stored => stored.spacious uniform

/-- The numbers below three, related when the first divides the second. -/
def divides : Relation Bool := ⟨tabulate [3, 3] fun t => t.getD 0 0 ∣ t.getD 1 0⟩

/-- Addition modulo three, the sum first. -/
def sums : Relation Bool := ⟨tabulate [3, 3, 3] fun t => t.getD 0 0 = (t.tail.sum) % 3⟩

/-- Divisibility orders the numbers below three totally, with zero last, and addition is a function. -/
theorem predicates_decide_divides :
    divides.tensor.shape = [3, 3] ∧ divides.isTotalOrder = .ok true ∧
      divides.isEquivalence = .ok false ∧ sums.isFunction = .ok true := by
  obtain ⟨-, -, -, -, equivalence, -, order, functions⟩ :=
    predicates_decide (r := divides) (n := 3) rfl
  refine ⟨rfl, ?_, ?_, ?_⟩
  · obtain ⟨b, run, total⟩ | ⟨narrow, -⟩ := order
    · rw [run, total.mpr ⟨by decide, by decide, by decide, by decide⟩]
    · exact absurd (by decide) narrow
  · obtain ⟨b, run, equivalent⟩ | ⟨narrow, -⟩ := equivalence
    · rw [run, Except.ok.injEq, Bool.eq_false_iff]
      intro yes
      have back : divides.Relates 0 1 :=
        (equivalent.mp yes).2.1 1 (by decide) 0 (by decide) (by decide)
      revert back
      decide
    · exact absurd (by decide) narrow
  · obtain ⟨b, run, functional⟩ | ⟨narrow, -⟩ := functions sums 2 3 rfl
    · rw [run, functional.mpr (by unfold ExistsUnique; decide)]
    · exact absurd ⟨by decide, by decide⟩ narrow

end Relation

end FiniteStructures
