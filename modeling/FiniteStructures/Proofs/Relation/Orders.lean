import FiniteStructures.Proofs.Relation.Binary
import Mathlib.Data.Fintype.Sort
import Mathlib.Order.Fin.Basic

/-!
Linear orders on the numbers below n.  Each is given by the places of the elements,

    x before y  ↔  σ x ≤ σ y        for exactly one permutation σ

so `orderOf` numbers the linear orders by the permutations.
-/

namespace FiniteStructures

namespace Relation

open Outcome Tensor

variable {safe : Prop} {n : Nat} {r : Relation Bool}

/-! ## Places -/

/-- The elements of a linear order have places. -/
theorem exists_places {α : Type} [Fintype α] (card : Fintype.card α = n) {R : α → α → Prop}
    (refl : ∀ x, R x x) (antisymm : ∀ x y, R x y → R y x → x = y)
    (trans : ∀ x y z, R x y → R y z → R x z) (total : ∀ x y, R x y ∨ R y x) :
    ∃ σ : α ≃ Fin n, ∀ x y, R x y ↔ σ x ≤ σ y := by
  -- the order is one of `α`, which has no other one, as the numbers would
  let _ : LinearOrder α :=
    { le := R, le_refl := refl, le_trans := trans, le_antisymm := antisymm, le_total := total,
      toDecidableLE := Classical.decRel R }
  let places : α ≃o Fin n := (monoEquivOfFin α card).symm
  exact ⟨places.toEquiv, fun x y => places.le_iff_le.symm⟩

/-- Elements have the same places when these are ordered in the same way. -/
theorem places_unique {σ τ : Equiv.Perm (Fin n)} (same : ∀ x y, σ x ≤ σ y ↔ τ x ≤ τ y) :
    σ = τ := by
  let moved : Fin n ≃o Fin n :=
    { toEquiv := σ.symm.trans τ
      map_rel_iff' := by
        intro x y
        have h := same (σ.symm x) (σ.symm y)
        rw [σ.apply_symm_apply, σ.apply_symm_apply] at h
        exact h.symm }
  have still : moved = OrderIso.refl _ := Subsingleton.elim _ _
  ext x
  have h : τ (σ.symm (σ x)) = σ x := congrArg (fun e : Fin n ≃o Fin n => e (σ x)) still
  rw [σ.symm_apply_apply] at h
  rw [h]

/-! ## The relation of an order -/

/-- The order in which the elements have the given places. -/
def orderOf (σ : Equiv.Perm (Fin n)) : Tensor Bool :=
  tabulate [n, n] fun index => ∃ x y : Fin n, index = [(x : Nat), (y : Nat)] ∧ σ x ≤ σ y

theorem holds_orderOf (σ : Equiv.Perm (Fin n)) (x y : Fin n) :
    (orderOf σ).Holds [(x : Nat), (y : Nat)] ↔ σ x ≤ σ y := by
  refine ((table_tabulate _ _).holds _ (Shape.within_pair.mpr
    ⟨x, x.isLt, y, y.isLt, rfl⟩)).trans ?_
  constructor
  · rintro ⟨x', y', same, le⟩
    have firsts := List.head_eq_of_cons_eq same
    have seconds := List.head_eq_of_cons_eq (List.tail_eq_of_cons_eq same)
    rw [Fin.ext firsts, Fin.ext seconds]
    exact le
  · intro le
    exact ⟨x, y, rfl, le⟩

theorem orderOf_injective : Function.Injective (orderOf : Equiv.Perm (Fin n) → Tensor Bool) := by
  intro σ τ same
  refine places_unique ?_
  intro x y
  rw [← holds_orderOf, ← holds_orderOf, same]

theorem linear_iff (shape : r.tensor.shape = [n, n]) :
    Linear n r.Relates ↔ ∃ σ : Equiv.Perm (Fin n), r.tensor = orderOf σ := by
  constructor
  · intro linear
    have total (x y : Fin n) : r.Relates x y ∨ r.Relates y x := by
      rcases linear.total x x.isLt y y.isLt with related | same
      · exact related
      · rw [same]
        exact .inl (linear.refl y y.isLt)
    obtain ⟨σ, places⟩ := exists_places (R := fun x y : Fin n => r.Relates x y) (Fintype.card_fin n)
      (fun x => linear.refl x x.isLt)
      (fun x y xy yx => Fin.ext (linear.antisymm x x.isLt y y.isLt xy yx))
      (fun x y z xy yz => linear.trans x x.isLt z z.isLt y y.isLt xy yz) total
    refine ⟨σ, congrArg tensor ((pairs_self shape).unique (s := ⟨orderOf σ⟩)
      ((pairs_self rfl).congr ?_))⟩
    intro x hx y hy
    exact (holds_orderOf σ ⟨x, hx⟩ ⟨y, hy⟩).trans (places ⟨x, hx⟩ ⟨y, hy⟩).symm
  · rintro ⟨σ, same⟩
    have places (x : Nat) (hx : x < n) (y : Nat) (hy : y < n) :
        r.Relates x y ↔ σ ⟨x, hx⟩ ≤ σ ⟨y, hy⟩ := by
      unfold Relates
      rw [same]
      exact holds_orderOf σ ⟨x, hx⟩ ⟨y, hy⟩
    refine ⟨?_, ?_, ?_, ?_⟩
    · intro x hx
      exact (places x hx x hx).mpr (le_refl _)
    · intro x hx y hy xy yx
      have equal := le_antisymm ((places x hx y hy).mp xy) ((places y hy x hx).mp yx)
      exact congrArg Fin.val (σ.injective equal)
    · intro x hx y hy z hz xz zy
      exact (places x hx y hy).mpr
        (le_trans ((places x hx z hz).mp xz) ((places z hz y hy).mp zy))
    · intro x hx y hy
      rw [places x hx y hy, places y hy x hx]
      exact .inl (le_total _ _)

/-- The total orders are the relations of orders. -/
theorem yields_isTotalOrder (shape : r.tensor.shape = [n, n]) (room : safe → Shape.Spacious n 3) :
    Yields safe (fun b => b = true ↔ ∃ σ : Equiv.Perm (Fin n), r.tensor = orderOf σ)
      r.isTotalOrder :=
  ((pairs_self shape).isTotalOrder room).mono fun _ hb => hb.trans (linear_iff shape)

end Relation

end FiniteStructures
