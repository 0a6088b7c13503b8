import FiniteStructures.Contraction.Basic
import FiniteStructures.Proofs.Contraction.Sums
import FiniteStructures.Proofs.Tensor.Moves
import Mathlib.Data.List.Nodup
import Mathlib.Data.List.Perm.Subperm

/-!
Axes and variables.  A point within the sizes of its variables is an index (`Inside.within`), the axes
of an entry land on the positions of its variables (`lands_positions`), and

    sum over all indices of vars   =   sumOver … vars            (sum_enumerate)

for the operations of a semiring, which may overflow (`SemiringOps.Computes`).
-/

namespace FiniteStructures

open Outcome

/-! ## Semirings -/

/-- The operations compute those of a semiring; where this is not safe, a sum or a product may be
out of range. -/
structure SemiringOps.Computes {E : Type} [CommSemiring E] (safe : Prop)
    (ops : SemiringOps E Outcome) : Prop where
  zero : ops.zero = 0
  one : ops.one = 1
  add : ∀ a b, Yields safe (· = a + b) (ops.add a b)
  mul : ∀ a b, Yields safe (· = a * b) (ops.mul a b)
  sum : ∀ elems, ops.sum elems = elems.foldlM ops.add ops.zero

theorem SemiringOps.Computes.yields_sum {E : Type} [CommSemiring E] {safe : Prop}
    {ops : SemiringOps E Outcome} (h : ops.Computes safe) (elems : List E) :
    Yields safe (· = elems.sum) (ops.sum elems) := by
  have from_ (first : E) : Yields safe (· = first + elems.sum) (elems.foldlM ops.add first) := by
    induction elems generalizing first with
    | nil => exact .of_eq rfl (add_zero first).symm
    | cons e elems ih =>
      rw [List.foldlM_cons]
      refine (h.add first e).bind ?_
      intro a ha
      subst ha
      rw [List.sum_cons, ← add_assoc]
      exact ih _
  have whole := from_ 0
  rwa [zero_add, ← h.zero, ← h.sum] at whole

namespace Contraction

/-! ## Variables -/

theorem mem_distinct {v : Char} {vars : List Char} : v ∈ distinct vars ↔ v ∈ vars := by
  induction vars with
  | nil => rfl
  | cons w vars ih =>
    rw [distinct, List.mem_cons, List.mem_filter, ih, List.mem_cons]
    by_cases h : v = w
    · simp [h]
    · simp [h]

theorem nodup_distinct (vars : List Char) : (distinct vars).Nodup := by
  induction vars with
  | nil => exact List.nodup_nil
  | cons w vars ih =>
    refine List.nodup_cons.mpr ⟨?_, ih.filter _⟩
    intro h
    have := (List.mem_filter.mp h).2
    simp at this

/-- The size of the axes of a variable. -/
def axisSize (sizes : Sizes) (v : Char) : Nat := (sizes.lookup v).getD 0

/-- The bound variables. -/
def bound (sizes : Sizes) : List Char := sizes.map Prod.fst

/-- The values of the variables lie on their axes. -/
def Inside (sizes : Sizes) (vars : List Char) (ρ : Point) : Prop :=
  ∀ v ∈ vars, ρ v < axisSize sizes v

variable {sizes : Sizes}

theorem Inside.within {vars : List Char} {ρ : Point} (h : Inside sizes vars ρ) :
    Shape.Within (shapeOf sizes vars) (vars.map ρ) := by
  induction vars with
  | nil => trivial
  | cons v vars ih =>
    exact ⟨h v List.mem_cons_self, ih fun w hw => h w (List.mem_cons_of_mem _ hw)⟩

/-- Each variable lands on its position. -/
theorem lands_positions {vars target : List Char} (h : ∀ v ∈ vars, v ∈ target) :
    Tensor.Lands (shapeOf sizes target) (shapeOf sizes vars) (positions vars target) := by
  induction vars with
  | nil => exact .nil
  | cons v vars ih =>
    refine .cons ?_ (ih fun w hw => h w (List.mem_cons_of_mem _ hw))
    have found := List.getElem?_idxOf (h v List.mem_cons_self)
    unfold shapeOf
    rw [List.getElem?_map, found]
    rfl

theorem pick_positions {vars target : List Char} (h : ∀ v ∈ vars, v ∈ target) (ρ : Point) :
    Tensor.pick (target.map ρ) (positions vars target) = vars.map ρ := by
  unfold Tensor.pick positions
  rw [List.map_map]
  refine List.map_congr_left ?_
  intro v hv
  show (target.map ρ).getD (target.idxOf v) 0 = ρ v
  rw [List.getD_eq_getElem?_getD, List.getElem?_map, List.getElem?_idxOf (h v hv)]
  rfl

/-- The sum over the indices of variables is the sum over their values. -/
theorem sum_enumerate {E : Type} [AddCommMonoid E] {vars : List Char} (distinct : vars.Nodup)
    (f : List Nat → E) (ρ : Point) :
    ((Shape.enumerate (shapeOf sizes vars)).map f).sum =
      sumOver (axisSize sizes) vars (fun τ => f (vars.map τ)) ρ := by
  induction vars generalizing f ρ with
  | nil => exact add_zero _
  | cons v vars ih =>
    rw [List.nodup_cons] at distinct
    have swap (l : List (List Nat)) :
        ((l.flatMap fun rest => (List.range (axisSize sizes v)).map (· :: rest)).map f).sum =
          ∑ i ∈ Finset.range (axisSize sizes v), (l.map fun rest => f (i :: rest)).sum := by
      induction l with
      | nil => simp
      | cons rest l ih =>
        rw [List.flatMap_cons, List.map_append, List.sum_append, ih, List.map_map]
        simp only [List.map_cons, List.sum_cons]
        rw [Finset.sum_add_distrib]
        rfl
    show ((Shape.enumerate (axisSize sizes v :: shapeOf sizes vars)).map f).sum = _
    rw [Shape.enumerate, swap]
    refine Finset.sum_congr rfl ?_
    intro i _
    rw [ih distinct.2 (fun rest => f (i :: rest)) (Function.update ρ v i)]
    refine sumOver_congr ?_
    intro τ _ same
    rw [List.map_cons, same v distinct.1, Function.update_self]

end Contraction

end FiniteStructures
