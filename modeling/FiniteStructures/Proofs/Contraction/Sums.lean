import Mathlib.Algebra.BigOperators.Group.Finset.Sigma
import Mathlib.Algebra.BigOperators.Group.List.Basic
import Mathlib.Algebra.BigOperators.Ring.Finset
import Mathlib.Logic.Function.DependsOn

/-!
Sums over the values of variables.  Variables are summed one after another,

    sumOver size [v, w] f ρ  =  ∑ i, ∑ j, f ρ[v := i, w := j]

and what a contraction does to its entries are laws of these sums: their order does not matter
(`sumOver_perm`), and a factor that does not mention a variable is taken out of its sum
(`sumOver_prod`).
-/

namespace FiniteStructures

open Finset

/-- A value for each variable. -/
abbrev Point := Char → Nat

/-- The sum over all values of the variables in turn, the other variables as they are. -/
def sumOver {E : Type} [AddCommMonoid E] (size : Char → Nat) : List Char → (Point → E) → Point → E
  | [], f, ρ => f ρ
  | v :: vs, f, ρ => ∑ i ∈ range (size v), sumOver size vs f (Function.update ρ v i)

section Sums

variable {E : Type} [AddCommMonoid E] {size : Char → Nat}

theorem sumOver_append (vs ws : List Char) (f : Point → E) (ρ : Point) :
    sumOver size (vs ++ ws) f ρ = sumOver size vs (sumOver size ws f) ρ := by
  induction vs generalizing ρ with
  | nil => rfl
  | cons v vs ih => exact sum_congr rfl fun i _ => ih _

/-- Sums are equal when the summands are, where the summed variables are within their sizes and
the others as they were. -/
theorem sumOver_congr {vs : List Char} {f g : Point → E} {ρ : Point}
    (h : ∀ τ : Point, (∀ v ∈ vs, τ v < size v) → (∀ v, v ∉ vs → τ v = ρ v) → f τ = g τ) :
    sumOver size vs f ρ = sumOver size vs g ρ := by
  induction vs generalizing ρ with
  | nil => exact h ρ nofun fun _ _ => rfl
  | cons v vs ih =>
    refine sum_congr rfl fun i hi => ih fun τ inside same => h τ ?_ ?_
    · intro w hw
      by_cases hm : w ∈ vs
      · exact inside w hm
      · obtain rfl := (List.mem_cons.mp hw).resolve_right hm
        rw [same w hm, Function.update_self]
        exact mem_range.mp hi
    · intro w hw
      rw [List.mem_cons, not_or] at hw
      rw [same w hw.2, Function.update_of_ne hw.1]

theorem sumOver_perm {vs ws : List Char} (h : vs.Perm ws) (f : Point → E) (ρ : Point) :
    sumOver size vs f ρ = sumOver size ws f ρ := by
  induction h generalizing ρ with
  | nil => rfl
  | cons v _ ih => exact sum_congr rfl fun i _ => ih _
  | swap v w vs =>
    by_cases hne : v = w
    · rw [hne]
    · show (∑ i ∈ range (size w), ∑ j ∈ range (size v), _) = _
      rw [sum_comm]
      refine sum_congr rfl fun j _ => sum_congr rfl ?_
      intro i _
      rw [Function.update_comm hne]
  | trans _ _ ih ih' => exact (ih ρ).trans (ih' ρ)

/-- A sum mentions no variable that the summand does not mention. -/
theorem dependsOn_sumOver {f : Point → E} {s : Set Char} (h : DependsOn f s) (vs : List Char) :
    DependsOn (sumOver size vs f) s := by
  induction vs with
  | nil => exact h
  | cons v vs ih =>
    refine fun ρ τ agree => sum_congr rfl fun i _ => ih ?_
    intro w hw
    by_cases hv : w = v
    · rw [hv, Function.update_self, Function.update_self]
    · rw [Function.update_of_ne hv, Function.update_of_ne hv, agree w hw]

end Sums

section Products

variable {E : Type} [CommSemiring E] {size : Char → Nat}

theorem sumOver_mul_left {f g : Point → E} {s : Set Char} (h : DependsOn g s) {vs : List Char}
    (apart : ∀ v ∈ vs, v ∉ s) (ρ : Point) :
    sumOver size vs (fun τ => g τ * f τ) ρ = g ρ * sumOver size vs f ρ := by
  induction vs generalizing ρ with
  | nil => rfl
  | cons v vs ih =>
    have out (i : Nat) : g (Function.update ρ v i) = g ρ := by
      refine h fun w hw => Function.update_of_ne ?_ _ _
      rintro rfl
      exact apart _ List.mem_cons_self hw
    show (∑ i ∈ range (size v), _) = g ρ * ∑ i ∈ range (size v), _
    rw [mul_sum]
    refine sum_congr rfl ?_
    intro i _
    rw [ih (fun w hw => apart w (List.mem_cons_of_mem _ hw)), out]

theorem sumOver_mul_right {f g : Point → E} {s : Set Char} (h : DependsOn g s) {vs : List Char}
    (apart : ∀ v ∈ vs, v ∉ s) (ρ : Point) :
    sumOver size vs (fun τ => f τ * g τ) ρ = sumOver size vs f ρ * g ρ := by
  simp only [mul_comm _ (g _)]
  exact sumOver_mul_left h apart ρ

variable {α : Type} {f : α → Point → E} {s : α → Set Char}

theorem dependsOn_prod {l : List α} {t : Set Char} (h : ∀ a ∈ l, DependsOn (f a) t) :
    DependsOn (fun ρ => (l.map fun a => f a ρ).prod) t := by
  intro ρ τ agree
  exact congrArg List.prod (List.map_congr_left fun a ha => h a ha agree)

/-- Where each factor has variables of its own, the sum of the products is the product of the
sums. -/
theorem sumOver_prod {own : α → List Char} {l : List α} (h : ∀ a ∈ l, DependsOn (f a) (s a))
    (apart : l.Pairwise fun a b => (∀ v ∈ own a, v ∉ s b) ∧ ∀ v ∈ own b, v ∉ s a) (ρ : Point) :
    sumOver size (l.flatMap own) (fun τ => (l.map fun a => f a τ).prod) ρ =
      (l.map fun a => sumOver size (own a) (f a) ρ).prod := by
  induction l generalizing ρ with
  | nil => rfl
  | cons a l ih =>
    rw [List.pairwise_cons] at apart
    have first := h a List.mem_cons_self
    have rest (b : α) (hb : b ∈ l) := h b (List.mem_cons_of_mem _ hb)
    have others : ∀ v ∈ l.flatMap own, v ∉ s a := by
      intro v hv
      obtain ⟨b, hb, hv⟩ := List.mem_flatMap.mp hv
      exact (apart.1 b hb).2 v hv
    have inner (τ : Point) :
        sumOver size (l.flatMap own) (fun τ => f a τ * (l.map fun b => f b τ).prod) τ =
          f a τ * (l.map fun b => sumOver size (own b) (f b) τ).prod := by
      rw [sumOver_mul_left first others, ih rest apart.2]
    have outer : DependsOn (fun τ => (l.map fun b => sumOver size (own b) (f b) τ).prod)
        {v | ∃ b ∈ l, v ∈ s b} := by
      refine dependsOn_prod ?_
      intro b hb ρ τ agree
      exact dependsOn_sumOver (rest b hb) (own b) fun v hv => agree v ⟨b, hb, hv⟩
    have mine : ∀ v ∈ own a, v ∉ {v | ∃ b ∈ l, v ∈ s b} := by
      rintro v hv ⟨b, hb, hs⟩
      exact (apart.1 b hb).1 v hv hs
    simp only [List.flatMap_cons, List.map_cons, List.prod_cons]
    rw [sumOver_append, funext inner]
    exact sumOver_mul_right outer mine ρ

end Products

end FiniteStructures
