import FiniteStructures.Proofs.Contraction.Einsum
import FiniteStructures.Proofs.Effects
import FiniteStructures.Proofs.Parametricity.Contractions

/-!
Contractions of bound entries do not fail.  The steps of a contraction are decided by variables and
sizes alone, so over any operations it ends as it does over natural numbers, unless an operation stops
it.  Over natural numbers every step that is taken gives a value or is out of range.

    run (evaluate ops sizes entries result) s    a tensor, or a fault with Stops raises
-/

namespace FiniteStructures

open Outcome

/-- A number left its range, or the fault is one of those given. -/
def Fault.Stops (raises : Fault → Prop) (e : Fault) : Prop :=
  e = .overflow ∨ e = .misuse .capacity ∨ raises e

theorem Fault.Stops.ne_error {raises : Fault → Prop} {e : Fault} (h : e.Stops raises)
    (own : ∀ cause, ¬ raises (.error cause)) (cause : Error) : e ≠ .error cause := by
  rintro rfl
  rcases h with h | h | h
  · cases h
  · cases h
  · exact own cause h

/-! ## Computations cut short -/

/-- The first computation may be cut short by one of the given faults; unless it is, the two agree. -/
def Tracking.cutShort (m : Type → Type) {σ : Type} [Monad m] [MonadLiftT Outcome m] [Runnable m σ]
    (raises : Fault → Prop) : Tracking m where
  World := Unit
  le _ _ := True
  le_refl _ := trivial
  le_trans _ _ := trivial
  Failed _ := False
  failed_le _ := id
  Tracks w R x y := ∀ s : σ, (∃ e, (Runnable.run x s).1 = .error e ∧ raises e) ∨
    Agree (R w) (Runnable.run x s).1 y
  pure h s := by
    rw [Runnable.run_pure]
    exact .inr (.ok h)
  lift h s := by
    rw [Runnable.run_lift]
    exact .inr h
  bind {α β γ δ w R S x y f g} h hf s := by
    rw [Runnable.run_bind]
    have first := h s
    generalize Runnable.run x s = r at first ⊢
    obtain ⟨e | a, s'⟩ := r
    · rcases first with ⟨_, ⟨⟩, raised⟩ | agree
      · exact .inl ⟨e, rfl, raised⟩
      · rw [(agree.error_iff e).mp rfl]
        exact .inr (.error e)
    · rcases first with ⟨e, he, -⟩ | agree
      · cases he
      · obtain ⟨b, rfl, hab⟩ := agree.of_ok rfl
        exact hf trivial hab s'
  weaken h sub s := (h s).imp id fun agree => agree.mono fun _ _ => sub trivial
  known h s := (h s).imp id fun agree => agree.known
  failed := False.elim

/-! ## Contractions -/

variable {E : Type} {m : Type → Type} {σ : Type} [Monad m] [MonadLiftT Outcome m] [Runnable m σ]

/-- Products and sums end only with the given faults. -/
structure SemiringOps.Raises (ops : SemiringOps E m) (raises : Fault → Prop) : Prop where
  mul : ∀ a b, Fails raises (ops.mul a b)
  sum : ∀ elems, Fails raises (ops.sum elems)

variable {ops : SemiringOps E m} {raises : Fault → Prop}

theorem SemiringOps.naturals_sum (l : List Nat) : ∃ n, SemiringOps.naturals.sum l = .ok n := by
  suffices ∀ first, ∃ n, l.foldlM (fun a b => (.ok (a + b) : Outcome Nat)) first = .ok n from this 0
  induction l with
  | nil => exact fun first => ⟨first, rfl⟩
  | cons a l ih => exact fun first => ih (first + a)

/-- Unless they are cut short, any operations have values where natural numbers have. -/
theorem SemiringOps.Raises.semiring (h : ops.Raises raises) :
    (Tracking.cutShort m raises).Semiring (fun _ _ _ => True) ops SemiringOps.naturals := by
  have tracks {x : m E} (fails : Fails raises x) {n : Nat} (s : σ) :
      (∃ e, (Runnable.run x s).1 = .error e ∧ raises e) ∨
        Agree (fun _ _ => True) (Runnable.run x s).1 (.ok n : Outcome Nat) := by
    rcases run : (Runnable.run x s).1 with e | a
    · exact .inl ⟨e, rfl, fails s e run⟩
    · exact .inr (.ok trivial)
  refine ⟨fun _ _ _ _ _ => id, fun _ => trivial, fun _ _ => tracks (h.mul _ _), fun {_ l l'} _ => ?_⟩
  obtain ⟨n, hn⟩ := naturals_sum l'
  rw [hn]
  exact tracks (h.sum _)

namespace Contraction

/-- The contraction with zeros for all cells. -/
def zeros (c : Contraction E) : Contraction Nat :=
  ⟨c.entries.map fun e => ⟨e.tensor.map fun _ => 0, e.vars⟩, c.sizes, c.poisoned⟩

theorem WellBound.zeros {c : Contraction E} (h : WellBound c) : WellBound c.zeros where
  accepts := h.accepts
  distinct := h.distinct
  fits := by
    intro e' he'
    obtain ⟨e, he, rfl⟩ := List.mem_map.mp he'
    exact ⟨(h.fits e he).shape, (h.fits e he).known⟩
  mentioned v hv := by
    obtain ⟨e, he, hv⟩ := h.mentioned v hv
    exact ⟨_, List.mem_map_of_mem he, hv⟩

/-- The contraction of bound entries to distinct bound variables gives a tensor, unless it is
stopped. -/
theorem evaluate_ends (h : ops.Raises raises) {c : Contraction E} (wellBound : WellBound c)
    {result : List Char} (distinct : result.Nodup) (known : ∀ v ∈ result, v ∈ bound c.sizes) (s : σ) :
    (∃ t, (Runnable.run (evaluate ops c.sizes c.entries result) s).1 = .ok t) ∨
      ∃ e, (Runnable.run (evaluate ops c.sizes c.entries result) s).1 = .error e ∧
        e.Stops raises := by
  have entries : List.Forall₂ (Entry.Rel fun _ _ => True) c.entries c.zeros.entries := by
    refine List.forall₂_map_right_iff.mpr (List.forall₂_same.mpr fun e _ => ⟨⟨rfl, ?_⟩, rfl⟩)
    exact List.forall₂_map_right_iff.mpr (List.forall₂_same.mpr fun _ _ => trivial)
  have ends := yields_evaluate (SemiringOps.lawful_naturals.computes False) wellBound.zeros distinct
    known False.elim
  have tracked := h.semiring.evaluate (w := ()) c.sizes entries result s
  generalize (Runnable.run (evaluate ops c.sizes c.entries result) s).1 = o at tracked ⊢
  rcases o with e | t
  · refine .inr ⟨e, rfl, ?_⟩
    rcases tracked with ⟨_, ⟨⟩, raised⟩ | agree
    · exact .inr (.inr raised)
    · have same := (agree.error_iff e).mp rfl
      rcases ends with ⟨t, ht, -⟩ | ⟨-, out | out⟩
      · cases same.symm.trans ht
      · cases same.symm.trans out
        exact .inl rfl
      · cases same.symm.trans out
        exact .inr (.inl rfl)
  · exact .inl ⟨t, rfl⟩

end Contraction

end FiniteStructures
