import FiniteStructures.Proofs.Parametricity.Domains
import FiniteStructures.Proofs.Parametricity.Tensors

/-!
The domain with one element.  It computes shapes and faults and nothing else, and it is simulated by
truth values whatever these are: the faults of a predicate over truth values depend on shapes only.
-/

namespace FiniteStructures

/-- The domain with one element. -/
instance : BooleanDomain Unit Outcome where
  truth := ()
  falsity := ()
  neg _ := .ok ()
  or _ _ := .ok ()
  xor _ _ := .ok ()
  and _ _ := .ok ()
  all _ := .ok ()
  any _ := .ok ()
  one _ := .ok ()

theorem Derived.lawful_unit : Derived.Lawful Unit Outcome := by
  have fold {σ : Type} {step : σ → Unit → Outcome σ} {s : σ} (fixed : ∀ e, step s e = .ok s)
      (l : List Unit) : l.foldlM step s = .ok s := by
    induction l with
    | nil => rfl
    | cons e l ih =>
      rw [List.foldlM_cons, fixed]
      exact ih
  refine ⟨fun _ _ => rfl, fold fun _ => rfl, fold fun _ => rfl, fun l => ?_⟩
  unfold Derived.one
  rw [fold fun _ => rfl]
  rfl

/-- Truth values simulate the domain with one element. -/
def Simulation.shapes : Simulation Bool Outcome Unit where
  toTracking := Tracking.outcome
  rel _ _ _ := True
  stable _ _ _ _ _ _ := trivial
  functional _ _ _ := rfl
  truth _ := trivial
  falsity _ := trivial
  neg _ := .ok trivial
  or _ _ := .ok trivial
  xor _ _ := .ok trivial
  and _ _ := .ok trivial
  all _ := .ok trivial
  any _ := .ok trivial
  one _ := .ok trivial

/-- The tensor without its truth values. -/
def Tensor.blank (t : Tensor Bool) : Tensor Unit := t.map fun _ => ()

/-- Tensors of one shape are simulated by the same one. -/
theorem Tensor.rel_blank {t u : Tensor Bool} (same : t.shape = u.shape) :
    t.Rel (Simulation.shapes.rel ()) u.blank := by
  refine ⟨same, List.forall₂_iff_get.mpr ⟨?_, fun _ _ _ => trivial⟩⟩
  rw [t.length_elems, u.blank.length_elems, same]
  rfl

/-- What is simulated by the same computation fails alike. -/
theorem Agree.alike {ε α β γ : Type} {R : α → γ → Prop} {S : β → γ → Prop} {o : Except ε α}
    {p : Except ε β} {x : Except ε γ} (ho : Agree R o x) (hp : Agree S p x) :
    Agree (fun _ _ => True) o p := by
  cases ho with
  | ok _ => cases hp with | ok _ => exact .ok trivial
  | error e => cases hp with | error _ => exact .error e

end FiniteStructures
