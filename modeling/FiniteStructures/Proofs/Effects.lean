import FiniteStructures.Tensor.Basic

/-!
Effects that end in an outcome.  A computation is run from a state and ends in an outcome and a state;
computations that touch nothing but their arguments have one state (`Runnable`).  A set of faults that
no part of a computation leaves is not left by the whole one,

    Fails P x      only faults with P end x
    Returns P x    only values with P are given by x
-/

namespace FiniteStructures

/-- Effects `m` that are run from states `σ`. -/
class Runnable (m : Type → Type) (σ : outParam Type) [Monad m] [MonadLiftT Outcome m] where
  run : {α : Type} → m α → σ → Outcome α × σ
  run_pure : ∀ {α : Type} (a : α) (s : σ), run (pure a) s = (.ok a, s)
  run_lift : ∀ {α : Type} (o : Outcome α) (s : σ), run (monadLift o) s = (o, s)
  run_bind : ∀ {α β : Type} (x : m α) (f : α → m β) (s : σ),
    run (x >>= f) s =
      match run x s with
      | (.ok a, s) => run (f a) s
      | (.error e, s) => (.error e, s)

/-- Outcomes have no effects. -/
instance : Runnable Outcome Unit where
  run o _ := (o, ())
  run_pure _ _ := rfl
  run_lift _ _ := rfl
  run_bind o _ _ := by cases o <;> rfl

/-- Only faults with the property end the computation. -/
def Fails {m : Type → Type} {σ : Type} [Monad m] [MonadLiftT Outcome m] [Runnable m σ] {α : Type}
    (P : Fault → Prop) (x : m α) : Prop :=
  ∀ (s : σ) (e : Fault), (Runnable.run x s).1 = .error e → P e

namespace Fails

variable {m : Type → Type} {σ : Type} [Monad m] [MonadLiftT Outcome m] [Runnable m σ]
  {P : Fault → Prop} {α β : Type}

theorem pure (a : α) : Fails P (pure a : m α) := by
  intro s e he
  rw [Runnable.run_pure] at he
  cases he

theorem lift {o : Outcome α} (h : ∀ e, o = .error e → P e) : Fails P (monadLift o : m α) := by
  intro s e he
  rw [Runnable.run_lift] at he
  exact h e he

theorem bind {x : m α} {f : α → m β} (hx : Fails P x) (hf : ∀ a, Fails P (f a)) :
    Fails P (x >>= f) := by
  intro s e
  rw [Runnable.run_bind]
  rcases run : Runnable.run x s with ⟨e' | a, s'⟩
  · rintro ⟨⟩
    exact hx s e (by rw [run])
  · exact hf a s' e

theorem ite {c : Prop} [Decidable c] {x y : m α} (hx : c → Fails P x) (hy : ¬ c → Fails P y) :
    Fails P (if c then x else y) := by
  split
  · exact hx ‹_›
  · exact hy ‹_›

/-- A computation before which another one is run under a condition. -/
theorem guard {c : Prop} [Decidable c] {x : m Unit} {f : Unit → m β} (hx : c → Fails P x)
    (hf : Fails P (f ())) : Fails P (if c then x >>= f else f ()) :=
  ite (fun hc => bind (hx hc) fun _ => hf) fun _ => hf

/-! ## Lists and tensors -/

theorem forM {f : α → m Unit} (hf : ∀ a, Fails P (f a)) (l : List α) : Fails P (l.forM f) := by
  induction l with
  | nil => exact pure ()
  | cons a l ih => exact bind (hf a) fun _ => ih

theorem mapM [LawfulMonad m] {f : α → m β} (hf : ∀ a, Fails P (f a)) (l : List α) :
    Fails P (l.mapM f) := by
  induction l with
  | nil => exact pure []
  | cons a l ih =>
    rw [List.mapM_cons]
    exact bind (hf a) fun _ => bind ih fun _ => pure _

theorem foldlM {f : β → α → m β} (hf : ∀ b a, Fails P (f b a)) (l : List α) (b : β) :
    Fails P (l.foldlM f b) := by
  induction l generalizing b with
  | nil => exact pure b
  | cons a l ih =>
    rw [List.foldlM_cons]
    exact bind (hf b a) ih

theorem traverse_go {f : α → m β} (hf : ∀ a, Fails P (f a)) (l : List α) (done : List β) {n : Nat}
    (hn : done.length + l.length = n) : Fails P (traverse.go f l done n hn) := by
  induction l generalizing done with
  | nil => exact pure _
  | cons a l ih => exact bind (hf a) fun b => ih (b :: done) _

theorem tensor {E F : Type} {f : E → m F} (hf : ∀ e, Fails P (f e)) (t : Tensor E) :
    Fails P (t.mapM f) :=
  bind (traverse_go hf t.elems [] _) fun _ => pure _

end Fails

/-- Only values with the property are given by the computation. -/
def Returns {m : Type → Type} {σ : Type} [Monad m] [MonadLiftT Outcome m] [Runnable m σ] {α : Type}
    (P : α → Prop) (x : m α) : Prop :=
  ∀ (s s' : σ) (a : α), Runnable.run x s = (.ok a, s') → P a

namespace Returns

variable {m : Type → Type} {σ : Type} [Monad m] [MonadLiftT Outcome m] [Runnable m σ]
  {α β : Type} {P : α → Prop} {Q : β → Prop}

theorem pure {a : α} (ha : P a) : Returns P (pure a : m α) := by
  intro s s' b run
  rw [Runnable.run_pure] at run
  cases run
  exact ha

theorem lift {o : Outcome α} (h : ∀ a, o = .ok a → P a) : Returns P (monadLift o : m α) := by
  intro s s' a run
  rw [Runnable.run_lift] at run
  exact h a (congrArg Prod.fst run)

theorem of_ok {o : Outcome α} (h : Returns P o) {a : α} (run : o = .ok a) : P a :=
  h () () a (by rw [run]; rfl)

/-- What an outcome gives, it gives among other effects. -/
theorem outcome {o : Outcome α} (h : Returns P o) : Returns P (monadLift o : m α) :=
  lift fun _ => h.of_ok

theorem bind {x : m α} {f : α → m β} (hx : Returns P x) (hf : ∀ a, P a → Returns Q (f a)) :
    Returns Q (x >>= f) := by
  intro s s' b
  rw [Runnable.run_bind]
  rcases run : Runnable.run x s with ⟨e | a, t⟩
  · exact nofun
  · exact hf a (hx s t a run) t s' b

/-- What is given in the end does not depend on what was computed before. -/
theorem last {x : m α} {f : α → m β} (hf : ∀ a, Returns Q (f a)) : Returns Q (x >>= f) :=
  bind (P := fun _ => True) (fun _ _ _ _ => trivial) fun a _ => hf a

theorem ite {c : Prop} [Decidable c] {x y : m α} (hx : c → Returns P x) (hy : ¬ c → Returns P y) :
    Returns P (if c then x else y) := by
  split
  · exact hx ‹_›
  · exact hy ‹_›

end Returns

end FiniteStructures
