import Mathlib.Data.List.Forall2
import FiniteStructures.Index

/-!
Computations that track each other.  A polymorphic program is run twice, once with effects `m` and
once with faults only; a `Tracking` says when the first run keeps to the second one.  Effects move a
world, as a growing formula does, and what is related in a world stays related in later ones.

    T.Tracks w R x y    from world w on, x and y fail alike, or give values related by R

The laws are those of the monad, so every program made of `pure`, `bind` and calls that track each
other tracks itself.  A world may have failed, as a formula does that has lost its models: there the
first run keeps to whatever the second one is.
-/

namespace FiniteStructures

/-- Two outcomes fail alike, or have related values. -/
inductive Agree {ε α β : Type} (R : α → β → Prop) : Except ε α → Except ε β → Prop
  | ok {a b} (h : R a b) : Agree R (.ok a) (.ok b)
  | error (e : ε) : Agree R (.error e) (.error e)

namespace Agree

variable {ε α β γ δ : Type} {R : α → β → Prop} {S : γ → δ → Prop}

theorem mono {R' : α → β → Prop} {o : Except ε α} {p : Except ε β} (h : Agree R o p)
    (sub : ∀ a b, R a b → R' a b) : Agree R' o p := by
  cases h with
  | ok h => exact .ok (sub _ _ h)
  | error e => exact .error e

theorem bind {o : Except ε α} {p : Except ε β} {f : α → Except ε γ} {g : β → Except ε δ}
    (h : Agree R o p) (hf : ∀ a b, R a b → Agree S (f a) (g b)) :
    Agree S (o >>= f) (p >>= g) := by
  cases h with
  | ok h => exact hf _ _ h
  | error e => exact .error e

theorem mapError {ε' : Type} {o : Except ε α} {p : Except ε β} (h : Agree R o p) (f : ε → ε') :
    Agree R (o.mapError f) (p.mapError f) := by
  cases h with
  | ok h => exact .ok h
  | error e => exact .error (f e)

theorem known {o : Except ε α} {p : Except ε β} {P : Prop} (h : Agree R o p) :
    Agree (fun a b => R a b ∧ (P → p = .ok b)) o p := by
  cases h with
  | ok h => exact .ok ⟨h, fun _ => rfl⟩
  | error e => exact .error e

/-- What does not depend on the elements agrees with itself. -/
theorem refl (o : Except ε α) : Agree Eq o o := by
  cases o with
  | ok a => exact .ok rfl
  | error e => exact .error e

theorem error_iff {o : Except ε α} {p : Except ε β} (h : Agree R o p) (e : ε) :
    o = .error e ↔ p = .error e := by
  cases h with
  | ok h => simp
  | error e => simp

theorem of_ok {o : Except ε α} {p : Except ε β} (h : Agree R o p) {a : α} (ha : o = .ok a) :
    ∃ b, p = .ok b ∧ R a b := by
  cases h with
  | ok h => cases ha; exact ⟨_, rfl, h⟩
  | error e => cases ha

end Agree

/-- When computations with effects `m` keep to computations with faults only. -/
structure Tracking (m : Type → Type) [Monad m] [MonadLiftT Outcome m] : Type 1 where
  World : Type
  /-- The second world can come after the first. -/
  le : World → World → Prop
  le_refl : ∀ w, le w w
  le_trans : ∀ {u v w}, le u v → le v w → le u w
  Failed : World → Prop
  failed_le : ∀ {w w'}, le w w' → Failed w → Failed w'
  Tracks : {α β : Type} → World → (World → α → β → Prop) → m α → Outcome β → Prop
  pure : ∀ {α β : Type} {w : World} {R : World → α → β → Prop} {a : α} {b : β},
    R w a b → Tracks w R (Pure.pure a) (Pure.pure b)
  lift : ∀ {α β : Type} {w : World} {R : World → α → β → Prop} {o : Outcome α} {p : Outcome β},
    Agree (R w) o p → Tracks w R (monadLift o) (monadLift p)
  bind : ∀ {α β γ δ : Type} {w : World} {R : World → α → β → Prop} {S : World → γ → δ → Prop}
    {x : m α} {y : Outcome β} {f : α → m γ} {g : β → Outcome δ}, Tracks w R x y →
    (∀ {w' a b}, le w w' → R w' a b → Tracks w' S (f a) (g b)) → Tracks w S (x >>= f) (y >>= g)
  weaken : ∀ {α β : Type} {w : World} {R S : World → α → β → Prop} {x : m α} {y : Outcome β},
    Tracks w R x y → (∀ {w' a b}, le w w' → R w' a b → S w' a b) → Tracks w S x y
  /-- The second value is the one that was computed. -/
  known : ∀ {α β : Type} {w : World} {R : World → α → β → Prop} {x : m α} {y : Outcome β},
    Tracks w R x y → Tracks w (fun w a b => R w a b ∧ (¬ Failed w → y = .ok b)) x y
  failed : ∀ {α β : Type} {w : World} {R : World → α → β → Prop} {x : m α} {y z : Outcome β},
    Failed w → Tracks w R x y → Tracks w R x z

/-- Computations with faults only track each other when they agree; there is one world. -/
def Tracking.outcome : Tracking Outcome where
  World := Unit
  le _ _ := True
  le_refl _ := trivial
  le_trans _ _ := trivial
  Failed _ := False
  failed_le _ := id
  Tracks w R x y := Agree (R w) x y
  pure h := .ok h
  lift h := h
  bind h hf := h.bind fun _ _ hab => hf trivial hab
  weaken h sub := h.mono fun _ _ hab => sub trivial hab
  known h := h.known
  failed := False.elim

namespace Tracking

variable {m : Type → Type} [Monad m] [MonadLiftT Outcome m] (T : Tracking m)
variable {α β γ δ : Type} {w : T.World}

/-- What is related stays related. -/
def Stable (R : T.World → α → β → Prop) : Prop :=
  ∀ (w w' : T.World) (a : α) (b : β), T.le w w' → R w a b → R w' a b

variable {T} {R : T.World → α → β → Prop} {S : T.World → γ → δ → Prop}

/-- A call that does not touch elements gives the same on both sides. -/
theorem lift_self (o : Outcome α) :
    T.Tracks w (fun _ => Eq) (monadLift o : m α) (monadLift o) :=
  T.lift (.refl o)

/-- Both sides end with the same fault. -/
theorem fails {e : Fault} {o : Outcome α} {p : Outcome β} (ho : o = .error e)
    (hp : p = .error e) : T.Tracks w R (monadLift o : m α) (monadLift p) := by
  subst ho hp
  exact T.lift (.error e)

/-- Both sides refuse their arguments, or neither does. -/
theorem guard {c d : Prop} [Decidable c] [Decidable d] (hcd : c ↔ d) {e : Fault}
    {o p : Outcome Unit} (ho : o = .error e) (hp : p = .error e) {f : Unit → m α}
    {g : Unit → Outcome β} {x : m α} {y : Outcome β} (h : ¬ c → T.Tracks w R x y) :
    T.Tracks w R (if c then monadLift o >>= f else x) (if d then monadLift p >>= g else y) := by
  by_cases hc : c
  · rw [if_pos hc, if_pos (hcd.mp hc)]
    exact T.bind (R := fun _ _ _ => False) (fails ho hp) fun _ h => h.elim
  · rw [if_neg hc, if_neg fun hd => hc (hcd.mpr hd)]
    exact h hc

/-! ## Lists -/

theorem forall₂_mono (stable : T.Stable R) {w w' : T.World} (hw : T.le w w') {l : List α}
    {l' : List β} (h : List.Forall₂ (R w) l l') :
    List.Forall₂ (R w') l l' :=
  h.imp fun a b hab => stable w w' a b hw hab

theorem forall₂_zip {r : α → β → Prop} {s : γ → δ → Prop} {k : List α} {k' : List β} {l : List γ}
    {l' : List δ} (hk : List.Forall₂ r k k') (hl : List.Forall₂ s l l') :
    List.Forall₂ (fun p q => r p.1 q.1 ∧ s p.2 q.2) (k.zip l) (k'.zip l') := by
  induction hk generalizing l l' with
  | nil => exact .nil
  | cons hab _ ih =>
    cases hl with
    | nil => exact .nil
    | cons hcd hl => exact .cons ⟨hab, hcd⟩ (ih hl)

theorem forall₂_zipWith {r : α → β → Prop} {s : γ → δ → Prop} {ι : Type} {f : α → ι → γ}
    {g : β → ι → δ} {k : List α} {k' : List β} (h : List.Forall₂ r k k')
    (hf : ∀ a b, r a b → ∀ i, s (f a i) (g b i)) (l : List ι) :
    List.Forall₂ s (k.zipWith f l) (k'.zipWith g l) := by
  induction h generalizing l with
  | nil => exact .nil
  | cons hab _ ih =>
    cases l with
    | nil => exact .nil
    | cons i l => exact .cons (hf _ _ hab i) (ih l)

theorem forall₂_replicate {r : α → β → Prop} {a : α} {b : β} (h : r a b) (n : Nat) :
    List.Forall₂ r (List.replicate n a) (List.replicate n b) := by
  induction n with
  | zero => exact .nil
  | succ n ih => exact .cons h ih

theorem traverse_go {f : α → m γ} {g : β → Outcome δ} (hR : T.Stable R) (hS : T.Stable S)
    (hf : ∀ {w' a b}, T.le w w' → R w' a b → T.Tracks w' S (f a) (g b)) {l : List α}
    {l' : List β} (hl : List.Forall₂ (R w) l l') {done : List γ} {done' : List δ}
    (hd : List.Forall₂ (S w) done done') {n n' : Nat} (hn : done.length + l.length = n)
    (hn' : done'.length + l'.length = n') :
    T.Tracks w (fun w r r' => List.Forall₂ (S w) r.val r'.val) (traverse.go f l done n hn)
      (traverse.go g l' done' n' hn') := by
  induction l generalizing w l' done done' with
  | nil =>
    cases hl
    exact T.pure (List.rel_reverse hd)
  | cons a l ih =>
    obtain _ | ⟨hab, hl⟩ := hl
    refine T.bind (hf (T.le_refl w) hab) fun hw hcd => ?_
    exact ih (fun hw' h => hf (T.le_trans hw hw') h) (forall₂_mono hR hw hl)
      (.cons hcd (forall₂_mono hS hw hd)) _ _

/-- Runs through related lists give related lists. -/
theorem traverse {f : α → m γ} {g : β → Outcome δ} (hR : T.Stable R) (hS : T.Stable S)
    (hf : ∀ {w' a b}, T.le w w' → R w' a b → T.Tracks w' S (f a) (g b)) {l : List α}
    {l' : List β} (hl : List.Forall₂ (R w) l l') :
    T.Tracks w (fun w r r' => List.Forall₂ (S w) r.val r'.val) (FiniteStructures.traverse f l)
      (FiniteStructures.traverse g l') :=
  traverse_go hR hS hf hl .nil _ _

/-- Folds of related lists from related states give related states. -/
theorem foldlM {f : γ → α → m γ} {g : δ → β → Outcome δ} (hR : T.Stable R)
    (hf : ∀ {w' c d a b}, T.le w w' → S w' c d → R w' a b → T.Tracks w' S (f c a) (g d b))
    {l : List α} {l' : List β} (hl : List.Forall₂ (R w) l l') {c : γ} {d : δ} (hcd : S w c d) :
    T.Tracks w S (l.foldlM f c) (l'.foldlM g d) := by
  induction l generalizing w l' c d with
  | nil =>
    cases hl
    exact T.pure hcd
  | cons a l ih =>
    obtain _ | ⟨hab, hl⟩ := hl
    rw [List.foldlM_cons, List.foldlM_cons]
    refine T.bind (hf (T.le_refl w) hcd hab) fun hw hcd => ?_
    exact ih (fun hw' => hf (T.le_trans hw hw')) (forall₂_mono hR hw hl) hcd

end Tracking

end FiniteStructures
