import FiniteStructures.Index
import Mathlib.Data.List.Forall2

/-!
Computations that stop only where a number leaves its range.  Sizes are computed with counts, so a
contraction of large tensors may stop with a fault; what is proved about its value is stated as

    Outcome.Yields safe P o     o gives a value with P, or else it is not safe and left its range

where `safe` is what keeps all numbers within their range.
-/

namespace FiniteStructures

/-! ## Values unless out of range -/

namespace Outcome

variable {α β : Type} {safe : Prop} {P : α → Prop} {Q : β → Prop}

/-- A number was too large to be a count, or a list too long to be stored. -/
def OutOfRange (o : Outcome α) : Prop := o = .error .overflow ∨ o = .error (.misuse .capacity)

theorem OutOfRange.ne_ok {o : Outcome α} (h : OutOfRange o) (a : α) : o ≠ .ok a := by
  rcases h with rfl | rfl <;> exact nofun

theorem not_outOfRange {o : Outcome α} (ran : o.isOk = true) : ¬ OutOfRange o := by
  rintro (rfl | rfl) <;> cases ran

theorem OutOfRange.bind {o : Outcome α} (h : OutOfRange o) (f : α → Outcome β) :
    OutOfRange (o >>= f) := by
  rcases h with rfl | rfl
  · exact .inl rfl
  · exact .inr rfl

/-- The computation gives a value with the property; only if it is not safe, it may leave its range
instead. -/
def Yields (safe : Prop) (P : α → Prop) (o : Outcome α) : Prop :=
  (∃ a, o = .ok a ∧ P a) ∨ (¬ safe ∧ OutOfRange o)

theorem Yields.of_eq {o : Outcome α} {a : α} (h : o = .ok a) (ha : P a) : Yields safe P o :=
  .inl ⟨a, h, ha⟩

theorem Yields.mono {P' : α → Prop} {o : Outcome α} (h : Yields safe P o)
    (sub : ∀ a, P a → P' a) : Yields safe P' o := by
  rcases h with ⟨a, rfl, ha⟩ | h
  · exact .inl ⟨a, rfl, sub a ha⟩
  · exact .inr h

/-- What is safe less often leaves its range no more often. -/
theorem Yields.narrow {stricter : Prop} {o : Outcome α} (h : Yields safe P o)
    (le : stricter → safe) : Yields stricter P o :=
  h.imp_right fun ⟨loose, out⟩ => ⟨fun hs => loose (le hs), out⟩

theorem Yields.bind {o : Outcome α} {f : α → Outcome β} (h : Yields safe P o)
    (hf : ∀ a, P a → Yields safe Q (f a)) : Yields safe Q (o >>= f) := by
  rcases h with ⟨a, rfl, ha⟩ | ⟨loose, rfl | rfl⟩
  · exact hf a ha
  · exact .inr ⟨loose, .inl rfl⟩
  · exact .inr ⟨loose, .inr rfl⟩

/-- Where all that may follow ends alike, so does the whole. -/
theorem Yields.ends {o : Outcome α} {f : α → Outcome β} {r : Outcome β} (h : Yields safe P o)
    (hf : ∀ a, P a → f a = r ∨ OutOfRange (f a)) : o >>= f = r ∨ OutOfRange (o >>= f) := by
  rcases h with ⟨a, rfl, ha⟩ | ⟨-, out⟩
  · exact hf a ha
  · exact .inr (out.bind f)

theorem Yields.of_ok {o : Outcome α} {a : α} (h : Yields safe P o) (run : o = .ok a) : P a := by
  rcases h with ⟨b, rfl, hb⟩ | ⟨-, rfl | rfl⟩
  · cases run
    exact hb
  · cases run
  · cases run

/-- A safe computation gives a value. -/
theorem Yields.of_safe {o : Outcome α} (h : Yields safe P o) (hs : safe) : ∃ a, o = .ok a ∧ P a :=
  h.resolve_right fun ⟨loose, _⟩ => loose hs

/-- So does one that does not leave its range. -/
theorem Yields.of_counted {o : Outcome α} (h : Yields safe P o) (counted : ¬ OutOfRange o) :
    ∃ a, o = .ok a ∧ P a :=
  h.resolve_right fun ⟨_, out⟩ => counted out

/-- The value is the one that was computed. -/
theorem Yields.known {o : Outcome α} (h : Yields safe P o) :
    Yields safe (fun a => P a ∧ o = .ok a) o := by
  rcases h with ⟨a, rfl, ha⟩ | h
  · exact .inl ⟨a, rfl, ha, rfl⟩
  · exact .inr h

/-- Both steps of a computation with a value have one. -/
theorem bind_ok {o : Outcome α} {f : α → Outcome β} {b : β} (run : o >>= f = .ok b) :
    ∃ a, o = .ok a ∧ f a = .ok b := by
  cases o with
  | error e => cases run
  | ok a => exact ⟨a, rfl, run⟩

/-- Computations go on alike when they do so from every value that was computed. -/
theorem bind_congr_ok {o : Outcome α} {f g : α → Outcome β}
    (same : ∀ a, o = .ok a → f a = g a) : o >>= f = o >>= g := by
  cases o with
  | error _ => rfl
  | ok a => exact same a rfl

/-- No error is returned: to leave the range is no error. -/
theorem Yields.ne_error {o : Outcome α} (h : Yields safe P o) (e : Error) :
    o ≠ .error (.error e) := by
  rcases h with ⟨a, rfl, -⟩ | ⟨-, rfl | rfl⟩ <;> exact nofun

/-- A run through a list gives values with what its steps give. -/
theorem Yields.traverse {R : α → β → Prop} {f : α → Outcome β} {l : List α}
    (h : ∀ a ∈ l, Yields safe (R a) (f a)) :
    Yields safe (fun r => List.Forall₂ R l r.1) (traverse f l) := by
  have go (rest : List α) : ∀ (front : List α) (done : List β) (n : Nat)
      (hn : done.length + rest.length = n), (∀ a ∈ rest, Yields safe (R a) (f a)) →
      List.Forall₂ R front done.reverse →
      Yields safe (fun r => List.Forall₂ R (front ++ rest) r.1)
        (traverse.go f rest done n hn) := by
    induction rest with
    | nil =>
      intro front done n hn _ hd
      rw [List.append_nil]
      exact .of_eq rfl hd
    | cons a rest ih =>
      intro front done n hn hrest hd
      unfold traverse.go
      refine (hrest a List.mem_cons_self).bind fun b hb => ?_
      have := ih (front ++ [a]) (b :: done) n
        (by simp only [List.length_cons] at hn ⊢; omega)
        (fun c hc => hrest c (List.mem_cons_of_mem _ hc))
        (by rw [List.reverse_cons]; exact List.rel_append hd (.cons hb .nil))
      rwa [List.append_assoc, List.singleton_append] at this
  exact go l [] [] _ _ h .nil

theorem forall₂_eq_map {g : α → β} {l : List α} {r : List β}
    (h : List.Forall₂ (fun a b => b = g a) l r) : r = l.map g := by
  induction h with
  | nil => rfl
  | cons hb _ ih => rw [List.map_cons, hb, ih]

/-- When the steps give the values of a function, so does the run. -/
theorem Yields.traverse_map {g : α → β} {f : α → Outcome β} {l : List α}
    (h : ∀ a ∈ l, Yields safe (· = g a) (f a)) :
    Yields safe (fun r => r.1 = l.map g) (FiniteStructures.traverse f l) :=
  (Yields.traverse h).mono fun _ => forall₂_eq_map

end Outcome

/-! ## Sizes -/

namespace Shape

/-- Number of cells if the empty axes had one position. -/
def span : List Nat → Nat
  | [] => 1
  | d :: ds => max 1 d * span ds

theorem span_pos (shape : List Nat) : 0 < span shape := by
  induction shape with
  | nil => exact Nat.one_pos
  | cons d ds ih => exact Nat.mul_pos (by omega) ih

theorem volume_le_span (shape : List Nat) : volume shape ≤ span shape := by
  induction shape with
  | nil => exact Nat.le_refl 1
  | cons d ds ih => exact Nat.mul_le_mul (Nat.le_max_right 1 d) ih

theorem span_append (s t : List Nat) : span (s ++ t) = span s * span t := by
  induction s with
  | nil => rw [List.nil_append, span, Nat.one_mul]
  | cons d ds ih => rw [List.cons_append, span, span, ih, Nat.mul_assoc]

end Shape

open Outcome

variable {safe : Prop}

namespace Count

theorem yields_check {n : Nat} (room : safe → n < limit) : Yields safe (· = n) (check n) := by
  unfold check
  split
  · exact .of_eq rfl rfl
  · next h => exact .inr ⟨fun hs => h (room hs), .inl rfl⟩

theorem yields_store {n : Nat} (room : safe → n < storeLimit) : Yields safe (· = n) (store n) := by
  unfold store
  split
  · exact .of_eq rfl rfl
  · next h => exact .inr ⟨fun hs => h (room hs), .inr rfl⟩

/-- A product with room for its span has room at every step. -/
theorem yields_product {counts : List Nat} {first : Nat}
    (room : safe → first * Shape.span counts < limit) :
    Yields safe (· = first * Shape.volume counts) (counts.foldlM mul first) := by
  induction counts generalizing first with
  | nil => exact .of_eq rfl (Nat.mul_one first).symm
  | cons d ds ih =>
    have step (hs : safe) : first * d < limit ∧ first * d * Shape.span ds < limit := by
      have whole := room hs
      rw [Shape.span, ← Nat.mul_assoc] at whole
      have le : first * d * Shape.span ds ≤ first * max 1 d * Shape.span ds :=
        Nat.mul_le_mul_right _ (Nat.mul_le_mul_left _ (Nat.le_max_right 1 d))
      have one := Nat.le_mul_of_pos_right (first * d) (Shape.span_pos ds)
      omega
    rw [List.foldlM_cons]
    refine (yields_check fun hs => (step hs).1).bind fun n hn => ?_
    subst hn
    refine (ih fun hs => (step hs).2).mono fun n hn => ?_
    rw [hn, Shape.volume, Nat.mul_assoc]

end Count

namespace Shape

theorem yields_uniform {size order : Nat} (room : safe → order < Count.storeLimit) :
    Yields safe (· = List.replicate order size) (uniform size order) := by
  refine (Count.yields_store room).bind fun stored h => ?_
  subst h
  exact .of_eq rfl rfl

theorem yields_cells {shape : List Nat} (room : safe → span shape < Count.limit) :
    Yields safe (· = volume shape) (cells shape) := by
  have product : Yields safe (· = 1 * volume shape) (cells shape) :=
    Count.yields_product fun hs => by rw [Nat.one_mul]; exact room hs
  rwa [Nat.one_mul] at product

theorem yields_storable {shape : List Nat} (room : safe → span shape < Count.storeLimit) :
    Yields safe (fun _ => True) (storable shape) := by
  unfold storable
  refine (yields_cells fun hs => Nat.lt_trans (room hs) (by decide)).bind fun n hn => ?_
  subst hn
  have fits (hs : safe) : volume shape < Count.storeLimit :=
    Nat.lt_of_le_of_lt (volume_le_span shape) (room hs)
  exact (Count.yields_store fits).bind fun _ _ => .of_eq rfl trivial

/-- A shape is refused for its size only. -/
theorem storable_error {shape : List Nat} {e : Fault} (h : storable shape = .error e) :
    e = .overflow ∨ e = .misuse .capacity := by
  have yields : Yields False (fun _ => True) (storable shape) := yields_storable False.elim
  rcases yields with ⟨_, ok, -⟩ | ⟨-, out | out⟩
  · cases ok.symm.trans h
  · exact .inl (Except.error.inj (h.symm.trans out))
  · exact .inr (Except.error.inj (h.symm.trans out))

end Shape

end FiniteStructures
