import FiniteStructures.Proofs.Tensor.Bounds
import FiniteStructures.Tensor.Basic

/-!
Runs through lists and tensors by computations that can only fail.
-/

namespace FiniteStructures

variable {α β : Type}

theorem traverse_go_ok {f : α → Outcome β} {g : α → β} {l : List α}
    (h : ∀ a ∈ l, f a = .ok (g a)) {done : List β} {n : Nat} (hn : done.length + l.length = n) :
    traverse.go f l done n hn = .ok ⟨done.reverse ++ l.map g, by simpa using hn⟩ := by
  induction l generalizing done with
  | nil => simp only [traverse.go, List.map_nil, List.append_nil]; rfl
  | cons a l ih =>
    unfold traverse.go
    rw [h a List.mem_cons_self]
    show traverse.go f l (g a :: done) n _ = _
    rw [ih fun b hb => h b (List.mem_cons_of_mem _ hb)]
    simp

/-- Where every step succeeds, the run gives the results. -/
theorem traverse_ok {f : α → Outcome β} {g : α → β} {l : List α} (h : ∀ a ∈ l, f a = .ok (g a)) :
    traverse f l = .ok ⟨l.map g, by simp⟩ :=
  traverse_go_ok h _

theorem traverse_congr {f g : α → Outcome β} {l : List α} (same : ∀ a ∈ l, f a = g a) :
    traverse f l = traverse g l := by
  have go (rest : List α) : ∀ (done : List β) (n : Nat) (hn : done.length + rest.length = n),
      (∀ a ∈ rest, f a = g a) → traverse.go f rest done n hn = traverse.go g rest done n hn := by
    induction rest with
    | nil => exact fun _ _ _ _ => rfl
    | cons a rest ih =>
      intro done n hn here
      unfold traverse.go
      rw [here a List.mem_cons_self]
      exact congrArg _ (funext fun b => ih _ _ _ fun c hc => here c (List.mem_cons_of_mem _ hc))
  exact go l [] _ _ same

/-- A run through a list that ends well did so at each step. -/
theorem forall₂_of_traverse {f : α → Outcome β} {l : List α}
    {r : { r : List β // r.length = l.length }} (run : traverse f l = .ok r) :
    List.Forall₂ (fun a b => f a = .ok b) l r.1 := by
  have go (rest : List α) : ∀ (done : List β) (n : Nat) (hn : done.length + rest.length = n)
      (r : { r : List β // r.length = n }), traverse.go f rest done n hn = .ok r →
      ∃ more, r.1 = done.reverse ++ more ∧ List.Forall₂ (fun a b => f a = .ok b) rest more := by
    induction rest with
    | nil =>
      intro done n hn r run
      obtain rfl := Except.ok.inj run
      exact ⟨[], (List.append_nil _).symm, .nil⟩
    | cons a rest ih =>
      intro done n hn r run
      unfold traverse.go at run
      obtain ⟨b, first, later⟩ := Outcome.bind_ok run
      obtain ⟨more, same, steps⟩ := ih _ _ _ r later
      refine ⟨b :: more, ?_, .cons first steps⟩
      rw [same, List.reverse_cons, List.append_assoc, List.singleton_append]
  obtain ⟨more, same, steps⟩ := go l [] l.length (by simp) r run
  rw [same]
  exact steps

theorem List.mapM_ok {f : α → Outcome β} {g : α → β} {l : List α}
    (h : ∀ a ∈ l, f a = .ok (g a)) : l.mapM f = .ok (l.map g) := by
  induction l with
  | nil => rfl
  | cons a l ih =>
    rw [List.mapM_cons, h a List.mem_cons_self, ih fun b hb => h b (List.mem_cons_of_mem _ hb)]
    rfl

namespace Tensor

theorem mapM_ok {f : α → Outcome β} {g : α → β} {t : Tensor α}
    (h : ∀ e ∈ t.elems, f e = .ok (g e)) : t.mapM f = .ok (t.map g) := by
  unfold mapM
  rw [traverse_ok h]
  rfl

end Tensor

end FiniteStructures
