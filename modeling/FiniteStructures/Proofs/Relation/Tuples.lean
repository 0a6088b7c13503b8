import FiniteStructures.Proofs.Tensor.Tables
import FiniteStructures.Relation.Predicates

/-!
Relations by their tuples.  Over truth values an operation on relations is an operation on sets of
tuples, cell by cell: the tables of two relations give that of their combination, and a comparison
asks about all tuples of the shape.
-/

namespace FiniteStructures

namespace Relation

open Outcome Tensor

variable {safe : Prop} {n : Nat} {r s : Relation Bool} {shape : List Nat} {P Q : List Nat → Prop}

/-! ## Combinations -/

theorem yields_intersect (hr : Table shape P r.tensor) (hs : Table shape Q s.tensor) :
    Yields safe (fun u : Relation Bool => Table shape (fun i => P i ∧ Q i) u.tensor)
      (r.intersect s) :=
  (Table.map2M (f := (· && ·)) (fun _ _ => rfl) (fun _ _ => Bool.and_eq_true_iff) hr hs).bind
    fun _ hu => .of_eq rfl hu

theorem yields_union (hr : Table shape P r.tensor) (hs : Table shape Q s.tensor) :
    Yields safe (fun u : Relation Bool => Table shape (fun i => P i ∨ Q i) u.tensor)
      (r.union s) :=
  (Table.map2M (f := (· || ·)) (fun _ _ => rfl) (fun _ _ => Bool.or_eq_true_iff) hr hs).bind
    fun _ hu => .of_eq rfl hu

theorem complement_table (hr : Table shape P r.tensor) :
    ∃ u : Relation Bool, r.complement = .ok u ∧ Table shape (fun i => ¬ P i) u.tensor := by
  obtain ⟨u, run, hu⟩ := hr.neg
  refine ⟨⟨u⟩, ?_, hu⟩
  unfold complement
  rw [run]
  rfl

/-! ## Comparisons -/

theorem yields_isSubsetOf (hr : Table shape P r.tensor) (hs : Table shape Q s.tensor) :
    Yields safe (fun b => b = true ↔ ∀ index, Shape.Within shape index → P index → Q index)
      (r.isSubsetOf s) := by
  have implies : ∀ a b : Bool, (!a || b) = true ↔ (a = true → b = true) := by decide
  refine (Table.map2M (g := BooleanDomain.leq) (f := fun a b => !a || b) (c := fun p q => p → q)
    (fun _ _ => rfl) implies
    hr hs).bind fun u hu => .of_eq rfl ?_
  exact hu.all

/-- Relations are found equal when they have the same tuples. -/
theorem yields_isEqualTo (hr : Table shape P r.tensor) (hs : Table shape Q s.tensor) :
    Yields safe (fun b => b = true ↔ ∀ index, Shape.Within shape index → (P index ↔ Q index))
      (r.isEqualTo s) := by
  have agrees : ∀ a b : Bool, (!(a ^^ b)) = true ↔ (a = true ↔ b = true) := by decide
  refine (Table.map2M (g := BooleanDomain.equ) (f := fun a b => !(a ^^ b)) (c := fun p q => p ↔ q)
    (fun _ _ => rfl) agrees hr hs).bind fun u hu => .of_eq rfl ?_
  exact hu.all

theorem isFull_table (hr : Table shape P r.tensor) :
    ∃ b, r.isFull = .ok b ∧ (b = true ↔ ∀ index, Shape.Within shape index → P index) :=
  ⟨_, rfl, hr.all⟩

/-! ## Shapes -/

variable {E : Type}

theorem ofTensor_uniform {t : Tensor E} {k : Nat} (shape : t.shape = List.replicate (k + 1) n) :
    ofTensor t = .ok ⟨t⟩ := by
  have same : ((n :: List.replicate k n).all fun d => decide (d = n)) = true := by
    simp
  unfold ofTensor
  rw [shape, List.replicate_succ]
  simp only [same, if_true]

theorem ofTensor_of_pos {t : Tensor E} {k : Nat} (pos : 0 < k)
    (shape : t.shape = List.replicate k n) : ofTensor t = .ok ⟨t⟩ := by
  obtain ⟨k, rfl⟩ := Nat.exists_eq_succ_of_ne_zero pos.ne'
  exact ofTensor_uniform shape

/-- Only tensors with axes of one size are relations. -/
theorem uniform_of_ofTensor {t : Tensor E} {r : Relation E} (run : ofTensor t = .ok r) :
    r = ⟨t⟩ ∧ ∃ k n, t.shape = List.replicate (k + 1) n := by
  unfold ofTensor at run
  split at run
  · cases run
  · next n rest shape =>
    split at run
    · next same =>
      obtain rfl := Except.ok.inj run
      rw [shape, List.all_eq_true] at same
      refine ⟨rfl, rest.length, n, ?_⟩
      rw [shape, List.eq_replicate_iff]
      exact ⟨List.length_cons, fun d hd => of_decide_eq_true (same d hd)⟩
    · cases run

theorem size_of_shape {r : Relation E} {k : Nat} (shape : r.tensor.shape = List.replicate (k + 1) n) :
    r.size = .ok n := by
  unfold Relation.size
  rw [shape, List.replicate_succ]

theorem arity_of_shape {r : Relation E} {k : Nat} (shape : r.tensor.shape = List.replicate k n) : r.arity = k := by
  rw [Relation.arity, Tensor.order, shape, List.length_replicate]

/-- The tuple is in the relation. -/
def Contains {k : Nat} (r : Relation Bool) (t : Fin k → Fin n) : Prop :=
  r.tensor.Holds (List.ofFn fun i => (t i : Nat))

instance {k : Nat} (r : Relation Bool) (t : Fin k → Fin n) : Decidable (r.Contains t) :=
  inferInstanceAs (Decidable (r.tensor.Holds _))

end Relation

end FiniteStructures
