import FiniteStructures.Tensor.Basic

/-!
Stacking tensors of one shape along a new last axis, and splitting along the last axis.  The last
axis is the slowest, so the parts lie one after another in the store.
-/

namespace FiniteStructures

namespace Tensor

variable {E : Type}

/-- The cells of parts of one shape, one part after another. -/
def gather (shape : List Nat) :
    (parts : List (Tensor E)) →
      Outcome { l : List E // l.length = Shape.volume shape * parts.length }
  | [] => .ok ⟨[], rfl⟩
  | part :: parts =>
    if h : part.shape = shape then do
      let ⟨l, hl⟩ ← gather shape parts
      return ⟨part.elems ++ l, by
        simp [hl, part.length_elems, h, Nat.mul_add, Nat.add_comm]⟩
    else .shapes shape part.shape

/-- Stacks parts of the given shape along a new last axis, whose size is the number of parts. -/
def concatWithShape (shape : List Nat) (parts : List (Tensor E)) : Outcome (Tensor E) := do
  let _ ← Count.store (← Count.mul (← Shape.cells shape) parts.length)
  let ⟨elems, h⟩ ← gather shape parts
  return ⟨shape ++ [parts.length], elems, by
    rw [h, Shape.volume_append]; simp [Shape.volume]⟩

/-- Stacks at least one part along a new last axis. -/
def concat (parts : List (Tensor E)) : Outcome (Tensor E) :=
  match parts with
  | [] => .arity 1 0
  | first :: _ => concatWithShape first.shape parts

/-- Cells of `count` parts lying one after another, as tensors of one shape. -/
def split (shape : List Nat) :
    (count : Nat) → (l : List E) → l.length = Shape.volume shape * count → List (Tensor E)
  | 0, _, _ => []
  | n + 1, l, h =>
    ⟨shape, l.take (Shape.volume shape), by simp [h, Nat.mul_succ]⟩ ::
      split shape n (l.drop (Shape.volume shape)) (by simp [h, Nat.mul_succ])

theorem volume_dropLast {shape : List Nat} {count : Nat} (h : shape.getLast? = some count) :
    Shape.volume shape = Shape.volume shape.dropLast * count := by
  obtain ⟨init, rfl⟩ := List.getLast?_eq_some_iff.mp h
  simp [Shape.volume_append, Shape.volume]

/-- The parts along the last axis. -/
def unconcat (t : Tensor E) : Outcome (List (Tensor E)) :=
  match h : t.shape.getLast? with
  | none => .arity 1 0
  | some count => do
    let _ ← Shape.cells t.shape.dropLast
    let _ ← Count.store count
    return split t.shape.dropLast count t.elems (by rw [t.length_elems, volume_dropLast h])

end Tensor

end FiniteStructures
