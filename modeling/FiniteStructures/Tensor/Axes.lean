import FiniteStructures.Tensor.Basic

/-!
Moving, broadcasting and identifying axes.  `reshape` is given, for each axis of a tensor, the
axis of the result it lands on:

    (t.reshape shape axes) at n  =  t at o   where  o[i] = n[axes[i]]

A result axis on which none lands is broadcast; axes landing on one result axis select the
diagonal.  Cells are found by strides: the step that a result axis takes in the old store is the
sum of the steps of the axes landing on it.
-/

namespace FiniteStructures

namespace Tensor

variable {E : Type}

/-- Steps in the store of each result axis, given the sizes of the old axes with the result axis
each lands on; `stride` is the step of the first old axis.  Each result axis must have the size of
the axes that land on it. -/
def mergeStrides (old shape : List Nat) :
    (landings : List (Nat × Nat)) → (stride : Nat) → (steps : List Nat) → Outcome (List Nat)
  | [], _, steps => .ok steps
  | (d, axis) :: rest, stride, steps => do
    if shape[axis]? ≠ some d then .shapes old shape
    let step ← Count.add (steps.getD axis 0) stride
    mergeStrides old shape rest (← Count.mul stride d) (steps.set axis step)

/-- Position in the store of an index, given the step of each axis. -/
def position : (steps index : List Nat) → Nat
  | step :: steps, i :: index => i * step + position steps index
  | _, _ => 0

/-- The tensor with its axes moved, broadcast and identified. -/
def reshape (t : Tensor E) (shape axes : List Nat) : Outcome (Tensor E) := do
  if axes.length ≠ t.order then .arity t.order axes.length
  let steps ← mergeStrides t.shape shape (t.shape.zip axes) 1 (List.replicate shape.length 0)
  let store := t.elems.toArray
  generate shape fun index =>
    match store[position steps index]? with
    | some e => .ok e
    | none => .breach .outOfBounds

/-- Mark of a result axis that no axis has landed on: the largest count. -/
def vacant : Nat := Count.limit - 1

/-- The sizes of the axes in their new order, or nothing when two axes land on one or an axis
lands outside.  An axis of size `vacant` does not occupy its place. -/
def place : List (Nat × Nat) → List Nat → Option (List Nat)
  | [], shape => some shape
  | (d, axis) :: rest, shape =>
    if shape[axis]? = some vacant then place rest (shape.set axis d) else none

/-- The tensor with axis `i` moved to `axes[i]`. -/
def permute (t : Tensor E) (axes : List Nat) : Outcome (Tensor E) := do
  if axes.length ≠ t.order then .arity t.order axes.length
  match place (t.shape.zip axes) (List.replicate axes.length vacant) with
  | some shape => t.reshape shape axes
  | none => .fail (.invalid (.axisOrder axes))

end Tensor

end FiniteStructures
