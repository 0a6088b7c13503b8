import FiniteStructures.Index

/-!
Dense tensors: one cell per index of a shape, in storage order, the first axis fastest.  Every
operation builds a new tensor.  Cells may be computed with effects (a growing formula, a fault);
they are then computed in storage order.

Because the leading axes are the fastest ones, the cells that `fold` aggregates lie side by side.
-/

namespace FiniteStructures

/-- A tensor over `E`: as many cells as its shape has indices. -/
structure Tensor (E : Type) where
  shape : List Nat
  elems : List E
  length_elems : elems.length = Shape.volume shape
deriving DecidableEq

/-- The first `count` blocks of one length of a list. -/
def blocks {α : Type} (length count : Nat) (l : List α) : List (List α) :=
  let store := l.toArray
  (List.range count).map fun c => (store.extract (c * length) ((c + 1) * length)).toList

theorem length_blocks {α : Type} (length count : Nat) (l : List α) :
    (blocks length count l).length = count := by
  simp [blocks]

namespace Tensor

variable {E F G : Type} {m : Type → Type} [Monad m] [MonadLiftT Outcome m]

/-- Tensors are equal when shapes and cells are. -/
theorem ext {t u : Tensor E} (hs : t.shape = u.shape) (he : t.elems = u.elems) : t = u := by
  cases t; cases u; simp_all

/-! ## Construction -/

/-- The tensor whose cell at each index is computed from the index, in storage order. -/
def generate (shape : List Nat) (cell : List Nat → m E) : m (Tensor E) := do
  Shape.storable shape
  let ⟨elems, h⟩ ← traverse cell (Shape.indices shape)
  return ⟨shape, elems, h.trans (Shape.length_indices shape)⟩

/-- The tensor with the given cells; there must be one per index. -/
def ofList (shape : List Nat) (elems : List E) : Outcome (Tensor E) := do
  let expected ← Shape.cells shape
  if h : elems.length = Shape.volume shape then return ⟨shape, elems, h⟩
  else Outcome.arity expected elems.length

/-- The tensor without axes. -/
def scalar (e : E) : Tensor E := ⟨[], [e], rfl⟩

/-- The tensor with all cells equal. -/
def constant (shape : List Nat) (e : E) : Outcome (Tensor E) := do
  Shape.storable shape
  return ⟨shape, List.replicate (Shape.volume shape) e, List.length_replicate⟩

/-! ## Reading -/

/-- Number of axes. -/
def order (t : Tensor E) : Nat := t.shape.length

/-- Number of cells. -/
def size (t : Tensor E) : Nat := t.elems.length

/-- Some axis is empty. -/
def isEmpty (t : Tensor E) : Bool := t.elems.isEmpty

/-- Each position must lie on its axis. -/
def inRange : List Nat → List Nat → Outcome Unit
  | d :: ds, i :: is => if i < d then inRange ds is else .breach (.indexOutOfRange i d)
  | _, _ => .ok ()

/-- The cell at an index. -/
def get (t : Tensor E) (index : List Nat) : Outcome E := do
  if index.length ≠ t.order then .breach .indexArity
  inRange t.shape index
  match t.elems[Shape.offset t.shape index]? with
  | some e => .ok e
  | none => .breach .outOfBounds

/-- The cell of a tensor without axes. -/
def toScalar (t : Tensor E) : Outcome E :=
  match t.shape, t.elems with
  | [], e :: _ => .ok e
  | [], [] => .breach .outOfBounds
  | _ :: _, _ => .arity 0 t.order

/-! ## Cell by cell -/

/-- The tensor with `f` applied to each cell. -/
def mapM (f : E → m F) (t : Tensor E) : m (Tensor F) := do
  let ⟨elems, h⟩ ← traverse f t.elems
  return ⟨t.shape, elems, h.trans t.length_elems⟩

/-- The tensor with `f` applied to each cell, without effects. -/
def map (f : E → F) (t : Tensor E) : Tensor F :=
  ⟨t.shape, t.elems.map f, by simp [t.length_elems]⟩

/-- The cells of two tensors of one shape combined by `f`. -/
def map2M (f : E → F → m G) (t : Tensor E) (u : Tensor F) : m (Tensor G) := do
  if h : t.shape = u.shape then
    let ⟨elems, hl⟩ ← traverse (fun p => f p.1 p.2) (t.elems.zip u.elems)
    return ⟨t.shape, elems, by simp [hl, t.length_elems, u.length_elems, h]⟩
  else
    (Outcome.shapes t.shape u.shape : Outcome (Tensor G))

/-- The first `axes` axes aggregated away: each remaining index receives `sum` of the block of
cells below it, in storage order. -/
def foldM (axes : Nat) (sum : List E → m F) (t : Tensor E) : m (Tensor F) := do
  if axes > t.order then
    (Outcome.breach (.foldTooDeep axes t.order) : Outcome Unit)
  let block ← Shape.cells (t.shape.take axes)
  Shape.storable (t.shape.drop axes)
  let rest := t.shape.drop axes
  let ⟨elems, h⟩ ← traverse sum (blocks block (Shape.volume rest) t.elems)
  return ⟨rest, elems, h.trans (length_blocks ..)⟩

/-! ## Truth values -/

/-- Number of true cells. -/
def count (t : Tensor Bool) : Nat := t.elems.countP id

/-- Indices of the true cells, in storage order. -/
def tuples (t : Tensor Bool) : List (List Nat) :=
  ((Odometer.toList t.shape).zip t.elems).filterMap fun p => if p.2 then some p.1 else none

end Tensor

end FiniteStructures
