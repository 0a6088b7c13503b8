import FiniteStructures.Domain
import FiniteStructures.Tensor.Axes

/-!
Relations on a finite set.  A relation of arity n on the numbers below m is a tensor with n axes
of size m; the cell at a tuple says whether the tuple is related.  Over truth values the relation
is concrete, over literals it is an unknown.
-/

namespace FiniteStructures

/-- A relation by its tensor of memberships. -/
structure Relation (E : Type) where
  tensor : Tensor E
deriving DecidableEq

namespace Relation

variable {E : Type}

/-- The relation of a tensor with at least one axis and all axes of one size. -/
def ofTensor (t : Tensor E) : Outcome (Relation E) :=
  match t.shape with
  | [] => .arity 1 0
  | size :: _ =>
    if t.shape.all (· = size) then .ok ⟨t⟩
    else .shapes (List.replicate t.order size) t.shape

/-- Size of the set, which a relation without coordinates does not show. -/
def size (r : Relation E) : Outcome Nat :=
  match r.tensor.shape with
  | [] => .breach .outOfBounds
  | size :: _ => .ok size

/-- Number of coordinates. -/
def arity (r : Relation E) : Nat := r.tensor.order

/-- Membership of a tuple. -/
def get (r : Relation E) (tuple : List Nat) : Outcome E := r.tensor.get tuple

/-- Ends unless the relation has the given arity. -/
def requireArity (r : Relation E) (arity : Nat) : Outcome Unit :=
  if r.arity ≠ arity then .arity arity r.arity else .ok ()

/-! ## Concrete relations -/

/-- Marks the cells of tuples of the given shape. -/
def markTuples (size arity : Nat) (shape : List Nat) :
    List (List Nat) → List Bool → Outcome (List Bool)
  | [], cells => .ok cells
  | tuple :: rest, cells => do
    if tuple.length ≠ arity then .arity arity tuple.length
    if tuple.any (· ≥ size) then
      -- the smallest shape that would contain the tuple
      .shapes shape (← tuple.mapM fun a => do return max (← Count.add a 1) size)
    markTuples size arity shape rest (cells.set (Shape.offset shape tuple) true)

/-- The relation of the listed tuples. -/
def ofTuples (size arity : Nat) (tuples : List (List Nat)) : Outcome (Relation Bool) := do
  let shape ← Shape.uniform size arity
  Shape.storable shape
  let cells ← markTuples size arity shape tuples (List.replicate (Shape.volume shape) false)
  ofTensor (← Tensor.ofList shape cells)

/-- The related tuples, in storage order. -/
def tuples (r : Relation Bool) : List (List Nat) := r.tensor.tuples

/-! ## Constructors -/

variable {m : Type → Type} [BooleanDomain E m]

/-- All tuples related. -/
def full (size arity : Nat) : Outcome (Relation E) := do
  return ⟨← Tensor.constant (← Shape.uniform size arity) BooleanDomain.truth⟩

/-- No tuple related. -/
def empty (size arity : Nat) : Outcome (Relation E) := do
  return ⟨← Tensor.constant (← Shape.uniform size arity) BooleanDomain.falsity⟩

/-- The binary relation of a decidable property. -/
def binary (size : Nat) (holds : Nat → Nat → Bool) : Outcome (Relation E) := do
  return ⟨← Tensor.generate [size, size] fun index =>
    match index with
    | [i, j] => .ok (BooleanDomain.constant (holds i j))
    | _ => .breach .indexArity⟩

/-- Equality. -/
def equal (size : Nat) : Outcome (Relation E) := binary size (· == ·)

/-- The strict natural order. -/
def lessThan (size : Nat) : Outcome (Relation E) := binary size (· < ·)

/-- The natural order. -/
def lessOrEqual (size : Nat) : Outcome (Relation E) := binary size (· ≤ ·)

/-- A concrete relation as constants of the domain. -/
def lift (r : Relation Bool) : Relation E := ⟨r.tensor.map BooleanDomain.constant⟩

/-! ## Boolean combinations -/

variable [Monad m] [MonadLiftT Outcome m]

def intersect (r s : Relation E) : m (Relation E) := do
  return ⟨← r.tensor.map2M BooleanDomain.and s.tensor⟩

def union (r s : Relation E) : m (Relation E) := do
  return ⟨← r.tensor.map2M BooleanDomain.or s.tensor⟩

/-- Symmetric difference. -/
def symmdiff (r s : Relation E) : m (Relation E) := do
  return ⟨← r.tensor.map2M BooleanDomain.xor s.tensor⟩

def complement (r : Relation E) : m (Relation E) := do
  return ⟨← r.tensor.mapM BooleanDomain.neg⟩

end Relation

end FiniteStructures
