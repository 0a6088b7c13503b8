import FiniteStructures.Bounded

/-!
Shapes and indices.  A shape lists the sizes of the axes; an index has one position per axis.
Indices are numbered with the first axis varying fastest:

    Shape.offset [d₀, d₁, d₂, …] [i₀, i₁, i₂, …] = i₀ + i₁ · d₀ + i₂ · (d₀ · d₁) + …

Two loops run through the indices in that order.  `Shape.indices` moves one index on until no axis
has a further position; an `Odometer` gives the indices one at a time and notes when it is done.
-/

namespace FiniteStructures

/-- Runs `f` on the members of a list from left to right; the results are as many. -/
def traverse {m : Type → Type} [Monad m] {α β : Type} (f : α → m β) (l : List α) :
    m { r : List β // r.length = l.length } :=
  go l [] l.length (by simp)
where
  /-- The results so far are kept last first. -/
  go : (rest : List α) → (done : List β) → (n : Nat) → done.length + rest.length = n →
      m { r : List β // r.length = n }
    | [], done, _, h => pure ⟨done.reverse, by simpa using h⟩
    | a :: rest, done, n, h => do
      let b ← f a
      go rest (b :: done) n (by simp only [List.length_cons] at h ⊢; omega)

namespace Shape

/-- Number of cells of a shape. -/
def volume : List Nat → Nat
  | [] => 1
  | d :: ds => d * volume ds

/-- The number of cells as a count: axes are multiplied from left to right. -/
def cells (shape : List Nat) : Outcome Nat := Count.product shape

/-- Passes when all the cells of the shape can be stored. -/
def storable (shape : List Nat) : Outcome Unit := do
  let _ ← Count.store (← cells shape)

/-- The shape with `order` axes of one size. -/
def uniform (size order : Nat) : Outcome (List Nat) := Count.replicate order size

/-- All indices of a shape, one axis after the other, first axis fastest. -/
def enumerate : List Nat → List (List Nat)
  | [] => [[]]
  | d :: ds => (enumerate ds).flatMap fun rest => (List.range d).map (· :: rest)

/-- Position of an index in the order of `indices`: a step on an axis skips as many cells as the
axes before it have. -/
def offset (shape index : List Nat) : Nat := go 0 1 shape index
where
  go (sum stride : Nat) : List Nat → List Nat → Nat
    | d :: ds, i :: is => go (sum + i * stride) (stride * d) ds is
    | _, _ => sum

/-- Each position lies on its axis. -/
def Within : List Nat → List Nat → Prop
  | [], [] => True
  | d :: ds, i :: is => i < d ∧ Within ds is
  | _, _ => False

/-! ### The loop through the indices -/

/-- The index after this one: the first axis that can move on does so, and the axes before it go
back to zero. -/
def advance : List Nat → List Nat → Option (List Nat)
  | d :: ds, i :: is =>
    if i + 1 < d then some ((i + 1) :: is) else (advance ds is).map (0 :: ·)
  | _, _ => none

/-- No fewer than the indices after this one, wherever its positions lie. -/
def ahead : List Nat → List Nat → Nat
  | d :: ds, i :: is => (d - i) + (d + 1) * ahead ds is
  | _, _ => 0

theorem ahead_advance {shape index next : List Nat} (step : advance shape index = some next) :
    ahead shape next < ahead shape index := by
  induction shape generalizing index next with
  | nil => cases step
  | cons d ds ih =>
    cases index with
    | nil => cases step
    | cons i is =>
      unfold advance at step
      split at step
      · next moves =>
        obtain rfl := Option.some.inj step
        simp only [ahead]
        omega
      · obtain ⟨rest, carried, rfl⟩ := Option.map_eq_some_iff.mp step
        have fewer := Nat.mul_le_mul_left (d + 1) (Nat.succ_le_of_lt (ih carried))
        simp only [ahead, Nat.mul_succ] at fewer ⊢
        omega

/-- Goes through the indices from this one on; those before it were visited, the last one first. -/
@[semireducible]
def visit (shape index : List Nat) (visited : List (List Nat)) : List (List Nat) :=
  match _step : advance shape index with
  | none => (index :: visited).reverse
  | some next => visit shape next (index :: visited)
termination_by ahead shape index
decreasing_by exact ahead_advance _step

/-- All indices of a shape, first axis fastest; none when some axis is empty. -/
def indices (shape : List Nat) : List (List Nat) :=
  if shape.contains 0 then [] else visit shape (shape.map fun _ => 0) []

/-! ### Lemmas -/

theorem offset_go (sum stride : Nat) (shape index : List Nat) :
    offset.go sum stride shape index = sum + stride * offset shape index := by
  unfold offset
  induction shape generalizing sum stride index with
  | nil => simp [offset.go]
  | cons d ds ih =>
    cases index with
    | nil => simp [offset.go]
    | cons i is =>
      simp only [offset.go]
      rw [ih, ih (0 + i * 1) (1 * d)]
      simp only [Nat.mul_add, Nat.mul_assoc, Nat.add_assoc, Nat.zero_add, Nat.one_mul,
        Nat.mul_comm i]

@[simp] theorem offset_nil (index : List Nat) : offset [] index = 0 := by
  unfold offset offset.go
  rfl

/-- The first axis varies fastest. -/
theorem offset_cons (d i : Nat) (ds is : List Nat) :
    offset (d :: ds) (i :: is) = i + d * offset ds is := by
  show offset.go (0 + i * 1) (1 * d) ds is = _
  rw [offset_go, Nat.zero_add, Nat.mul_one, Nat.one_mul]

theorem offset_lt {shape index : List Nat} (h : Within shape index) :
    offset shape index < volume shape := by
  induction shape generalizing index with
  | nil => simp [volume]
  | cons d ds ih =>
    cases index with
    | nil => cases h
    | cons i is =>
      have rest := Nat.mul_le_mul_left d (Nat.succ_le_of_lt (ih h.2))
      have first : i < d := h.1
      rw [Nat.mul_succ] at rest
      rw [offset_cons, volume]
      omega

/-- A step leads to the index with the next offset. -/
theorem advance_some {shape index next : List Nat} (h : Within shape index)
    (step : advance shape index = some next) :
    Within shape next ∧ offset shape next = offset shape index + 1 := by
  induction shape generalizing index next with
  | nil => cases step
  | cons d ds ih =>
    cases index with
    | nil => cases step
    | cons i is =>
      unfold advance at step
      split at step
      · next moves =>
        obtain rfl := Option.some.inj step
        refine ⟨⟨moves, h.2⟩, ?_⟩
        rw [offset_cons, offset_cons]
        omega
      · next last =>
        obtain ⟨rest, carried, rfl⟩ := Option.map_eq_some_iff.mp step
        obtain ⟨within, next⟩ := ih h.2 carried
        have first : i < d := h.1
        refine ⟨⟨by omega, within⟩, ?_⟩
        rw [offset_cons, offset_cons, next, Nat.mul_succ]
        omega

/-- There is no step from the index with the last offset. -/
theorem advance_none {shape index : List Nat} (h : Within shape index)
    (stop : advance shape index = none) : offset shape index + 1 = volume shape := by
  induction shape generalizing index with
  | nil => rfl
  | cons d ds ih =>
    cases index with
    | nil => cases h
    | cons i is =>
      unfold advance at stop
      split at stop
      · cases stop
      · next last =>
        have rest := ih h.2 (Option.map_eq_none_iff.mp stop)
        have first : i < d := h.1
        rw [offset_cons, volume, ← rest, Nat.mul_succ]
        omega

theorem length_visit {shape index : List Nat} (h : Within shape index)
    (visited : List (List Nat)) :
    (visit shape index visited).length =
      visited.length + (volume shape - offset shape index) := by
  fun_induction visit with
  | case1 index visited stop =>
    rw [← advance_none h stop, List.length_reverse, List.length_cons]
    omega
  | case2 index visited next step ih =>
    obtain ⟨within, offset⟩ := advance_some h step
    have lt := offset_lt within
    rw [ih within, offset, List.length_cons]
    omega

theorem volume_eq_zero {shape : List Nat} (h : 0 ∈ shape) : volume shape = 0 := by
  induction shape with
  | nil => simp at h
  | cons d ds ih =>
    rcases List.mem_cons.mp h with h | h
    · simp [volume, ← h]
    · simp [volume, ih h]

theorem length_enumerate (shape : List Nat) : (enumerate shape).length = volume shape := by
  induction shape with
  | nil => rfl
  | cons d ds ih =>
    simp only [enumerate, List.length_flatMap, List.length_map, List.length_range, volume]
    rw [List.map_const', List.sum_replicate_nat, ih, Nat.mul_comm]

/-- The index of zeros is the first one. -/
theorem within_zeros {shape : List Nat} (axes : 0 ∉ shape) :
    Within shape (shape.map fun _ => 0) ∧ offset shape (shape.map fun _ => 0) = 0 := by
  induction shape with
  | nil => exact ⟨trivial, rfl⟩
  | cons d ds ih =>
    obtain ⟨first, rest⟩ := not_or.mp (mt List.mem_cons.mpr axes)
    obtain ⟨within, offset⟩ := ih rest
    refine ⟨⟨Nat.pos_of_ne_zero (Ne.symm first), within⟩, ?_⟩
    rw [List.map_cons, offset_cons, offset, Nat.mul_zero]

/-- There are as many indices as cells. -/
theorem length_indices (shape : List Nat) : (indices shape).length = volume shape := by
  unfold indices
  split
  · next empty =>
    rw [volume_eq_zero (by simpa using empty)]
    rfl
  · next axes =>
    obtain ⟨within, offset⟩ := within_zeros (by simpa using axes)
    rw [length_visit within, offset, List.length_nil, Nat.zero_add, Nat.sub_zero]

theorem volume_append (s t : List Nat) : volume (s ++ t) = volume s * volume t := by
  induction s with
  | nil => simp [volume]
  | cons d ds ih => simp [volume, ih, Nat.mul_assoc]

end Shape

/-! ## Runs through the indices -/

/-- A run through the indices of a shape: the index that comes next, unless the run is done. -/
structure Odometer where
  shape : List Nat
  current : List Nat
  done : Bool
deriving DecidableEq, Repr

namespace Odometer

/-- A run starts at the index of zeros, and is done at once when some axis is empty. -/
def start (shape : List Nat) : Odometer := ⟨shape, shape.map fun _ => 0, shape.contains 0⟩

/-- Moves the positions on, one axis after the other: an axis without a further position goes back
to zero.  The run is done when all of them do. -/
def turn : List Nat → List Nat → List Nat × Bool
  | d :: ds, i :: is =>
    if i + 1 < d then ((i + 1) :: is, false)
    else
      let (rest, done) := turn ds is
      (0 :: rest, done)
  | _, index => (index, true)

/-- The next index and the rest of the run. -/
def next? (run : Odometer) : Option (List Nat × Odometer) :=
  if run.done then none
  else
    let (current, done) := turn run.shape run.current
    some (run.current, ⟨run.shape, current, done⟩)

/-- The positions move on as the index of the loop does. -/
theorem turn_some {shape index next : List Nat} (step : Shape.advance shape index = some next) :
    turn shape index = (next, false) := by
  induction shape generalizing index next with
  | nil => cases step
  | cons d ds ih =>
    cases index with
    | nil => cases step
    | cons i is =>
      unfold Shape.advance at step
      unfold turn
      split at step
      · next moves =>
        rw [if_pos moves, Option.some.inj step]
      · next last =>
        obtain ⟨rest, carried, rfl⟩ := Option.map_eq_some_iff.mp step
        rw [if_neg last, ih carried]

theorem turn_none {shape index : List Nat} (stop : Shape.advance shape index = none) :
    (turn shape index).2 = true := by
  induction shape generalizing index with
  | nil => rfl
  | cons d ds ih =>
    cases index with
    | nil => rfl
    | cons i is =>
      unfold Shape.advance at stop
      unfold turn
      split at stop
      · cases stop
      · next last =>
        rw [if_neg last]
        exact ih (Option.map_eq_none_iff.mp stop)

/-- No fewer than the indices that the run still meets. -/
def ahead (run : Odometer) : Nat :=
  if run.done then 0 else Shape.ahead run.shape run.current + 1

theorem ahead_next? {run after : Odometer} {index : List Nat}
    (step : run.next? = some (index, after)) : after.ahead < run.ahead := by
  unfold next? at step
  split at step
  · cases step
  · next more =>
    obtain ⟨-, rfl⟩ := Prod.mk.inj (Option.some.inj step)
    unfold ahead
    rw [if_neg more]
    cases moved : Shape.advance run.shape run.current with
    | some next =>
      rw [turn_some moved]
      exact Nat.succ_lt_succ (Shape.ahead_advance moved)
    | none =>
      rw [if_pos (turn_none moved)]
      exact Nat.succ_pos _

/-- The indices that a run meets until it is done; those before were met, the last one first. -/
@[semireducible]
def collect (run : Odometer) (met : List (List Nat)) : List (List Nat) :=
  match _step : run.next? with
  | none => met.reverse
  | some (index, after) => collect after (index :: met)
termination_by run.ahead
decreasing_by exact ahead_next? _step

/-- All indices of a shape, as a run meets them. -/
def toList (shape : List Nat) : List (List Nat) := (start shape).collect []

end Odometer

end FiniteStructures
