import FiniteStructures.Tensor.Stack
import FiniteStructures.Proofs.Tensor.Cells

/-!
Stacks and their parts.  A tensor is the stack of a list of parts when its last axis counts them and
its cells are theirs, one part after another,

    Stacks shape parts t        t.get (i ++ [c])  =  parts[c].get i          (Stacks.get)

so the parts determine the stack (`Stacks.eq`), and the stack its parts (`Stacks.unique`), also
where there are no cells: the last axis still counts the parts.  Unless a number leaves its range,
stacking gives the stack of its parts and splitting the parts of its stack.
-/

namespace FiniteStructures

open Outcome

namespace Tensor

variable {E : Type} {t u : Tensor E} {shape : List Nat} {parts : List (Tensor E)}

/-- The parts have one shape, and lie one after another in the store of the tensor. -/
structure Stacks (shape : List Nat) (parts : List (Tensor E)) (t : Tensor E) : Prop where
  whole : t.shape = shape ++ [parts.length]
  alike : ∀ part ∈ parts, part.shape = shape
  elems : t.elems = parts.flatMap (·.elems)

/-! ## Stack and parts -/

theorem Stacks.eq (ht : Stacks shape parts t) (hu : Stacks shape parts u) : t = u :=
  Tensor.ext (ht.whole.trans hu.whole.symm) (ht.elems.trans hu.elems.symm)

/-- The blocks of the store are the stores of the parts. -/
theorem Stacks.blocks (h : Stacks shape parts t) :
    blocks (Shape.volume shape) parts.length t.elems = parts.map (·.elems) := by
  rw [h.elems]
  exact blocks_flatMap fun part here => by rw [part.length_elems, h.alike part here]

/-- The cells of the stack are those of its parts. -/
theorem Stacks.get (h : Stacks shape parts t) {c : Nat} {part : Tensor E}
    (here : parts[c]? = some part) {index : List Nat} (within : Shape.Within shape index) :
    t.get (index ++ [c]) = part.get index := by
  obtain ⟨lt, rfl⟩ := List.getElem?_eq_some_iff.mp here
  have place : (Shape.enumerate [parts.length])[Shape.offset [parts.length] [c]]? = some [c] :=
    Shape.getElem?_enumerate ⟨lt, trivial⟩
  have last : (Shape.enumerate [parts.length])[c]? = some [c] := by
    simpa [Shape.offset_cons] using place
  have cells := congrArg (·[c]?) (map_blocks h.whole)
  simp only [Shape.volume, Nat.mul_one, h.blocks, List.getElem?_map, here, last, Option.map_some,
    Option.some.injEq] at cells
  rw [← map_get, h.alike _ (List.getElem_mem lt)] at cells
  exact (List.map_inj_left.mp cells index (Shape.mem_enumerate.mpr within)).symm

/-- The parts are read off the stack; how many they are, off its last axis. -/
theorem Stacks.unique {others : List (Tensor E)} (h : Stacks shape parts t)
    (h' : Stacks shape others t) : parts = others := by
  have count : parts.length = others.length := by
    simpa using h.whole.symm.trans h'.whole
  refine List.ext_getElem count fun c lt lt' => ?_
  have fit := h.alike _ (List.getElem_mem lt)
  have fit' := h'.alike _ (List.getElem_mem lt')
  refine ext_get (fit.trans fit'.symm) fun index within => ?_
  rw [fit] at within
  rw [← h.get (List.getElem?_eq_getElem lt) within, ← h'.get (List.getElem?_eq_getElem lt') within]

/-! ## Stacking -/

theorem gather_ok (alike : ∀ part ∈ parts, part.shape = shape) :
    ∃ r, gather shape parts = .ok r ∧ r.1 = parts.flatMap (·.elems) := by
  induction parts with
  | nil => exact ⟨_, rfl, rfl⟩
  | cons part parts ih =>
    obtain ⟨r, rest, cells⟩ := ih fun p hp => alike p (List.mem_cons_of_mem _ hp)
    unfold gather
    rw [dif_pos (alike part List.mem_cons_self), rest]
    exact ⟨_, rfl, congrArg (part.elems ++ ·) cells⟩

/-- The first part of another shape is refused. -/
theorem gather_misfit {part : Tensor E} (first : parts.find? (·.shape ≠ shape) = some part) :
    gather shape parts = .shapes shape part.shape := by
  induction parts with
  | nil => cases first
  | cons p parts ih =>
    unfold gather
    by_cases fit : p.shape = shape
    · rw [dif_pos fit, ih (by simpa [fit] using first)]
      rfl
    · obtain rfl : p = part := by simpa [fit] using first
      rw [dif_neg fit]

theorem yields_concat (alike : ∀ part ∈ parts, part.shape = shape) :
    Yields False (Stacks shape parts) (concatWithShape shape parts) := by
  obtain ⟨r, gathered, cells⟩ := gather_ok alike
  refine (Shape.yields_cells False.elim).bind fun _ _ => ?_
  refine (Count.yields_check False.elim).bind fun _ _ => ?_
  refine (Count.yields_store False.elim).bind fun _ _ => ?_
  rw [gathered]
  exact .of_eq rfl ⟨rfl, alike, cells⟩

theorem concat_misfit {part : Tensor E} (first : parts.find? (·.shape ≠ shape) = some part) :
    concatWithShape shape parts = .shapes shape part.shape ∨
      OutOfRange (concatWithShape shape parts) := by
  refine (Shape.yields_cells False.elim).ends fun _ _ => ?_
  refine (Count.yields_check False.elim).ends fun _ _ => ?_
  refine (Count.yields_store False.elim).ends fun _ _ => .inl ?_
  rw [gather_misfit first]
  rfl

/-- What was stacked is a stack. -/
theorem stacks_of_concat (run : concatWithShape shape parts = .ok u) : Stacks shape parts u := by
  cases misfit : parts.find? (·.shape ≠ shape) with
  | some part =>
    rcases concat_misfit misfit with refused | out
    · rw [refused] at run
      cases run
    · exact absurd run (out.ne_ok u)
  | none => exact (yields_concat (by simpa using misfit)).of_ok run

/-! ## Splitting -/

theorem shape_of_mem_split {count : Nat} {l : List E} {h : l.length = Shape.volume shape * count}
    {part : Tensor E} (here : part ∈ split shape count l h) : part.shape = shape := by
  induction count generalizing l with
  | zero => cases here
  | succ count ih =>
    rcases List.mem_cons.mp here with rfl | here
    · rfl
    · exact ih here

theorem length_split {count : Nat} {l : List E} (h : l.length = Shape.volume shape * count) :
    (split shape count l h).length = count := by
  induction count generalizing l with
  | zero => rfl
  | succ count ih => simp [split, ih]

/-- Nothing is lost between the parts, or after them. -/
theorem flatMap_split {count : Nat} {l : List E} (h : l.length = Shape.volume shape * count) :
    (split shape count l h).flatMap (·.elems) = l := by
  induction count generalizing l with
  | zero => exact (List.eq_nil_of_length_eq_zero (by simpa using h)).symm
  | succ count ih =>
    unfold split
    rw [List.flatMap_cons, ih, List.take_append_drop]

theorem yields_unconcat {count : Nat} (last : t.shape = shape ++ [count]) :
    Yields False (Stacks shape · t) t.unconcat := by
  unfold unconcat
  split
  · next none => simp [last] at none
  · next n some =>
    obtain rfl : n = count := by simpa [last] using some.symm
    obtain rfl : t.shape.dropLast = shape := by simp [last]
    refine (Shape.yields_cells False.elim).bind fun _ _ => ?_
    refine (Count.yields_store False.elim).bind fun _ _ => .of_eq rfl ⟨?_, ?_, ?_⟩
    · rw [length_split, ← last]
    · exact fun part here => shape_of_mem_split here
    · exact (flatMap_split _).symm

/-! ## Both ways -/

theorem unconcat_concat (run : concatWithShape shape parts = .ok u)
    (counted : ¬ OutOfRange u.unconcat) : u.unconcat = .ok parts := by
  have stack := stacks_of_concat run
  obtain ⟨others, apart, same⟩ :=
    (yields_unconcat stack.whole).of_counted counted
  rw [apart, same.unique stack]

theorem concat_unconcat (axis : 1 ≤ t.order)
    (counted : ¬ OutOfRange (t.unconcat >>= concatWithShape t.shape.dropLast)) :
    ∃ parts, t.unconcat = .ok parts ∧ concatWithShape t.shape.dropLast parts = .ok t := by
  have last : t.shape = t.shape.dropLast ++ [t.shape.getLast (List.ne_nil_of_length_pos axis)] :=
    (List.dropLast_append_getLast _).symm
  obtain ⟨parts, apart, stack⟩ :=
    (yields_unconcat last).of_counted fun out => counted (out.bind _)
  rw [apart] at counted
  obtain ⟨u, run, same⟩ := (yields_concat stack.alike).of_counted counted
  exact ⟨parts, apart, by rw [run, same.eq stack]⟩

/-- Unless a number leaves its range, tensors are stacked exactly when all have the given shape, the
first other shape being the one that is refused; the stack is split into just those parts, and has
at `i ++ [c]` the cell of part `c` at `i`.  A tensor with an axis is the stack of what it is split
into.  Where the first part gives the shape, parts that have it are found again too. -/
theorem concat_inverse :
    (∀ (shape : List Nat) (parts : List (Tensor E)), ¬ OutOfRange (concatWithShape shape parts) →
      ((∃ u, concatWithShape shape parts = .ok u) ↔ ∀ part ∈ parts, part.shape = shape) ∧
      (∀ part, parts.find? (·.shape ≠ shape) = some part →
        concatWithShape shape parts = .shapes shape part.shape) ∧
      ∀ u, concatWithShape shape parts = .ok u →
        u.shape = shape ++ [parts.length] ∧
        (¬ OutOfRange u.unconcat → u.unconcat = .ok parts) ∧
        ∀ c part, parts[c]? = some part → ∀ i, Shape.Within shape i →
          ∃ e, part.get i = .ok e ∧ u.get (i ++ [c]) = .ok e) ∧
    (∀ t : Tensor E, 1 ≤ t.order →
      ¬ OutOfRange (t.unconcat >>= concatWithShape t.shape.dropLast) →
      ∃ parts, t.unconcat = .ok parts ∧ concatWithShape t.shape.dropLast parts = .ok t) ∧
    ∀ (first : Tensor E) (rest : List (Tensor E)), (∀ part ∈ rest, part.shape = first.shape) →
      ¬ OutOfRange (concat (first :: rest) >>= unconcat) →
      (concat (first :: rest) >>= unconcat) = .ok (first :: rest) := by
  refine ⟨?_, fun t => concat_unconcat, ?_⟩
  · intro shape parts counted
    refine ⟨⟨?_, ?_⟩, fun part first => (concat_misfit first).resolve_right counted, ?_⟩
    · rintro ⟨u, run⟩
      exact (stacks_of_concat run).alike
    · intro alike
      obtain ⟨u, run, -⟩ := (yields_concat alike).of_counted counted
      exact ⟨u, run⟩
    · intro u run
      have stack := stacks_of_concat run
      refine ⟨stack.whole, unconcat_concat run, ?_⟩
      intro c part here i within
      have fit : part.shape = shape := stack.alike part (List.mem_of_getElem? here)
      obtain ⟨e, -, got⟩ := exists_cell (fit.symm ▸ within)
      exact ⟨e, got, by rw [stack.get here within, got]⟩
  · intro first rest alike counted
    have all : ∀ part ∈ first :: rest, part.shape = first.shape := by simpa using alike
    obtain ⟨u, run, -⟩ := (yields_concat all).of_counted fun out => counted (out.bind _)
    have first : concat (first :: rest) = .ok u := run
    rw [first] at counted ⊢
    exact unconcat_concat run counted

/-- Two rows of two cells. -/
def rows : List (Tensor Nat) := [⟨[2], [10, 11], rfl⟩, ⟨[2], [12, 13], rfl⟩]

/-- Three parts without cells. -/
def hollows : List (Tensor Nat) := List.replicate 3 ⟨[2, 0], [], by decide⟩

/-- The rows are stacked and the stack is split again, as are the parts without cells, of which the
first is refused among rows. -/
theorem concat_inverse_rows :
    (∃ u, concatWithShape [2] rows = .ok u ∧ u.get [1, 1] = .ok 13 ∧
      ∃ parts, u.unconcat = .ok parts ∧ concatWithShape [2] parts = .ok u) ∧
    (concat rows >>= unconcat) = .ok rows ∧
    (∃ u, concatWithShape [2, 0] hollows = .ok u ∧ u.unconcat = .ok hollows) ∧
    concatWithShape [2] (rows ++ hollows) = .shapes [2] [2, 0] := by
  obtain ⟨stacking, splitting, again⟩ := concat_inverse (E := Nat)
  refine ⟨⟨⟨[2, 2], [10, 11, 12, 13], rfl⟩, rfl, ?_, ?_⟩, ?_, ?_, ?_⟩
  · obtain ⟨-, -, stacked⟩ := stacking [2] rows (not_outOfRange (by decide +kernel))
    obtain ⟨-, -, cells⟩ := stacked _ rfl
    obtain ⟨e, old, new⟩ := cells 1 ⟨[2], [12, 13], rfl⟩ rfl [1] ⟨by decide, trivial⟩
    obtain rfl : 13 = e := Except.ok.inj old
    exact new
  · exact splitting _ (by decide) (not_outOfRange (by decide +kernel))
  · exact again _ _ (by decide) (not_outOfRange (by decide +kernel))
  · obtain ⟨alike, -, stacked⟩ := stacking [2, 0] hollows (not_outOfRange (by decide +kernel))
    obtain ⟨u, run⟩ := alike.mpr (by decide)
    obtain ⟨-, apart, -⟩ := stacked u run
    have whole : ⟨[2, 0, 3], [], rfl⟩ = u := Except.ok.inj run
    exact ⟨u, run, apart (not_outOfRange (by subst whole; decide +kernel))⟩
  · have counted : ¬ OutOfRange (concatWithShape [2] (rows ++ hollows)) := by
      rintro (out | out) <;> cases out
    obtain ⟨-, refused, -⟩ := stacking [2] (rows ++ hollows) counted
    exact refused ⟨[2, 0], [], rfl⟩ rfl

end Tensor

end FiniteStructures
