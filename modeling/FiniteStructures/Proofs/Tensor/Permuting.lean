import FiniteStructures.Proofs.Tensor.Reshaping
import FiniteStructures.Proofs.Tensor.Room
import Mathlib.Data.List.Nodup
import Mathlib.Data.List.Perm.Subperm

/-!
What permuting the axes gives.  A permutation of the axes moves every cell, and the inverse one
moves it back,

    (t.permute axes).get y  =  t.get x      where  y[axes[i]] = x[i]
    (t.permute axes).permute (inverse axes)  =  t

Whether the axes are a permutation is found by filling the places of the result one after another,
so a place that an axis of size `vacant` has taken still looks free.  What is refused is just what
does not pass this (`LandsVacant`); only where an axis has the size `vacant`, orders that are no
permutation pass.
-/

namespace FiniteStructures

/-- As many different numbers below a number are all of them. -/
theorem perm_range_iff {l : List Nat} {n : Nat} :
    l.Perm (List.range n) ↔ l.length = n ∧ l.Nodup ∧ ∀ i ∈ l, i < n := by
  constructor
  · intro perm
    refine ⟨by simpa using perm.length_eq, perm.nodup_iff.mpr List.nodup_range, fun i hi => ?_⟩
    exact List.mem_range.mp (perm.mem_iff.mp hi)
  · rintro ⟨length, distinct, below⟩
    have sub : l ⊆ List.range n := fun i hi => List.mem_range.mpr (below i hi)
    exact (List.subperm_of_subset distinct sub).perm_of_length_le (by simp [length])

theorem Shape.dvd_volume {d : Nat} {shape : List Nat} (h : d ∈ shape) : d ∣ Shape.volume shape := by
  induction shape with
  | nil => simp at h
  | cons e ds ih =>
    rcases List.mem_cons.mp h with rfl | h
    · exact Nat.dvd_mul_right d _
    · exact Nat.dvd_trans (ih h) (Nat.dvd_mul_left _ e)

open Outcome

namespace Tensor

variable {E : Type} {t u : Tensor E} {shape dims axes : List Nat}

/-! ## The inverse order -/

/-- The order of the axes that takes each of them back: axis `axes[i]` to place `i`. -/
def inverse (axes : List Nat) : List Nat := (List.range axes.length).map fun axis => axes.idxOf axis

@[simp]
theorem length_inverse (axes : List Nat) : (inverse axes).length = axes.length := by simp [inverse]

theorem pick_inverse {index : List Nat} (perm : axes.Perm (List.range index.length)) :
    pick (pick index (inverse axes)) axes = index := by
  obtain ⟨length, distinct, below⟩ := perm_range_iff.mp perm
  apply List.ext_getElem
  · simp [pick, length]
  · intro i h₁ h₂
    have lt : i < axes.length := by omega
    have inside : axes[i] < axes.length := by
      rw [length]
      exact below _ (List.getElem_mem lt)
    simp [pick, inverse, inside, h₂, List.getD_eq_getElem?_getD, distinct.idxOf_getElem]

theorem inverse_pick {index : List Nat} (perm : axes.Perm (List.range index.length)) :
    pick (pick index axes) (inverse axes) = index := by
  obtain ⟨length, -, -⟩ := perm_range_iff.mp perm
  apply List.ext_getElem
  · simp [pick, length]
  · intro a h₁ h₂
    have here : a ∈ axes := perm.mem_iff.mpr (List.mem_range.mpr h₂)
    have place : axes.idxOf a < axes.length := List.idxOf_lt_length_of_mem here
    simp [pick, inverse, place, h₂, List.getD_eq_getElem?_getD]

theorem inverse_perm {n : Nat} (perm : axes.Perm (List.range n)) :
    (inverse axes).Perm (List.range n) := by
  obtain ⟨length, distinct, below⟩ := perm_range_iff.mp perm
  refine perm_range_iff.mpr ⟨by rw [length_inverse, length], ?_, ?_⟩
  · refine List.Nodup.map_on (fun a ha b _ same => ?_) List.nodup_range
    have here : a ∈ axes := perm.mem_iff.mpr (length ▸ ha)
    exact (List.idxOf_inj here).mp same
  · intro i hi
    obtain ⟨a, ha, rfl⟩ := List.mem_map.mp hi
    rw [← length]
    refine List.idxOf_lt_length_of_mem (perm.mem_iff.mpr ?_)
    rwa [length] at ha

theorem lands_pick (below : ∀ axis ∈ axes, axis < shape.length) :
    Lands shape (pick shape axes) axes := by
  refine List.forall₂_map_left_iff.mpr (List.forall₂_same.mpr fun axis here => ?_)
  simp [List.getD_eq_getElem?_getD, below axis here]

theorem lands_inverse (perm : axes.Perm (List.range dims.length)) :
    Lands (pick dims (inverse axes)) dims axes := by
  obtain ⟨length, -, below⟩ := perm_range_iff.mp perm
  have lands : Lands (pick dims (inverse axes)) (pick (pick dims (inverse axes)) axes) axes := by
    refine lands_pick fun axis here => ?_
    have lt := below axis here
    simp [pick, length, lt]
  rwa [pick_inverse perm] at lands

theorem lands_back (perm : axes.Perm (List.range dims.length)) :
    Lands dims (pick dims (inverse axes)) (inverse axes) :=
  lands_pick fun _ here => List.mem_range.mp ((inverse_perm perm).mem_iff.mp here)

/-! ## Permuted tensors -/

/-- A permutation of the axes moves them to where their sizes are put. -/
theorem permute_eq_reshape (perm : axes.Perm (List.range t.order))
    (lands : Lands shape t.shape axes) (order : shape.length = t.order) :
    t.permute axes = t.reshape shape axes := by
  obtain ⟨length, distinct, -⟩ := perm_range_iff.mp perm
  refine permute_eq lands distinct (fun axis lt => ?_) (by omega)
  exact perm.mem_iff.mpr (List.mem_range.mpr (by omega))

/-- A permutation of the axes is carried out, unless a number leaves its range. -/
theorem exists_permute (perm : axes.Perm (List.range t.order))
    (counted : ¬ OutOfRange (t.permute axes)) :
    ∃ u, t.permute axes = .ok u ∧ u.shape = pick t.shape (inverse axes) ∧
      ∀ index, Shape.Within u.shape index → u.get index = t.get (pick index axes) := by
  obtain ⟨length, -, -⟩ := perm_range_iff.mp perm
  have lands := lands_inverse perm
  have same := permute_eq_reshape perm lands (by simp [pick, length])
  rw [same] at counted ⊢
  obtain ⟨u, run, whole, cells⟩ := exists_reshape lands counted
  exact ⟨u, run, whole, by rwa [whole]⟩

/-- Each cell is found at the index whose positions were moved with the axes. -/
theorem get_permuted (perm : axes.Perm (List.range t.order))
    (whole : u.shape = pick t.shape (inverse axes))
    (cells : ∀ index, Shape.Within u.shape index → u.get index = t.get (pick index axes))
    {x : List Nat} (within : Shape.Within t.shape x) :
    ∃ y e, y.length = t.order ∧ axes.map (y[·]?) = x.map some ∧
      t.get x = .ok e ∧ u.get y = .ok e := by
  obtain ⟨length, -, below⟩ := perm_range_iff.mp perm
  have order : x.length = t.order := within.length
  have back : pick (pick x (inverse axes)) axes = x := pick_inverse (by rwa [order])
  obtain ⟨e, -, got⟩ := exists_cell within
  refine ⟨pick x (inverse axes), e, by simp [pick, length], ?_, got, ?_⟩
  · rw [map_some_pick fun axis here => ?_, back]
    have lt := below axis here
    simp [pick, length, lt]
  · have inside : Shape.Within u.shape (pick x (inverse axes)) := by
      rw [whole]
      exact (lands_back perm).within within
    rw [cells _ inside, back, got]

/-- The inverse order takes every cell back. -/
theorem permute_inverse (perm : axes.Perm (List.range t.order))
    (whole : u.shape = pick t.shape (inverse axes))
    (cells : ∀ index, Shape.Within u.shape index → u.get index = t.get (pick index axes))
    (counted : ¬ OutOfRange (u.permute (inverse axes))) :
    u.permute (inverse axes) = .ok t := by
  obtain ⟨length, -, -⟩ := perm_range_iff.mp perm
  have order : u.order = t.order := by simp [Tensor.order, whole, pick, length]
  have lands : Lands t.shape u.shape (inverse axes) := whole ▸ lands_back perm
  have perm' : (inverse axes).Perm (List.range u.order) := order ▸ inverse_perm perm
  rw [permute_eq_reshape perm' lands order.symm] at counted ⊢
  obtain ⟨v, run, shape, moved⟩ := exists_reshape lands counted
  rw [run, ext_get (shape : v.shape = t.shape) fun index within => ?_]
  rw [shape] at within
  have back : pick (pick index (inverse axes)) axes = index :=
    pick_inverse (by rwa [within.length])
  rw [moved index within, cells _ (lands.within within), back]

/-! ## Refused orders -/

/-- Each axis lands inside, and where two of them land on one place, the first one has a size that
cannot be told from a vacant place. -/
def LandsVacant (dims axes : List Nat) : Prop :=
  (∀ axis ∈ axes, axis < axes.length) ∧
    (dims.zip axes).Pairwise fun p q => p.2 = q.2 → p.1 = vacant

theorem place_isSome {landings : List (Nat × Nat)} :
    (place landings shape).isSome ↔ (∀ p ∈ landings, shape[p.2]? = some vacant) ∧
      landings.Pairwise fun p q => p.2 = q.2 → p.1 = vacant := by
  induction landings generalizing shape with
  | nil => simp [place]
  | cons p landings ih =>
    obtain ⟨d, axis⟩ := p
    unfold place
    by_cases free : shape[axis]? = some vacant
    · have lt : axis < shape.length := (List.getElem?_eq_some_iff.mp free).1
      have next (other : Nat) : (shape.set axis d)[other]? = some vacant ↔
          shape[other]? = some vacant ∧ (axis = other → d = vacant) := by
        by_cases same : axis = other
        · subst same
          simp [List.getElem?_set_self lt, free]
        · simp [List.getElem?_set_ne same, same]
      rw [if_pos free, ih, List.pairwise_cons, List.forall_mem_cons]
      simp only [next, free, true_and, forall_and, and_assoc]
    · simp [free]

theorem landsVacant_iff (length : axes.length = dims.length) :
    LandsVacant dims axes ↔
      (place (dims.zip axes) (List.replicate axes.length vacant)).isSome := by
  have inside : (∀ axis ∈ axes, axis < axes.length) ↔
      ∀ p ∈ dims.zip axes, (List.replicate axes.length vacant)[p.2]? = some vacant := by
    constructor
    · intro below p hp
      rw [List.getElem?_replicate, if_pos (below _ (List.of_mem_zip hp).2)]
    · intro free axis here
      rw [← List.map_snd_zip (Nat.le_of_eq length)] at here
      obtain ⟨p, hp, rfl⟩ := List.mem_map.mp here
      simpa using (List.getElem?_eq_some_iff.mp (free p hp)).1
  rw [place_isSome, LandsVacant, inside]

/-- Where no axis has the size of a vacant place, the orders that pass are the permutations. -/
theorem landsVacant_iff_perm (length : axes.length = dims.length) (told : vacant ∉ dims) :
    LandsVacant dims axes ↔ axes.Perm (List.range dims.length) := by
  have images : (dims.zip axes).map Prod.snd = axes := List.map_snd_zip (Nat.le_of_eq length)
  have distinct : ((dims.zip axes).Pairwise fun p q => p.2 = q.2 → p.1 = vacant) ↔ axes.Nodup := by
    conv => rhs; rw [← images]
    rw [List.Nodup, List.pairwise_map]
    refine ⟨fun h => ?_, fun h => h.imp fun apart same => absurd same apart⟩
    refine h.imp_of_mem fun hp _ passed same => told ?_
    rw [← passed same]
    exact (List.of_mem_zip hp).1
  rw [perm_range_iff, LandsVacant, distinct, length]
  tauto

theorem permute_arity (length : axes.length ≠ t.order) :
    t.permute axes = .arity t.order axes.length := by
  unfold permute
  rw [if_pos length]
  rfl

theorem permute_clash (length : axes.length = t.order) (clash : ¬ LandsVacant t.shape axes) :
    t.permute axes = .fail (.invalid (.axisOrder axes)) := by
  rw [landsVacant_iff length, Option.not_isSome_iff_eq_none] at clash
  unfold permute
  rw [if_neg (not_not.mpr length)]
  simp only [clash]

/-- An order that passes is carried out, if the sizes fit. -/
theorem permute_passing (length : axes.length = t.order) (passes : LandsVacant t.shape axes)
    (counted : ¬ OutOfRange (t.permute axes)) :
    (∃ shape, t.permute axes = .shapes t.shape shape) ∨
      ∃ u, t.permute axes = .ok u ∧ Lands u.shape t.shape axes ∧
        Shape.volume u.shape < Count.storeLimit := by
  rw [landsVacant_iff length, Option.isSome_iff_exists] at passes
  obtain ⟨shape, placed⟩ := passes
  have same : t.permute axes = t.reshape shape axes := by
    unfold permute
    rw [if_neg (not_not.mpr length)]
    simp only [placed]
  rw [same] at counted ⊢
  by_cases lands : Lands shape t.shape axes
  · obtain ⟨u, run, rfl, -⟩ := exists_reshape lands counted
    exact .inr ⟨u, run, lands, Shape.volume_lt_of_storable (storable_of_reshape run)⟩
  · exact .inl ⟨shape, (reshape_misfit length lands).resolve_right counted⟩

theorem Lands.mem {d : Nat} (lands : Lands shape dims axes) (h : d ∈ dims) : d ∈ shape := by
  induction lands with
  | nil => simp at h
  | cons size _ ih =>
    rcases List.mem_cons.mp h with rfl | h
    · exact List.mem_of_getElem? size
    · exact ih h

/-- An order that is none and passes has met axes of size `vacant`: either their sizes do not fit,
or there are no cells to be moved. -/
theorem permute_unseen (length : axes.length = t.order) (passes : LandsVacant t.shape axes)
    (other : ¬ axes.Perm (List.range t.order)) (counted : ¬ OutOfRange (t.permute axes)) :
    (∃ shape, t.permute axes = .shapes t.shape shape) ∨
      ∃ u, t.permute axes = .ok u ∧ u.elems = [] := by
  have blank : vacant ∈ t.shape := by
    by_contra told
    exact other ((landsVacant_iff_perm length told).mp passes)
  refine (permute_passing length passes counted).imp_right ?_
  rintro ⟨u, run, lands, few⟩
  have none : Shape.volume u.shape = 0 :=
    Nat.eq_zero_of_dvd_of_lt (Shape.dvd_volume (lands.mem blank)) (Nat.lt_trans few (by decide))
  exact ⟨u, run, List.eq_nil_of_length_eq_zero (by rw [u.length_elems, none])⟩

/-- Unless a number leaves its range, `permute` is refused for the arity exactly when there is not
one place for each axis, and as no permutation exactly when it sees that two axes land on one place
or one lands outside; if no axis has the size of a vacant place, that is when the places are no
permutation of those of the axes.  A permutation is carried out: axis `i` becomes axis `axes[i]`,
the cell at `x` is found at `y` with `y[axes[i]] = x[i]`, and the inverse permutation gives back the
tensor.  What is no permutation and not seen to be none gives the cells of no index. -/
theorem permute_moves_axes (t : Tensor E) (axes : List Nat)
    (counted : ¬ OutOfRange (t.permute axes)) :
    (t.permute axes = .arity t.order axes.length ↔ axes.length ≠ t.order) ∧
    (t.permute axes = .fail (.invalid (.axisOrder axes)) ↔
      axes.length = t.order ∧ ¬ LandsVacant t.shape axes) ∧
    (vacant ∉ t.shape → (t.permute axes = .fail (.invalid (.axisOrder axes)) ↔
      axes.length = t.order ∧ ¬ axes.Perm (List.range t.order))) ∧
    (axes.Perm (List.range t.order) → ∃ u, t.permute axes = .ok u ∧
      axes.map (u.shape[·]?) = t.shape.map some ∧
      (∀ x, Shape.Within t.shape x →
        ∃ y e, y.length = t.order ∧ axes.map (y[·]?) = x.map some ∧
          t.get x = .ok e ∧ u.get y = .ok e) ∧
      (¬ OutOfRange (u.permute (inverse axes)) → u.permute (inverse axes) = .ok t)) ∧
    (axes.length = t.order → LandsVacant t.shape axes → ¬ axes.Perm (List.range t.order) →
      (∃ shape, t.permute axes = .shapes t.shape shape) ∨
        ∃ u, t.permute axes = .ok u ∧ u.elems = []) := by
  have passing (length : axes.length = t.order) (passes : LandsVacant t.shape axes) (e : Error)
      (refused : t.permute axes = .fail e) : ∃ shape, e = .shapeMismatch t.shape shape := by
    rcases permute_passing length passes counted with ⟨shape, run⟩ | ⟨u, run, -⟩
    · rw [run] at refused
      cases refused
      exact ⟨shape, rfl⟩
    · rw [run] at refused
      cases refused
  have seen : t.permute axes = .fail (.invalid (.axisOrder axes)) ↔
      axes.length = t.order ∧ ¬ LandsVacant t.shape axes := by
    refine ⟨fun refused => ?_, fun ⟨length, clash⟩ => permute_clash length clash⟩
    by_cases length : axes.length = t.order
    · refine ⟨length, fun passes => ?_⟩
      obtain ⟨shape, other⟩ := passing length passes _ refused
      cases other
    · rw [permute_arity length] at refused
      cases refused
  refine ⟨⟨fun refused length => ?_, permute_arity⟩, seen, ?_, ?_, ?_⟩
  · by_cases passes : LandsVacant t.shape axes
    · obtain ⟨shape, other⟩ := passing length passes _ refused
      cases other
    · rw [permute_clash length passes] at refused
      cases refused
  · intro told
    rw [seen]
    exact and_congr_right fun length => not_congr (landsVacant_iff_perm length told)
  · intro perm
    obtain ⟨u, run, whole, cells⟩ := exists_permute perm counted
    refine ⟨u, run, ?_, fun x => get_permuted perm whole cells, permute_inverse perm whole cells⟩
    obtain ⟨length, -, below⟩ := perm_range_iff.mp perm
    rw [map_some_pick fun axis here => ?_, whole, pick_inverse perm]
    have lt := below axis here
    simp [whole, pick, length, lt]
  · intro length passes other
    exact permute_unseen length passes other counted

/-- The cells of `numbered` with its first axis in the middle, its second at the end. -/
def turned : Tensor Nat := ⟨[2, 2, 3], [0, 6, 1, 7, 2, 8, 3, 9, 4, 10, 5, 11], rfl⟩

/-- Three axes are moved around, and back. -/
theorem permute_moves_axes_around :
    ¬ OutOfRange (numbered.permute [1, 2, 0]) ∧ numbered.permute [1, 2, 0] = .ok turned ∧
      turned.get [1, 0, 2] = .ok 10 ∧ ¬ OutOfRange (turned.permute (inverse [1, 2, 0])) ∧
      turned.permute (inverse [1, 2, 0]) = .ok numbered := by
  have run : numbered.permute [1, 2, 0] = .ok turned := by decide +kernel
  have counted : ¬ OutOfRange (numbered.permute [1, 2, 0]) := fun out => out.ne_ok turned run
  have counted' : ¬ OutOfRange (turned.permute (inverse [1, 2, 0])) :=
    not_outOfRange (by decide +kernel)
  obtain ⟨-, -, -, moves, -⟩ := permute_moves_axes numbered [1, 2, 0] counted
  obtain ⟨u, run', -, cells, back⟩ := moves (by decide)
  obtain rfl : turned = u := Except.ok.inj (run.symm.trans run')
  obtain ⟨y, e, order, places, old, new⟩ :=
    cells [0, 2, 1] ⟨by decide, by decide, by decide, trivial⟩
  obtain ⟨a, b, c, rfl⟩ := List.length_eq_three.mp order
  obtain ⟨rfl, rfl, rfl⟩ : b = 0 ∧ c = 2 ∧ a = 1 := by simpa using places
  obtain rfl : 10 = e := Except.ok.inj old
  exact ⟨counted, run, new, counted', back counted'⟩

/-- A tensor without cells whose second and third axis cannot be told from vacant places. -/
def wide : Tensor Nat := ⟨[0, vacant, vacant], [], rfl⟩

/-- Two axes of size `vacant` may land on one place. -/
theorem not_invalid_vacant :
    ¬ OutOfRange (wide.permute [0, 1, 1]) ∧ [0, 1, 1].length = wide.order ∧
      ¬ [0, 1, 1].Perm (List.range wide.order) ∧ wide.permute [0, 1, 1] = .ok wide := by
  have run : wide.permute [0, 1, 1] = .ok wide := by rfl
  exact ⟨fun out => out.ne_ok wide run, rfl, by decide, run⟩

end Tensor

end FiniteStructures
