import FiniteStructures.Proofs.Relation.Joins

/-!
Binary relations by their pairs.  On the numbers below n,

    Pairs n P r     r.tensor.Holds [x, y] ↔ P x y, for all x and y below n

and each operation and each predicate has one lemma that says what it makes of `P`.  Those that build
larger tensors need room for them, or end out of range.
-/

namespace FiniteStructures

namespace Relation

open Outcome Tensor

variable {safe : Prop} {n : Nat} {r s : Relation Bool} {P Q : Nat → Nat → Prop}

/-- The relation is a binary one on the numbers below `n`, with the given pairs. -/
structure Pairs (n : Nat) (P : Nat → Nat → Prop) (r : Relation Bool) : Prop where
  shape_eq : r.tensor.shape = [n, n]
  holds : ∀ x < n, ∀ y < n, (r.tensor.Holds [x, y] ↔ P x y)

/-- A property of pairs as one of indices. -/
def OnPair (P : Nat → Nat → Prop) (index : List Nat) : Prop :=
  P (index.getD 0 0) (index.getD 1 0)

theorem pairs_iff_table : Pairs n P r ↔ Table [n, n] (OnPair P) r.tensor := by
  constructor
  · intro h
    refine ⟨h.shape_eq, ?_⟩
    intro index within
    obtain ⟨x, hx, y, hy, rfl⟩ := Shape.within_pair.mp within
    exact h.holds x hx y hy
  · intro h
    refine ⟨h.shape_eq, ?_⟩
    intro x hx y hy
    exact h.holds [x, y] (Shape.within_pair.mpr ⟨x, hx, y, hy, rfl⟩)

theorem forall_pairs {R : List Nat → Prop} :
    (∀ index, Shape.Within [n, n] index → R index) ↔ ∀ x < n, ∀ y < n, R [x, y] := by
  constructor
  · intro h x hx y hy
    exact h [x, y] (Shape.within_pair.mpr ⟨x, hx, y, hy, rfl⟩)
  · intro h index within
    obtain ⟨x, hx, y, hy, rfl⟩ := Shape.within_pair.mp within
    exact h x hx y hy

theorem Pairs.congr (h : Pairs n P r) (same : ∀ x < n, ∀ y < n, (P x y ↔ Q x y)) : Pairs n Q r :=
  ⟨h.shape_eq, fun x hx y hy => (h.holds x hx y hy).trans (same x hx y hy)⟩

theorem Pairs.unique (hr : Pairs n P r) (hs : Pairs n P s) : r = s := by
  have same := (pairs_iff_table.mp hr).unique (pairs_iff_table.mp hs)
  cases r
  cases s
  exact congrArg Relation.mk same

/-- The pair is in the relation. -/
def Relates (r : Relation Bool) (x y : Nat) : Prop := r.tensor.Holds [x, y]

instance (r : Relation Bool) (x y : Nat) : Decidable (r.Relates x y) :=
  inferInstanceAs (Decidable (r.tensor.Holds [x, y]))

/-- A relation with two coordinates has the pairs that are in it. -/
theorem pairs_self (shape : r.tensor.shape = [n, n]) : Pairs n r.Relates r :=
  ⟨shape, fun _ _ _ _ => Iff.rfl⟩

theorem Relates.lt {x y : Nat} (shape : r.tensor.shape = [n, n]) (h : r.Relates x y) :
    x < n ∧ y < n := by
  have within := Holds.within h
  rw [shape] at within
  exact ⟨within.1, within.2.1⟩

theorem Pairs.size (h : Pairs n P r) : r.size = .ok n := size_of_shape (k := 1) h.shape_eq

theorem Pairs.arity (h : Pairs n P r) : r.arity = 2 := arity_of_shape (k := 2) h.shape_eq

theorem Pairs.requireArity (h : Pairs n P r) : r.requireArity 2 = .ok () := by
  unfold Relation.requireArity
  rw [if_neg (not_not.mpr h.arity)]

/-! ## Constructors -/

theorem yields_binary (holds : Nat → Nat → Bool) (room : safe → Shape.Spacious n 2) :
    Yields safe (Pairs n fun x y => holds x y = true) (binary n holds) := by
  let cell (index : List Nat) : Bool := holds (index.getD 0 0) (index.getD 1 0)
  refine (yields_generate_table (f := cell) (fun hs => (room hs).store) ?_).bind
    fun t ht => .of_eq rfl (pairs_iff_table.mpr ht)
  intro index within
  obtain ⟨x, _, y, _, rfl⟩ := Shape.within_pair.mp within
  show Except.ok (BooleanDomain.constant (holds x y)) = Except.ok (holds x y)
  cases holds x y <;> rfl

theorem yields_equal (room : safe → Shape.Spacious n 2) :
    Yields safe (Pairs n fun x y => x = y) (equal n : Outcome (Relation Bool)) :=
  (yields_binary _ room).mono fun _ h => h.congr fun _ _ _ _ => beq_iff_eq

theorem yields_lessThan (room : safe → Shape.Spacious n 2) :
    Yields safe (Pairs n fun x y => x < y) (lessThan n : Outcome (Relation Bool)) :=
  (yields_binary _ room).mono fun _ h => h.congr fun _ _ _ _ => decide_eq_true_iff

/-! ## Operations -/

theorem Pairs.intersect (hr : Pairs n P r) (hs : Pairs n Q s) :
    Yields safe (Pairs n fun x y => P x y ∧ Q x y) (r.intersect s) :=
  (yields_intersect (pairs_iff_table.mp hr) (pairs_iff_table.mp hs)).mono
    fun _ h => pairs_iff_table.mpr h

theorem Pairs.union (hr : Pairs n P r) (hs : Pairs n Q s) :
    Yields safe (Pairs n fun x y => P x y ∨ Q x y) (r.union s) :=
  (yields_union (pairs_iff_table.mp hr) (pairs_iff_table.mp hs)).mono
    fun _ h => pairs_iff_table.mpr h

theorem Pairs.complement (hr : Pairs n P r) :
    ∃ u : Relation Bool, r.complement = .ok u ∧ Pairs n (fun x y => ¬ P x y) u := by
  obtain ⟨u, run, hu⟩ := complement_table (pairs_iff_table.mp hr)
  exact ⟨u, run, pairs_iff_table.mpr hu⟩

/-- The converse. -/
theorem Pairs.revert (hr : Pairs n P r) (room : safe → Shape.Spacious n 2) :
    Yields safe (Pairs n fun x y => P y x) r.revert := by
  have axes : (List.range r.arity).reverse = axesOf (Equiv.swap (0 : Fin 2) 1) := by
    rw [hr.arity]
    rfl
  unfold Relation.revert
  rw [axes]
  refine (Table.permute (k := 2) (pairs_iff_table.mp hr) _ room).bind fun t ht => .of_eq rfl ?_
  refine pairs_iff_table.mpr (ht.congr ?_)
  intro index within
  obtain ⟨x, _, y, _, rfl⟩ := Shape.within_pair.mp within
  rfl

theorem Pairs.compose_eq (hr : Pairs n P r) (hs : Pairs n Q s) : r.compose s = (do
    ofTensor (← Contraction.query SemiringOps.logical
      [(r.tensor, ['a', 'c']), (s.tensor, ['c', 'b'])] ['a', 'b'])) := by
  unfold Relation.compose joinWith
  rw [hr.arity, hs.arity]
  rfl

/-- A composition relates by a middle element. -/
theorem Pairs.compose (hr : Pairs n P r) (hs : Pairs n Q s) (room : safe → Shape.Spacious n 3) :
    Yields safe (Pairs n fun x y => ∃ z < n, P x z ∧ Q z y) (r.compose s) := by
  have composition : Yields safe _ (r.compose s) := yields_compose (a := 2) (b := 2) hr.shape_eq
    hs.shape_eq (by decide) (by decide) (by decide) (by decide) room
  refine composition.mono fun u ⟨shape, holds⟩ => ⟨shape, fun x hx y hy => ?_⟩
  refine (holds [x] [y] ⟨hx, trivial⟩ ⟨hy, trivial⟩).trans ?_
  constructor
  · rintro ⟨z, left, right⟩
    have within := right.within
    rw [hs.shape_eq] at within
    exact ⟨z, within.1, (hr.holds x hx z within.1).mp left, (hs.holds z within.1 y hy).mp right⟩
  · rintro ⟨z, hz, left, right⟩
    exact ⟨z, (hr.holds x hx z hz).mpr left, (hs.holds z hz y hy).mpr right⟩

/-! ## Predicates -/

theorem Pairs.isSubsetOf (hr : Pairs n P r) (hs : Pairs n Q s) :
    Yields safe (fun b => b = true ↔ ∀ x < n, ∀ y < n, P x y → Q x y) (r.isSubsetOf s) :=
  (yields_isSubsetOf (pairs_iff_table.mp hr) (pairs_iff_table.mp hs)).mono
    fun _ h => h.trans forall_pairs

theorem Pairs.isReflexive (hr : Pairs n P r) (room : safe → Shape.Spacious n 2) :
    Yields safe (fun b => b = true ↔ ∀ x < n, P x x) r.isReflexive := by
  have lands : Lands [n] [n, n] [0, 0] := .cons rfl (.cons rfl .nil)
  have diagonal : Yields safe (fun u : Relation Bool => Table [n] (fun i => OnPair P (pick i [0, 0]))
      u.tensor) r.diagonal := by
    unfold Relation.diagonal
    rw [hr.size, hr.arity]
    refine ((pairs_iff_table.mp hr).reshape lands fun hs => ⟨?_, (room hs).strides⟩).bind
      fun t ht => .of_eq rfl ht
    have line : Shape.Spacious n 1 := (room hs).mono (by decide)
    exact line.store
  unfold Relation.isReflexive
  refine diagonal.bind fun u hu => .of_eq rfl (hu.all.trans ?_)
  constructor
  · intro h x hx
    exact h [x] ⟨hx, trivial⟩
  · intro h index within
    match index, within with
    | [x], within => exact h x within.1

theorem Pairs.isTransitive (hr : Pairs n P r) (room : safe → Shape.Spacious n 3) :
    Yields safe (fun b => b = true ↔ ∀ x < n, ∀ y < n, ∀ z < n, P x z → P z y → P x y)
      r.isTransitive := by
  unfold Relation.isTransitive
  rw [hr.requireArity]
  refine (hr.compose hr room).bind fun u hu => (hu.isSubsetOf hr).mono fun b hb => hb.trans ?_
  constructor
  · intro h x hx y hy z hz left right
    exact h x hx y hy ⟨z, hz, left, right⟩
  · rintro h x hx y hy ⟨z, hz, left, right⟩
    exact h x hx y hy z hz left right

theorem Pairs.isAntisymmetric (hr : Pairs n P r) (room : safe → Shape.Spacious n 2) :
    Yields safe (fun b => b = true ↔ ∀ x < n, ∀ y < n, P x y → P y x → x = y)
      r.isAntisymmetric := by
  unfold Relation.isAntisymmetric
  rw [hr.requireArity, hr.size]
  refine (hr.revert room).bind fun v hv => (hr.intersect hv).bind fun both hboth => ?_
  refine (yields_equal room).bind fun eq heq => (hboth.isSubsetOf heq).mono fun b hb => hb.trans ?_
  simp only [and_imp]

theorem Pairs.isTrichotome (hr : Pairs n P r) (room : safe → Shape.Spacious n 2) :
    Yields safe (fun b => b = true ↔ ∀ x < n, ∀ y < n, (P x y ∨ P y x) ∨ x = y)
      r.isTrichotome := by
  unfold Relation.isTrichotome
  rw [hr.requireArity, hr.size]
  refine (hr.revert room).bind fun v hv => (hr.union hv).bind fun either heither => ?_
  refine (yields_equal room).bind fun eq heq => (heither.union heq).bind fun all hall => ?_
  obtain ⟨b, run, hb⟩ := isFull_table (pairs_iff_table.mp hall)
  exact .of_eq run (hb.trans forall_pairs)

theorem Pairs.isPartialOrder (hr : Pairs n P r) (room : safe → Shape.Spacious n 3) :
    Yields safe (fun b => b = true ↔ (∀ x < n, P x x) ∧
        (∀ x < n, ∀ y < n, P x y → P y x → x = y) ∧
        ∀ x < n, ∀ y < n, ∀ z < n, P x z → P z y → P x y) r.isPartialOrder := by
  have small (hs : safe) : Shape.Spacious n 2 := (room hs).mono (by decide)
  unfold Relation.isPartialOrder
  refine (hr.isReflexive small).bind fun a ha => (hr.isAntisymmetric small).bind fun b hb => ?_
  refine (hr.isTransitive room).bind fun c hc => .of_eq rfl ?_
  rw [← ha, ← hb, ← hc]
  simp

/-- The property is a linear order of the numbers below `n`. -/
structure Linear (n : Nat) (P : Nat → Nat → Prop) : Prop where
  refl : ∀ x < n, P x x
  antisymm : ∀ x < n, ∀ y < n, P x y → P y x → x = y
  trans : ∀ x < n, ∀ y < n, ∀ z < n, P x z → P z y → P x y
  total : ∀ x < n, ∀ y < n, (P x y ∨ P y x) ∨ x = y

theorem Pairs.isTotalOrder (hr : Pairs n P r) (room : safe → Shape.Spacious n 3) :
    Yields safe (fun b => b = true ↔ Linear n P) r.isTotalOrder := by
  have small (hs : safe) : Shape.Spacious n 2 := (room hs).mono (by decide)
  unfold Relation.isTotalOrder
  refine (hr.isPartialOrder room).bind fun a ha => (hr.isTrichotome small).bind fun b hb => ?_
  refine .of_eq rfl ?_
  rw [Bool.and_eq_true_iff, ha, hb]
  constructor
  · rintro ⟨⟨refl, antisymm, trans⟩, total⟩
    exact ⟨refl, antisymm, trans, total⟩
  · intro linear
    exact ⟨⟨linear.refl, linear.antisymm, linear.trans⟩, linear.total⟩

end Relation

end FiniteStructures
