import FiniteStructures.Proofs.Tensor.Permuting
import Mathlib.Algebra.BigOperators.Group.List.Basic
import Mathlib.Algebra.Group.Nat.Defs

/-!
Folding the leading axes.  Each cell of a folded tensor is the aggregate of the cells at the indices
that end with its own, in the order of the store; for products this is

    (t.foldM k prod).get j  =  ∏ i, t.get (i ++ j)         i an index of the first k axes

so the axes can be folded in several steps, and in any order where the product does not mind it:

    t.foldM (a + b) prod                      =  (t.foldM a prod).foldM b prod
    (t.permute (front ++ rest)).foldM k prod  =  t.foldM k prod
-/

namespace FiniteStructures

open Outcome

namespace Tensor

variable {E F M : Type} {s rest front dims axes : List Nat}

/-- The steps compute the aggregate, unless a number leaves its range. -/
def Aggregates (sum : List E → Outcome F) (f : List E → F) : Prop :=
  ∀ l, Yields False (· = f l) (sum l)

/-! ## In steps -/

theorem Reads.unique [Zero E] {t u : Tensor E} {f g : List Nat → E} (ht : Reads s f t)
    (hu : Reads s g u) (same : ∀ index, Shape.Within s index → f index = g index) : t = u := by
  refine ext_get (ht.1.trans hu.1.symm) fun index within => ?_
  rw [get_eq within, get_eq (by rwa [hu.1, ← ht.1])]
  rw [ht.1] at within
  rw [ht.2 index within, hu.2 index within, same index within]

theorem prod_flatMap [Monoid M] {α : Type} (l : List α) (f : α → List M) :
    (l.flatMap f).prod = (l.map fun a => (f a).prod).prod := by
  rw [List.flatMap, List.prod_flatten, List.map_map]
  rfl

/-- The product over the indices of joined shapes is the product over the slow axes of those over
the fast ones. -/
theorem prod_enumerate_append [Monoid M] (s t : List Nat) (f : List Nat → M) :
    ((Shape.enumerate (s ++ t)).map f).prod =
      ((Shape.enumerate t).map fun j =>
        ((Shape.enumerate s).map fun i => f (i ++ j)).prod).prod := by
  rw [Shape.enumerate_append, List.map_flatMap, prod_flatMap]
  simp only [List.map_map]
  rfl

/-- To fold axes in two steps is to fold them at once. -/
theorem foldM_steps [Monoid M] [Zero M] {sum : List M → Outcome M}
    (computes : Aggregates sum List.prod) {t : Tensor M} {s₁ s₂ : List Nat}
    (shape : t.shape = s₁ ++ (s₂ ++ rest))
    (counted : ¬ OutOfRange (t.foldM (s₁.length + s₂.length) sum))
    (counted' : ¬ OutOfRange (t.foldM s₁.length sum >>= fun u => u.foldM s₂.length sum)) :
    ∃ v, t.foldM (s₁.length + s₂.length) sum = .ok v ∧
      (t.foldM s₁.length sum >>= fun u => u.foldM s₂.length sum) = .ok v := by
  have joined : t.shape = (s₁ ++ s₂) ++ rest := by rw [shape, List.append_assoc]
  have once : Yields False _ (t.foldM (s₁ ++ s₂).length sum) :=
    yields_foldM joined computes False.elim
  have first : Yields False _ (t.foldM s₁.length sum) := yields_foldM shape computes False.elim
  rw [List.length_append] at once
  obtain ⟨v, run, hv⟩ := once.of_counted counted
  obtain ⟨u, run', hu⟩ := first.of_counted fun out => counted' (out.bind _)
  rw [run'] at counted' ⊢
  have second : Yields False _ (u.foldM s₂.length sum) := yields_foldM hu.1 computes False.elim
  obtain ⟨w, run'', hw⟩ := second.of_counted counted'
  have same : w = v := by
    refine hw.unique hv fun j within => ?_
    rw [prod_enumerate_append]
    refine congrArg List.prod (List.map_congr_left fun i here => ?_)
    rw [hu.2 _ (Shape.within_append (Shape.mem_enumerate.mp here) within)]
    simp only [List.append_assoc]
  exact ⟨v, run, run''.trans (congrArg _ same)⟩

/-! ## In any order -/

theorem lands_append {s' : List Nat} (lands : Lands s' s front) :
    Lands (s' ++ rest) (s ++ rest) (front ++ List.range' s'.length rest.length) := by
  refine List.rel_append (List.Forall₂.imp (fun d axis size => ?_) lands) ?_
  · rw [List.getElem?_append_left (List.getElem?_eq_some_iff.mp size).1, size]
  · refine List.forall₂_iff_get.mpr ⟨by simp, fun i h₁ h₂ => ?_⟩
    simp [h₁]

theorem pick_append {i j : List Nat} (below : ∀ axis ∈ front, axis < i.length) :
    pick (i ++ j) (front ++ List.range' i.length j.length) = pick i front ++ j := by
  unfold pick
  rw [List.map_append]
  congr 1
  · refine List.map_congr_left fun axis here => ?_
    simp [List.getD_eq_getElem?_getD, List.getElem?_append_left (below axis here)]
  · apply List.ext_getElem
    · simp
    · intro n h₁ h₂
      simp [List.getD_eq_getElem?_getD, h₂]

/-- A permutation of the axes rearranges the indices. -/
theorem enumerate_pick_perm (perm : axes.Perm (List.range dims.length)) :
    ((Shape.enumerate (pick dims (inverse axes))).map (pick · axes)).Perm
      (Shape.enumerate dims) := by
  obtain ⟨length, -, -⟩ := perm_range_iff.mp perm
  have recover {index : List Nat} (within : Shape.Within (pick dims (inverse axes)) index) :
      pick (pick index axes) (inverse axes) = index :=
    inverse_pick (by rwa [within.length, pick, List.length_map, length_inverse, length])
  refine (List.perm_ext_iff_of_nodup ?_ (Shape.nodup_enumerate dims)).mpr fun index => ?_
  · refine List.Nodup.map_on (fun i hi j hj same => ?_) (Shape.nodup_enumerate _)
    rw [← recover (Shape.mem_enumerate.mp hi), ← recover (Shape.mem_enumerate.mp hj), same]
  · rw [List.mem_map, Shape.mem_enumerate]
    constructor
    · rintro ⟨i, hi, rfl⟩
      exact (lands_inverse perm).within (Shape.mem_enumerate.mp hi)
    · intro within
      refine ⟨pick index (inverse axes), ?_, pick_inverse (by rwa [within.length])⟩
      exact Shape.mem_enumerate.mpr ((lands_back perm).within within)

theorem prod_enumerate_pick [CommMonoid M] (perm : axes.Perm (List.range dims.length))
    (f : List Nat → M) :
    ((Shape.enumerate (pick dims (inverse axes))).map fun i => f (pick i axes)).prod =
      ((Shape.enumerate dims).map f).prod := by
  have same := ((enumerate_pick_perm perm).map f).prod_eq
  rwa [List.map_map] at same

theorem perm_leading (perm : front.Perm (List.range s.length)) :
    (front ++ List.range' s.length rest.length).Perm (List.range (s ++ rest).length) := by
  have all : List.range (s ++ rest).length =
      List.range s.length ++ List.range' s.length rest.length := by
    rw [List.length_append, List.range_eq_range', List.range_eq_range', ← List.range'_append_1,
      Nat.zero_add]
  rw [all]
  exact perm.append_right _

/-- The order of the axes that are folded does not matter. -/
theorem foldM_permuted [CommMonoid M] [Zero M] {sum : List M → Outcome M}
    (computes : Aggregates sum List.prod) {t : Tensor M} (shape : t.shape = s ++ rest)
    (perm : front.Perm (List.range s.length)) (counted : ¬ OutOfRange (t.foldM s.length sum))
    (counted' : ¬ OutOfRange (t.permute (front ++ List.range' s.length rest.length) >>=
      fun u => u.foldM s.length sum)) :
    ∃ v, t.foldM s.length sum = .ok v ∧
      (t.permute (front ++ List.range' s.length rest.length) >>=
        fun u => u.foldM s.length sum) = .ok v := by
  have length : (pick s (inverse front)).length = s.length := by
    rw [pick, List.length_map, length_inverse, (perm_range_iff.mp perm).1]
  have lands : Lands (pick s (inverse front) ++ rest) t.shape
      (front ++ List.range' s.length rest.length) := by
    rw [shape, ← length]
    exact lands_append (lands_inverse perm)
  have all : (front ++ List.range' s.length rest.length).Perm (List.range t.order) := by
    rw [order, shape]
    exact perm_leading perm
  rw [permute_eq_reshape all lands (by simp [order, shape, length])] at counted' ⊢
  have plain : Yields False _ (t.foldM s.length sum) := yields_foldM shape computes False.elim
  have moved : Yields False _ (t.reshape _ _) := yields_reshape lands False.elim
  obtain ⟨v, run, hv⟩ := plain.of_counted counted
  obtain ⟨u, run', hu⟩ := moved.of_counted fun out => counted' (out.bind _)
  rw [run'] at counted' ⊢
  have folded : Yields False _ (u.foldM (pick s (inverse front)).length sum) :=
    yields_foldM hu.1 computes False.elim
  rw [length] at folded
  obtain ⟨w, run'', hw⟩ := folded.of_counted counted'
  have same : w = v := by
    refine hw.unique hv fun j within => ?_
    rw [← prod_enumerate_pick perm]
    refine congrArg List.prod (List.map_congr_left fun i here => ?_)
    have inside := Shape.mem_enumerate.mp here
    have below : ∀ axis ∈ front, axis < i.length := by
      rw [inside.length, length]
      exact (perm_range_iff.mp perm).2.2
    have apart := pick_append (j := j) below
    rw [inside.length, within.length, length] at apart
    refine (hu.2 _ (Shape.within_append inside within)).trans ?_
    show t.read (pick (i ++ j) _) = _
    rw [apart]
  exact ⟨v, run, run''.trans (congrArg _ same)⟩

/-! ## Any number of steps, any order -/

/-- Unless a number leaves its range, a fold of `k` axes gives each index the aggregate of the cells
at the indices that end with it, the first axis fastest.  For the product of a monoid, to fold
`a + b` axes is to fold `a` of them and then `b`; for that of a commutative one, the leading axes
may be permuted before they are folded. -/
theorem foldM_aggregates :
    (∀ {E F : Type} (t : Tensor E) (k : Nat) {sum : List E → Outcome F} {f : List E → F},
      k ≤ t.order → Aggregates sum f → ¬ OutOfRange (t.foldM k sum) →
      ∃ u, t.foldM k sum = .ok u ∧ u.shape = t.shape.drop k ∧
        ∀ j, Shape.Within (t.shape.drop k) j → ∃ cells,
          (Shape.indices (t.shape.take k)).map (fun i => t.get (i ++ j)) = cells.map .ok ∧
            u.get j = .ok (f cells)) ∧
    (∀ {M : Type} [Monoid M] (t : Tensor M) (a b : Nat) {sum : List M → Outcome M},
      a + b ≤ t.order → Aggregates sum List.prod → ¬ OutOfRange (t.foldM (a + b) sum) →
      ¬ OutOfRange (t.foldM a sum >>= fun u => u.foldM b sum) →
      ∃ v, t.foldM (a + b) sum = .ok v ∧ (t.foldM a sum >>= fun u => u.foldM b sum) = .ok v) ∧
    ∀ {M : Type} [CommMonoid M] (t : Tensor M) (k : Nat) (front : List Nat)
      {sum : List M → Outcome M}, k ≤ t.order → front.Perm (List.range k) →
      Aggregates sum List.prod → ¬ OutOfRange (t.foldM k sum) →
      ¬ OutOfRange (t.permute (front ++ List.range' k (t.order - k)) >>= fun u => u.foldM k sum) →
      ∃ v, t.foldM k sum = .ok v ∧
        (t.permute (front ++ List.range' k (t.order - k)) >>= fun u => u.foldM k sum) = .ok v := by
  refine ⟨?_, ?_, ?_⟩
  · intro E F t k sum f le computes counted
    have shape : t.shape = t.shape.take k ++ t.shape.drop k := (List.take_append_drop k _).symm
    have length : (t.shape.take k).length = k := List.length_take_of_le le
    have folded : Yields False _ (t.foldM (t.shape.take k).length sum) :=
      yields_aggregates shape computes False.elim
    rw [length] at folded
    rw [Shape.indices_eq_enumerate]
    exact folded.of_counted counted
  · intro M _ t a b sum le computes counted counted'
    let _ : Zero M := ⟨1⟩
    have shape : t.shape =
        t.shape.take a ++ ((t.shape.drop a).take b ++ (t.shape.drop a).drop b) := by
      rw [List.take_append_drop, List.take_append_drop]
    have first : (t.shape.take a).length = a := by simp only [order] at le; simp; omega
    have second : ((t.shape.drop a).take b).length = b := by simp only [order] at le; simp; omega
    have steps := foldM_steps computes shape
    rw [first, second] at steps
    exact steps counted counted'
  · intro M _ t k front sum le perm computes counted counted'
    let _ : Zero M := ⟨1⟩
    have shape : t.shape = t.shape.take k ++ t.shape.drop k := (List.take_append_drop k _).symm
    have first : (t.shape.take k).length = k := List.length_take_of_le le
    have second : (t.shape.drop k).length = t.order - k := by simp [order]
    have permuted := foldM_permuted computes shape (first ▸ perm)
    rw [first, second] at permuted
    exact permuted counted counted'

/-- The lists below each index of the last two axes, and the product of all cells below the last
one: at once, in two steps, and with the two axes exchanged. -/
theorem foldM_aggregates_numbered :
    (∃ u, numbered.foldM 1 (.ok : List Nat → Outcome (List Nat)) = .ok u ∧
      u.get [2, 1] = .ok [10, 11]) ∧
    ∃ v, numbered.foldM 2 (fun l => (.ok l.prod : Outcome Nat)) = .ok v ∧
      (numbered.foldM 1 (fun l => (.ok l.prod : Outcome Nat)) >>=
        fun u => u.foldM 1 (fun l => (.ok l.prod : Outcome Nat))) = .ok v ∧
      (numbered.permute [1, 0, 2] >>=
        fun u => u.foldM 2 (fun l => (.ok l.prod : Outcome Nat))) = .ok v := by
  have computes : Aggregates (fun l => (.ok l.prod : Outcome Nat)) List.prod :=
    fun _ => .of_eq rfl rfl
  obtain ⟨aggregates, steps, permuted⟩ := foldM_aggregates
  constructor
  · obtain ⟨u, run, -, cells⟩ := aggregates numbered 1 (by decide)
      (f := id) (fun _ => .of_eq rfl rfl) (not_outOfRange (by decide +kernel))
    obtain ⟨list, below, got⟩ := cells [2, 1] ⟨by decide, by decide, trivial⟩
    have both : [10, 11] = list := map_ok_injective below
    exact ⟨u, run, both ▸ got⟩
  · obtain ⟨v, once, twice⟩ := steps numbered 1 1 (by decide) computes
      (not_outOfRange (by decide +kernel)) (not_outOfRange (by decide +kernel))
    obtain ⟨w, same, exchanged⟩ := permuted numbered 2 [1, 0] (by decide) (by decide) computes
      (not_outOfRange (by decide +kernel)) (not_outOfRange (by decide +kernel))
    obtain rfl : v = w := Except.ok.inj (once.symm.trans same)
    exact ⟨v, once, twice, exchanged⟩

/-- Below an index of the other axes, an empty axis has no cells, and their product is the unit. -/
example : (⟨[0, 2], [], rfl⟩ : Tensor Nat).foldM 1 (fun l => (.ok l.prod : Outcome Nat)) =
    .ok ⟨[2], [1, 1], rfl⟩ := by rfl

end Tensor

end FiniteStructures
