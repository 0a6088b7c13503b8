import FiniteStructures.Proofs.Relation.Binary
import FiniteStructures.Relation.Closure
import Mathlib.Data.Fintype.Pigeonhole
import Mathlib.Data.Nat.Log

/-!
The transitive closure is the least transitive relation.  A round makes of the walks of at most k steps
those of at most 2k steps, and on n elements no walk needs more than n steps to get from its start to
its end (a cycle back to the start needs all n),

    Reach R k x y      some walk of at least one and at most k steps leads from x to y
    rounds k r         has the pairs with Reach (2 ^ k)                  (yields_rounds)

so ⌈log₂ n⌉ rounds lead to all walks (`Relation.transitiveClosure_least`).  To stop at the first round
that changes nothing makes no difference (`closeUp_eq_rounds`).
-/

namespace FiniteStructures

/-! ## Walks -/

/-- A walk of `k` steps from `x` to `y`. -/
def Walk (R : Nat → Nat → Prop) (k x y : Nat) : Prop :=
  ∃ w : Nat → Nat, w 0 = x ∧ w k = y ∧ ∀ i < k, R (w i) (w (i + 1))

/-- A walk of at least one and at most `k` steps from `x` to `y`. -/
def Reach (R : Nat → Nat → Prop) (k x y : Nat) : Prop :=
  ∃ l, 1 ≤ l ∧ l ≤ k ∧ Walk R l x y

section Walks

variable {R S : Nat → Nat → Prop} {n j k x y z : Nat}

theorem walk_one : Walk R 1 x y ↔ R x y := by
  constructor
  · rintro ⟨w, rfl, rfl, steps⟩
    exact steps 0 Nat.one_pos
  · intro h
    refine ⟨fun i => if i = 0 then x else y, rfl, rfl, ?_⟩
    intro i hi
    obtain rfl : i = 0 := by omega
    exact h

theorem Walk.append (first : Walk R j x y) (second : Walk R k y z) : Walk R (j + k) x z := by
  obtain ⟨v, rfl, hv, steps⟩ := first
  obtain ⟨w, hw, rfl, steps'⟩ := second
  refine ⟨fun i => if i < j then v i else w (i - j), ?_, ?_, ?_⟩
  · by_cases h : 0 < j
    · simp [h]
    · obtain rfl : j = 0 := by omega
      simp [hw, hv]
  · simp
  · intro i hi
    by_cases inside : i + 1 < j
    · simp only [inside, show i < j by omega, if_true]
      exact steps i (by omega)
    · by_cases last : i < j
      · -- the step into the place where the walks meet
        obtain rfl : i + 1 = j := by omega
        have step := steps i (by omega)
        simp only [last, if_true, Nat.lt_irrefl, if_false, Nat.sub_self]
        rwa [hw, ← hv]
      · have later := steps' (i - j) (by omega)
        simp only [last, inside, if_false]
        rwa [show i + 1 - j = i - j + 1 by omega]

theorem Walk.split (h : Walk R (j + k) x z) : ∃ y, Walk R j x y ∧ Walk R k y z := by
  obtain ⟨w, rfl, rfl, steps⟩ := h
  refine ⟨w j, ⟨w, rfl, rfl, fun i hi => steps i (by omega)⟩, fun i => w (j + i), rfl, rfl, ?_⟩
  intro i hi
  exact steps (j + i) (by omega)

theorem Walk.mono (sub : ∀ x y, R x y → S x y) (h : Walk R k x y) : Walk S k x y := by
  obtain ⟨w, hx, hy, steps⟩ := h
  exact ⟨w, hx, hy, fun i hi => sub _ _ (steps i hi)⟩

/-- In a transitive relation, the ends of a walk are related. -/
theorem Walk.collapse (trans : ∀ x y z, R x y → R y z → R x z) (pos : 1 ≤ k) (h : Walk R k x y) :
    R x y := by
  induction k generalizing x with
  | zero => omega
  | succ k ih =>
    rw [Nat.add_comm] at h
    obtain ⟨z, first, rest⟩ := h.split
    by_cases last : k = 0
    · subst last
      exact walk_one.mp (first.append rest)
    · exact trans x z y (walk_one.mp first) (ih (by omega) rest)

/-- Elements after a step are below `n`. -/
theorem Walk.lt (bounded : ∀ x y, R x y → y < n) (pos : 1 ≤ k) (h : Walk R k x y) : y < n := by
  obtain ⟨w, -, rfl, steps⟩ := h
  have last := bounded _ _ (steps (k - 1) (by omega))
  rwa [show k - 1 + 1 = k by omega] at last

/-- A walk of more than `n` steps comes twice to an element after its start, and gets to its end
without the steps between. -/
theorem Walk.shorten (bounded : ∀ x y, R x y → y < n) (long : n < k) (h : Walk R k x y) :
    ∃ l, 1 ≤ l ∧ l < k ∧ Walk R l x y := by
  obtain ⟨w, rfl, rfl, steps⟩ := h
  have below (i : Fin k) : w (i + 1) < n := bounded _ _ (steps i i.isLt)
  obtain ⟨a, b, ne, same⟩ := Fintype.exists_ne_map_eq_of_card_lt
    (fun i : Fin k => (⟨w (i + 1), below i⟩ : Fin n)) (by simpa using long)
  have same : w (a + 1) = w (b + 1) := Fin.mk.inj same
  have cut (a b : Fin k) (lt : a.val < b.val) (same : w (a + 1) = w (b + 1)) :
      ∃ l, 1 ≤ l ∧ l < k ∧ Walk R l (w 0) (w k) := by
    have hb := b.isLt
    have before : Walk R (a + 1) (w 0) (w (a + 1)) :=
      ⟨w, rfl, rfl, fun i hi => steps i (by omega)⟩
    have after : Walk R (k - (b + 1)) (w (b + 1)) (w k) := by
      refine ⟨fun i => w (b + 1 + i), rfl, congrArg w (by omega), ?_⟩
      intro i hi
      exact steps (b + 1 + i) (by omega)
    refine ⟨a + 1 + (k - (b + 1)), by omega, by omega, before.append ?_⟩
    rwa [same]
  rcases Nat.lt_or_gt_of_ne (fun e => ne (Fin.ext e)) with lt | gt
  · exact cut a b lt same
  · exact cut b a gt same.symm

/-- On `n` elements, `n` steps suffice. -/
theorem Walk.reach (bounded : ∀ x y, R x y → y < n) (pos : 1 ≤ k) (h : Walk R k x y) :
    Reach R n x y := by
  induction k using Nat.strong_induction_on with
  | _ k ih =>
    by_cases long : n < k
    · obtain ⟨l, hl, shorter, walk⟩ := h.shorten bounded long
      exact ih l shorter hl walk
    · exact ⟨k, pos, by omega, h⟩

theorem reach_one : Reach R 1 x y ↔ R x y := by
  constructor
  · rintro ⟨l, pos, le, walk⟩
    obtain rfl : l = 1 := by omega
    exact walk_one.mp walk
  · intro h
    exact ⟨1, Nat.le_refl 1, Nat.le_refl 1, walk_one.mpr h⟩

/-- Two walks of at most `k` steps make one of at most `2 * k` steps, and each of these is one of at
most `k` steps or two of them. -/
theorem reach_double (bounded : ∀ x y, R x y → y < n) (pos : 1 ≤ k) :
    (Reach R k x y ∨ ∃ z < n, Reach R k x z ∧ Reach R k z y) ↔ Reach R (k * 2) x y := by
  constructor
  · rintro (⟨l, hl, le, walk⟩ | ⟨z, -, ⟨l, hl, le, walk⟩, l', hl', le', walk'⟩)
    · exact ⟨l, hl, by omega, walk⟩
    · exact ⟨l + l', by omega, by omega, walk.append walk'⟩
  · rintro ⟨l, hl, le, walk⟩
    by_cases short : l ≤ k
    · exact .inl ⟨l, hl, short, walk⟩
    · rw [show l = k + (l - k) by omega] at walk
      obtain ⟨z, first, second⟩ := walk.split
      exact .inr ⟨z, first.lt bounded pos, ⟨k, pos, Nat.le_refl k, first⟩,
        l - k, by omega, by omega, second⟩

/-- At least `n` steps reach what any number of steps does. -/
theorem reach_all (bounded : ∀ x y, R x y → y < n) (enough : n ≤ k) :
    Reach R k x y ↔ ∃ l, 1 ≤ l ∧ Walk R l x y := by
  constructor
  · rintro ⟨l, hl, -, walk⟩
    exact ⟨l, hl, walk⟩
  · rintro ⟨l, hl, walk⟩
    obtain ⟨l', hl', le, walk'⟩ := walk.reach bounded hl
    exact ⟨l', hl', by omega, walk'⟩

end Walks

namespace Relation

open Outcome Tensor

variable {safe : Prop} {n k : Nat} {r c : Relation Bool} {P : Nat → Nat → Prop}

/-! ## Rounds -/

/-- One round adds the compositions of any two pairs. -/
def extend (r : Relation Bool) : Outcome (Relation Bool) := do
  let step ← r.compose r
  r.union step

/-- As many rounds as given, whether or not they change anything. -/
def rounds : (k : Nat) → Relation Bool → Outcome (Relation Bool)
  | 0, r => return r
  | k + 1, r => do rounds k (← extend r)

theorem rounds_fixed (fixed : extend r = .ok r) (k : Nat) : rounds k r = .ok r := by
  induction k with
  | zero => rfl
  | succ k ih =>
    unfold rounds
    rw [fixed]
    exact ih

/-- Rounds after one that changes nothing change nothing. -/
theorem closeUp_eq_rounds (k : Nat) (r : Relation Bool) : closeUp k r = rounds k r := by
  induction k generalizing r with
  | zero => rfl
  | succ k ih =>
    have round : rounds (k + 1) r = (do
        let step ← r.compose r
        let next ← r.union step
        rounds k next) := by
      show (r.compose r >>= fun step => r.union step) >>= rounds k = _
      rw [bind_assoc]
    unfold closeUp
    rw [round]
    cases composed : (r.compose r : Outcome (Relation Bool)) with
    | error e => rfl
    | ok step =>
      cases joined : (r.union step : Outcome (Relation Bool)) with
      | error e =>
        simp only [joined, bind, Except.bind]
      | ok next =>
        simp only [joined, bind, Except.bind]
        by_cases same : next = r
        · subst same
          rw [if_pos rfl]
          refine (rounds_fixed ?_ k).symm
          unfold extend
          rw [composed]
          exact joined
        · rw [if_neg same]
          exact ih next

theorem Pairs.extend (h : Pairs n P r) (room : safe → Shape.Spacious n 3) :
    Yields safe (Pairs n fun x y => P x y ∨ ∃ z < n, P x z ∧ P z y) r.extend :=
  (h.compose h room).bind fun _ hs => h.union hs

/-- Each round doubles the number of steps. -/
theorem yields_rounds (bounded : ∀ x y, P x y → y < n) {steps : Nat} (pos : 1 ≤ steps)
    (h : Pairs n (Reach P steps) r) (room : safe → Shape.Spacious n 3) (k : Nat) :
    Yields safe (Pairs n (Reach P (steps * 2 ^ k))) (rounds k r) := by
  induction k generalizing r steps with
  | zero => exact .of_eq rfl (by rwa [Nat.pow_zero, Nat.mul_one])
  | succ k ih =>
    have round : Yields safe (Pairs n (Reach P (steps * 2))) r.extend :=
      (h.extend room).mono fun _ hs => hs.congr fun _ _ _ _ => reach_double bounded pos
    refine round.bind fun s hs => ?_
    have rest := ih (by omega) hs
    rwa [Nat.mul_assoc, ← Nat.pow_succ'] at rest

/-- One doubles to `n` in ⌈log₂ n⌉ steps. -/
theorem doublings_eq_clog (n : Nat) : doublings n = Nat.clog 2 n := by
  unfold doublings
  split
  · next h => exact (Nat.clog_of_right_le_one h 2).symm
  · next h =>
    apply Nat.le_antisymm
    · have below : n - 1 < 2 ^ Nat.clog 2 n := by
        have := Nat.le_pow_clog (b := 2) (by decide) n
        omega
      have := (Nat.log2_lt (by omega)).mpr below
      omega
    · rw [Nat.clog_le_iff_le_pow (by decide)]
      have := Nat.lt_log2_self (n := n - 1)
      omega

/-! ## The closure -/

/-- The least transitive relation that contains `r`, which relates the ends of walks in `r`, and is
its own closure. -/
structure IsClosure (n : Nat) (r c : Relation Bool) : Prop where
  shape : c.tensor.shape = [n, n]
  contains : ∀ x y, r.Relates x y → c.Relates x y
  transitive : ∀ x y z, c.Relates x y → c.Relates y z → c.Relates x z
  least : ∀ S : Nat → Nat → Prop, (∀ x y z, S x y → S y z → S x z) →
    (∀ x y, r.Relates x y → S x y) → ∀ x y, c.Relates x y → S x y
  walks : ∀ x y, c.Relates x y ↔ ∃ k, 1 ≤ k ∧ Walk r.Relates k x y
  fixed : Yields (Shape.Roomy n 3) (· = c) c.transitiveClosure

/-- What the rounds of the closure lead to. -/
theorem yields_walks (shape : r.tensor.shape = [n, n]) (room : safe → Shape.Spacious n 3) :
    Yields safe (Pairs n fun x y => ∃ k, 1 ≤ k ∧ Walk r.Relates k x y) r.transitiveClosure := by
  have bounded : ∀ x y, r.Relates x y → y < n := fun x y h => (h.lt shape).2
  have start : Pairs n (Reach r.Relates 1) r :=
    (pairs_self shape).congr fun _ _ _ _ => reach_one.symm
  have enough : n ≤ 1 * 2 ^ doublings n := by
    rw [doublings_eq_clog, Nat.one_mul]
    exact Nat.le_pow_clog (by decide) n
  unfold transitiveClosure
  rw [start.requireArity, start.size]
  show Yields _ _ (closeUp (doublings n) r)
  rw [closeUp_eq_rounds]
  refine (yields_rounds bounded (Nat.le_refl 1) start room _).mono fun c hc => hc.congr ?_
  intro x _ y _
  exact reach_all bounded enough

theorem yields_transitiveClosure (shape : r.tensor.shape = [n, n]) :
    Yields (Shape.Roomy n 3) (Pairs n fun x y => ∃ k, 1 ≤ k ∧ Walk r.Relates k x y)
      r.transitiveClosure :=
  yields_walks shape Shape.Roomy.spacious

/-- The walks of a transitive relation are its pairs. -/
theorem walks_of_transitive (trans : ∀ x y z, P x y → P y z → P x z) {x y : Nat} :
    (∃ k, 1 ≤ k ∧ Walk P k x y) ↔ P x y := by
  constructor
  · rintro ⟨k, pos, walk⟩
    exact walk.collapse trans pos
  · intro h
    exact ⟨1, Nat.le_refl 1, walk_one.mpr h⟩

theorem isClosure_of_walks (shape : r.tensor.shape = [n, n])
    (h : Pairs n (fun x y => ∃ k, 1 ≤ k ∧ Walk r.Relates k x y) c) : IsClosure n r c := by
  have walks (x y : Nat) : c.Relates x y ↔ ∃ k, 1 ≤ k ∧ Walk r.Relates k x y := by
    constructor
    · intro holds
      obtain ⟨hx, hy⟩ := holds.lt h.shape_eq
      exact (h.holds x hx y hy).mp holds
    · rintro ⟨k, pos, walk⟩
      have hy : y < n := walk.lt (fun x y h => (h.lt shape).2) pos
      have hx : x < n := by
        obtain ⟨w, rfl, -, steps⟩ := walk
        exact ((steps 0 pos).lt shape).1
      exact (h.holds x hx y hy).mpr ⟨k, pos, walk⟩
  have trans : ∀ x y z, c.Relates x y → c.Relates y z → c.Relates x z := by
    intro x y z first second
    obtain ⟨j, pos, walk⟩ := (walks x y).mp first
    obtain ⟨k, -, walk'⟩ := (walks y z).mp second
    exact (walks x z).mpr ⟨j + k, by omega, walk.append walk'⟩
  refine ⟨h.shape_eq, ?_, trans, ?_, walks, ?_⟩
  · intro x y holds
    exact (walks x y).mpr ⟨1, Nat.le_refl 1, walk_one.mpr holds⟩
  · intro S transS sub x y holds
    obtain ⟨k, pos, walk⟩ := (walks x y).mp holds
    exact (walk.mono sub).collapse transS pos
  · refine (yields_transitiveClosure h.shape_eq).mono fun d hd => ?_
    refine (hd.congr ?_).unique (pairs_self h.shape_eq)
    intro x _ y _
    exact walks_of_transitive trans

/-- The transitive closure of a binary relation on `n` elements is the least transitive relation that
contains it: it relates the ends of walks of at least one step.  At most ⌈log₂ n⌉ rounds lead to it,
none when there is at most one element, and as many rounds without the early end lead to the same;
only where the tensors of a composition do not fit, a size is out of range. -/
theorem transitiveClosure_least (binary : r.tensor.shape = [n, n]) :
    r.transitiveClosure = closeUp (Nat.clog 2 n) r ∧ (n ≤ 1 → r.transitiveClosure = .ok r) ∧
      (∀ k, closeUp k r = rounds k r) ∧
      Yields (Shape.Roomy n 3) (IsClosure n r) r.transitiveClosure := by
  have start := pairs_self binary
  have run : r.transitiveClosure = closeUp (Nat.clog 2 n) r := by
    unfold transitiveClosure
    rw [start.requireArity, start.size, ← doublings_eq_clog]
    rfl
  refine ⟨run, ?_, fun k => closeUp_eq_rounds k r, ?_⟩
  · intro small
    rw [run, Nat.clog_of_right_le_one small]
    rfl
  · exact (yields_transitiveClosure binary).mono fun c hc => isClosure_of_walks binary hc

/-- A cycle through three elements. -/
def threeCycle : Relation Bool :=
  ⟨⟨[3, 3], [false, false, true, true, false, false, false, true, false], rfl⟩⟩

/-- The closure of a cycle leads from an element back to itself, in three steps. -/
theorem transitiveClosure_least_cycle :
    threeCycle.tensor.shape = [3, 3] ∧
      ∃ c, threeCycle.transitiveClosure = .ok c ∧ c.Relates 0 0 := by
  refine ⟨rfl, ?_⟩
  obtain ⟨-, -, -, ⟨c, run, closure⟩ | ⟨narrow, -⟩⟩ :=
    transitiveClosure_least (n := 3) (r := threeCycle) rfl
  · refine ⟨c, run, (closure.walks 0 0).mpr ⟨3, by decide, fun i => i % 3, rfl, rfl, ?_⟩⟩
    decide
  · exact absurd (by decide) narrow

end Relation

end FiniteStructures
