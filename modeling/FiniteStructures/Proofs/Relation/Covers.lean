import FiniteStructures.Poset
import FiniteStructures.Proofs.Contraction.Needs
import FiniteStructures.Proofs.Relation.Closure
import Mathlib.Data.Set.Card

/-!
The covers of a partial order are its Hasse diagram.  Between two related elements there are
finitely many others, so by induction on their number a walk of covers leads from the one to the
other,

    P x y    some walk in Covered P leads from x to y       (Orders.walk)

and no step of it can be left out: a walk between x and a cover y in any part of P has the step
itself (`Orders.step`).  A relation that was accepted as an order could be composed with itself, so
there is room for all of this (`orders_of_accepted`).
-/

namespace FiniteStructures

/-! ## Covers in an order -/

section Covers

variable {n : Nat} {P R : Nat → Nat → Prop} {x y z : Nat}

/-- A partial order of the numbers below `n`. -/
structure Orders (n : Nat) (P : Nat → Nat → Prop) : Prop where
  inside : ∀ x y, P x y → x < n ∧ y < n
  refl : ∀ x < n, P x x
  antisymm : ∀ x y, P x y → P y x → x = y
  trans : ∀ x y z, P x y → P y z → P x z

/-- Related and not equal. -/
def Strictly (P : Nat → Nat → Prop) (x y : Nat) : Prop := P x y ∧ x ≠ y

/-- The elements strictly between two others. -/
def between (P : Nat → Nat → Prop) (x y : Nat) : Set Nat := {w | Strictly P x w ∧ Strictly P w y}

/-- Strictly related with nothing strictly between. -/
def Covered (P : Nat → Nat → Prop) (x y : Nat) : Prop :=
  Strictly P x y ∧ ¬ ∃ z, Strictly P x z ∧ Strictly P z y

namespace Orders

theorem strictly_trans (order : Orders n P) (first : Strictly P x y) (second : Strictly P y z) :
    Strictly P x z := by
  refine ⟨order.trans x y z first.1 second.1, ?_⟩
  rintro rfl
  exact first.2 (order.antisymm x y first.1 second.1)

theorem finite_between (order : Orders n P) (x y : Nat) : (between P x y).Finite :=
  (Set.finite_lt_nat n).subset fun w here => (order.inside x w here.1.1).2

/-- Fewer elements lie between if one of them becomes an end. -/
theorem ncard_between_lt (order : Orders n P) (first : Strictly P x z) (second : Strictly P z y) :
    (between P x z).ncard < (between P x y).ncard ∧
      (between P z y).ncard < (between P x y).ncard := by
  constructor
  · refine Set.ncard_lt_ncard ((Set.ssubset_iff_of_subset fun w here => ?_).mpr
      ⟨z, ⟨first, second⟩, fun here => here.2.2 rfl⟩) (order.finite_between x y)
    exact ⟨here.1, order.strictly_trans here.2 second⟩
  · refine Set.ncard_lt_ncard ((Set.ssubset_iff_of_subset fun w here => ?_).mpr
      ⟨z, ⟨first, second⟩, fun here => here.1.2 rfl⟩) (order.finite_between x y)
    exact ⟨order.strictly_trans first here.1, here.2⟩

/-- Related elements are joined by covers. -/
theorem walk (order : Orders n P) (related : P x y) : ∃ k, Walk (Covered P) k x y := by
  -- the induction is on the number of elements strictly between
  induction count : (between P x y).ncard using Nat.strong_induction_on generalizing x y with
  | _ m ih =>
    by_cases same : x = y
    · exact ⟨0, fun _ => x, rfl, same, nofun⟩
    · by_cases direct : ∃ z, Strictly P x z ∧ Strictly P z y
      · obtain ⟨z, first, second⟩ := direct
        obtain ⟨before, after⟩ := order.ncard_between_lt first second
        obtain ⟨j, left⟩ := ih _ (count ▸ before) first.1 rfl
        obtain ⟨k, right⟩ := ih _ (count ▸ after) second.1 rfl
        exact ⟨j + k, left.append right⟩
      · exact ⟨1, walk_one.mpr ⟨⟨related, same⟩, direct⟩⟩

/-- The ends of a walk in a part of the order are related. -/
theorem of_walk (order : Orders n P) (sub : ∀ x y, R x y → P x y) {k : Nat} (walk : Walk R k x y)
    (inside : x < n) : P x y := by
  by_cases none : k = 0
  · subst none
    obtain ⟨w, rfl, rfl, -⟩ := walk
    exact order.refl _ inside
  · exact (walk.mono sub).collapse order.trans (by omega)

/-- A walk to a cover, in a part of the order, has the cover as a step. -/
theorem step (order : Orders n P) (sub : ∀ x y, R x y → P x y) (covered : Covered P x y) {k : Nat}
    (walk : Walk R k x y) : R x y := by
  induction k with
  | zero =>
    obtain ⟨w, rfl, rfl, -⟩ := walk
    exact absurd rfl covered.1.2
  | succ k ih =>
    rw [Nat.add_comm] at walk
    obtain ⟨z, first, rest⟩ := walk.split
    have step : R x z := walk_one.mp first
    by_cases stays : x = z
    · subst stays
      exact ih rest
    · by_cases last : z = y
      · rwa [← last]
      · have related : P z y := order.of_walk sub rest (order.inside x z (sub x z step)).2
        exact absurd ⟨z, ⟨sub x z step, stays⟩, related, last⟩ covered.2

end Orders

/-- The covers of the converse are the converse of the covers. -/
theorem covered_converse : Covered (fun x y => P y x) x y ↔ Covered P y x := by
  unfold Covered Strictly
  simp only [ne_comm, and_comm]

end Covers

namespace Relation

open Outcome Tensor

variable {safe : Prop} {n : Nat} {r s : Relation Bool} {P Q : Nat → Nat → Prop}

/-! ## Closures that have room -/

/-- A property of numbers below `n` only is that of the related ones. -/
theorem Pairs.relates (h : Pairs n P r) (inside : ∀ x y, P x y → x < n ∧ y < n) {x y : Nat} :
    r.Relates x y ↔ P x y := by
  constructor
  · intro related
    obtain ⟨hx, hy⟩ := related.lt h.shape_eq
    exact (h.holds x hx y hy).mp related
  · intro here
    obtain ⟨hx, hy⟩ := inside x y here
    exact (h.holds x hx y hy).mpr here

/-- Binary relations that could be composed have room for other compositions. -/
theorem Pairs.spacious_of_compose (hr : Pairs n P r) (hs : Pairs n Q s) {u : Relation Bool}
    (run : r.compose s = .ok u) : Shape.Spacious n 3 := by
  rw [hr.compose_eq hs] at run
  obtain ⟨t, queried, -⟩ := bind_ok run
  have shapes : ∀ e ∈ [(r.tensor, ['a', 'c']), (s.tensor, ['c', 'b'])],
      e.1.shape = List.replicate e.2.length n := by
    intro e he
    rcases List.mem_pair.mp he with rfl | rfl
    · exact hr.shape_eq
    · exact hs.shape_eq
  have stored := Contraction.storable_of_query shapes rfl rfl queried
  exact Shape.spacious_of_storable (by decide) stored

/-- An order is tested by composing it with itself. -/
theorem Pairs.spacious_of_isPartialOrder (hr : Pairs n P r) {b : Bool}
    (run : r.isPartialOrder = .ok b) : Shape.Spacious n 3 := by
  obtain ⟨reflexive, -, rest⟩ := bind_ok run
  obtain ⟨antisymmetric, -, rest⟩ := bind_ok rest
  obtain ⟨transitive, tested, -⟩ := bind_ok rest
  unfold Relation.isTransitive at tested
  rw [hr.requireArity] at tested
  obtain ⟨-, -, compared⟩ := bind_ok tested
  obtain ⟨u, composed, -⟩ := bind_ok compared
  exact hr.spacious_of_compose hr composed

theorem Pairs.reflexiveClosure (hr : Pairs n P r) (room : safe → Shape.Spacious n 2) :
    Yields safe (Pairs n fun x y => P x y ∨ x = y) r.reflexiveClosure := by
  unfold Relation.reflexiveClosure
  rw [hr.requireArity, hr.size]
  exact (yields_equal room).bind fun u hu => hr.union hu

/-- The reflexive closure of the transitive closure relates the ends of all walks. -/
theorem yields_closure (shape : r.tensor.shape = [n, n]) (room : safe → Shape.Spacious n 3) :
    Yields safe (Pairs n fun x y => ∃ k, Walk r.Relates k x y)
      (r.transitiveClosure >>= fun c => c.reflexiveClosure) := by
  refine (yields_walks shape room).bind fun c hc => ?_
  refine (hc.reflexiveClosure fun hs => (room hs).mono (by decide)).mono fun d hd => hd.congr ?_
  intro x _ y _
  constructor
  · rintro (⟨k, -, walk⟩ | rfl)
    · exact ⟨k, walk⟩
    · exact ⟨0, fun _ => x, rfl, rfl, nofun⟩
  · rintro ⟨k, walk⟩
    by_cases none : k = 0
    · subst none
      obtain ⟨w, rfl, rfl, -⟩ := walk
      exact .inr rfl
    · exact .inl ⟨k, by omega, walk⟩

end Relation

namespace Poset

open Outcome FiniteStructures.Relation

variable {safe : Prop} {n : Nat} {p : Poset Bool} {P : Nat → Nat → Prop}

/-! ## The diagram -/

theorem yields_strict (hp : Pairs n P p.relation) (room : safe → Shape.Spacious n 2) :
    Yields safe (Pairs n (Strictly P)) (p.strict : Outcome (Relation Bool)) := by
  unfold strict Poset.size
  rw [hp.size]
  refine (yields_equal room).bind fun eq heq => ?_
  obtain ⟨apart, run, hapart⟩ := heq.complement
  rw [run]
  exact hp.intersect hapart

theorem yields_covers (hp : Pairs n P p.relation) (inside : ∀ x y, P x y → x < n ∧ y < n)
    (room : safe → Shape.Spacious n 3) :
    Yields safe (Pairs n (Covered P)) (p.covers : Outcome (Relation Bool)) := by
  unfold covers
  refine (yields_strict hp fun hs => (room hs).mono (by decide)).bind fun strict hstrict => ?_
  refine (hstrict.compose hstrict room).bind fun between hbetween => ?_
  obtain ⟨direct, run, hdirect⟩ := hbetween.complement
  rw [run]
  refine (hstrict.intersect hdirect).mono fun c hc => hc.congr fun x _ y _ => ?_
  refine and_congr_right fun _ => not_congr (exists_congr fun z => ?_)
  exact and_iff_right_of_imp fun ⟨first, _⟩ => (inside x z first.1).2

/-- What is accepted is a partial order, and there is room to compose it. -/
theorem orders_of_accepted {t : Tensor Bool} (accepted : ofTable t = .ok p) :
    ∃ n, p.relation.tensor.shape = [n, n] ∧ Orders n p.relation.Relates ∧ Shape.Spacious n 3 := by
  obtain ⟨r, wrapped, rest⟩ := bind_ok accepted
  obtain ⟨q, binary, tested⟩ := bind_ok rest
  obtain ⟨b, run, given⟩ := bind_ok tested
  obtain ⟨rfl, rfl⟩ : b = true ∧ q = p := by
    cases b with
    | false => cases given
    | true => exact ⟨rfl, Except.ok.inj given⟩
  obtain ⟨rfl, k, n, shape⟩ := uniform_of_ofTensor wrapped
  unfold ofRelation at binary
  split at binary
  · cases binary
  · next two =>
    obtain rfl := Except.ok.inj binary
    rw [not_not, arity_of_shape shape] at two
    obtain rfl : k = 1 := by omega
    have pairs : Pairs n _ ⟨t⟩ := pairs_self shape
    have laws : Yields False _ _ := pairs.isPartialOrder nofun
    obtain ⟨refl, antisymm, trans⟩ := (laws.of_ok run).mp rfl
    have room := pairs.spacious_of_isPartialOrder run
    refine ⟨n, shape, ⟨fun x y h => h.lt shape, refl, ?_, ?_⟩, room⟩
    · intro x y first second
      obtain ⟨hx, hy⟩ := first.lt shape
      exact antisymm x hx y hy first second
    · intro x y z first second
      exact trans x (first.lt shape).1 z (second.lt shape).2 y (first.lt shape).2 first second

theorem exists_walk_covered {c : Relation Bool} (order : Orders n P)
    (covers : ∀ x y, c.Relates x y ↔ Covered P x y) {x y : Nat} (inside : x < n) :
    (∃ k, Walk c.Relates k x y) ↔ P x y := by
  constructor
  · rintro ⟨k, walk⟩
    exact order.of_walk (fun x y h => ((covers x y).mp h).1.1) walk inside
  · intro related
    obtain ⟨k, walk⟩ := order.walk related
    exact ⟨k, walk.mono fun x y h => (covers x y).mpr h⟩

/-- The reflexive-transitive closure of the covers is the order. -/
theorem closure_covers {r c : Relation Bool} (order : Orders n P) (hr : Pairs n P r)
    (hc : Pairs n (Covered P) c) (room : Shape.Spacious n 3) :
    (do (← c.transitiveClosure).reflexiveClosure) = .ok r := by
  have covers (x y : Nat) : c.Relates x y ↔ Covered P x y :=
    hc.relates fun x y h => order.inside x y h.1.1
  obtain ⟨d, ran, hd⟩ := (yields_closure hc.shape_eq fun _ => room).of_safe trivial
  refine ran.trans (congrArg Except.ok ?_)
  refine (hd.congr fun x hx y _ => ?_).unique hr
  exact exists_walk_covered order covers hx

/-- A relation with the order as its reflexive-transitive closure contains the covers. -/
theorem relates_of_covered {r s : Relation Bool} (order : Orders n P) (hr : Pairs n P r)
    (binary : s.tensor.shape = [n, n])
    (generates : (do (← s.transitiveClosure).reflexiveClosure) = .ok r) {x y : Nat}
    (covered : Covered P x y) : s.Relates x y := by
  have walks : Yields False _ _ := yields_closure binary nofun
  have closure (x y : Nat) (hx : x < n) (hy : y < n) : P x y ↔ ∃ k, Walk s.Relates k x y :=
    (hr.holds x hx y hy).symm.trans ((walks.of_ok generates).holds x hx y hy)
  have sub (x y : Nat) (h : s.Relates x y) : P x y := by
    obtain ⟨hx, hy⟩ := h.lt binary
    exact (closure x y hx hy).mpr ⟨1, walk_one.mpr h⟩
  obtain ⟨hx, hy⟩ := order.inside x y covered.1.1
  obtain ⟨k, walk⟩ := (closure x y hx hy).mp covered.1.1
  exact order.step sub covered walk

/-- The covers of the opposite order are the opposite pairs. -/
theorem covers_invert {c : Relation Bool} (order : Orders n P) (hp : Pairs n P p.relation)
    (hc : Pairs n (Covered P) c) (room : Shape.Spacious n 3) :
    ∃ q d, p.invert = .ok q ∧ q.covers = .ok d ∧ c.revert = .ok d ∧
      ∀ x y, d.Relates x y ↔ Covered P y x := by
  have small : Shape.Spacious n 2 := room.mono (by decide)
  obtain ⟨u, reverted, hu⟩ := (hp.revert fun _ => small).of_safe trivial
  obtain ⟨d, run, hd⟩ := (yields_covers (p := ⟨u⟩) hu
    (fun x y h => (order.inside y x h).symm) fun _ => room).of_safe trivial
  obtain ⟨e, turned, he⟩ := (hc.revert fun _ => small).of_safe trivial
  obtain rfl : e = d := he.unique (hd.congr fun x _ y _ => covered_converse)
  refine ⟨⟨u⟩, e, ?_, run, turned, fun x y => ?_⟩
  · unfold invert
    rw [reverted]
    rfl
  · exact he.relates fun x y h => (order.inside y x h.1.1).symm

/-- The covers of an accepted order are its Hasse diagram: pairs x < y with nothing strictly
between.  Their reflexive-transitive closure is the order, every relation with this closure contains
them, and the covers of the opposite order are the opposite pairs.  Nothing here leaves its range. -/
theorem covers_hasse {t : Tensor Bool} (accepted : ofTable t = .ok p) :
    ∃ n c, p.size = .ok n ∧ p.covers = .ok c ∧
      (∀ x y, c.Relates x y ↔ Covered p.relation.Relates x y) ∧
      (do (← c.transitiveClosure).reflexiveClosure) = .ok p.relation ∧
      (∀ r : Relation Bool, r.tensor.shape = [n, n] →
        (do (← r.transitiveClosure).reflexiveClosure) = .ok p.relation →
        ∀ x y, c.Relates x y → r.Relates x y) ∧
      ∃ q d, p.invert = .ok q ∧ q.covers = .ok d ∧ c.revert = .ok d ∧
        ∀ x y, d.Relates x y ↔ c.Relates y x := by
  obtain ⟨n, shape, order, room⟩ := orders_of_accepted accepted
  have pairs : Pairs n _ p.relation := pairs_self shape
  obtain ⟨c, run, hc⟩ := (yields_covers pairs order.inside fun _ => room).of_safe trivial
  have covers (x y : Nat) : c.Relates x y ↔ Covered p.relation.Relates x y :=
    hc.relates fun x y h => order.inside x y h.1.1
  refine ⟨n, c, pairs.size, run, covers, closure_covers order pairs hc room, ?_, ?_⟩
  · intro r binary generates x y cover
    exact relates_of_covered order pairs binary generates ((covers x y).mp cover)
  · obtain ⟨q, d, inverted, ran, turned, opposite⟩ := covers_invert order pairs hc room
    exact ⟨q, d, inverted, ran, turned, fun x y => (opposite x y).trans (covers y x).symm⟩

/-- Three numbers in their order. -/
def threeChain : Tensor Bool :=
  ⟨[3, 3], [true, false, false, true, true, false, true, true, true], rfl⟩

/-- The covers of a chain are its neighbours, and not its ends. -/
theorem covers_hasse_chain :
    ofTable threeChain = .ok ⟨⟨threeChain⟩⟩ ∧ ∃ c : Relation Bool,
      covers ⟨⟨threeChain⟩⟩ = .ok c ∧ c.Relates 0 1 ∧ ¬ c.Relates 0 2 := by
  have accepted : ofTable threeChain = .ok ⟨⟨threeChain⟩⟩ := by decide +kernel
  obtain ⟨n, c, -, run, covers, -⟩ := covers_hasse accepted
  refine ⟨accepted, c, run, (covers 0 1).mpr ⟨⟨by decide, by decide⟩, ?_⟩, fun ends => ?_⟩
  · rintro ⟨z, first, second⟩
    have below := (first.1.lt (n := 3) rfl).2
    revert first second
    unfold Strictly
    revert z
    decide
  · exact ((covers 0 2).mp ends).2 ⟨1, ⟨by decide, by decide⟩, by decide, by decide⟩

end Poset

end FiniteStructures
