import FiniteStructures.Proofs.Enumeration.Counting
import FiniteStructures.Proofs.Operation.Identities
import FiniteStructures.Proofs.Relation.Covers

/-!
Commutative semilattices.  An idempotent, commutative and associative operation and an order with
greatest lower bounds are the same thing,

    x ≤ y  ↔  g(x, y) = x          g(x, y) is the greatest lower bound of x and y

so the check accepts exactly the graphs of meets (`semilattices_are_meets`).
-/

namespace FiniteStructures

/-! ## Meets -/

section Meets

variable {n x y z z' : Nat} {P : Nat → Nat → Prop} {g : List Nat → Nat}

/-- The greatest of the lower bounds of two elements. -/
structure IsMeet (P : Nat → Nat → Prop) (x y z : Nat) : Prop where
  left : P z x
  right : P z y
  greatest : ∀ w, P w x → P w y → P w z

theorem IsMeet.symm (h : IsMeet P x y z) : IsMeet P y x z :=
  ⟨h.right, h.left, fun w first second => h.greatest w second first⟩

theorem IsMeet.unique (order : Orders n P) (h : IsMeet P x y z) (h' : IsMeet P x y z') : z = z' :=
  order.antisymm z z' (h'.greatest z h.left h.right) (h.greatest z' h'.left h'.right)

/-- The function is idempotent, commutative and associative on the numbers below `n`. -/
structure Semilattice (n : Nat) (g : List Nat → Nat) : Prop where
  closed : ∀ x < n, ∀ y < n, g [x, y] < n
  idem : ∀ x < n, g [x, x] = x
  comm : ∀ x < n, ∀ y < n, g [x, y] = g [y, x]
  assoc : ∀ x < n, ∀ y < n, ∀ z < n, g [g [x, y], z] = g [x, g [y, z]]

namespace Semilattice

/-- The elements that the function does not change when it meets them with `y`. -/
def Below (n : Nat) (g : List Nat → Nat) (x y : Nat) : Prop := (x < n ∧ y < n) ∧ g [x, y] = x

theorem orders (h : Semilattice n g) : Orders n (Below n g) where
  inside _ _ below := below.1
  refl x hx := ⟨⟨hx, hx⟩, h.idem x hx⟩
  antisymm := by
    rintro x y ⟨⟨hx, hy⟩, xy⟩ ⟨-, yx⟩
    rw [← xy, h.comm x hx y hy, yx]
  trans := by
    rintro x y z ⟨⟨hx, hy⟩, xy⟩ ⟨⟨-, hz⟩, yz⟩
    refine ⟨⟨hx, hz⟩, ?_⟩
    calc g [x, z] = g [g [x, y], z] := by rw [xy]
      _ = g [x, g [y, z]] := h.assoc x hx y hy z hz
      _ = x := by rw [yz, xy]

/-- The function gives the meets of its order. -/
theorem isMeet (h : Semilattice n g) (hx : x < n) (hy : y < n) :
    IsMeet (Below n g) x y (g [x, y]) where
  left := by
    refine ⟨⟨h.closed x hx y hy, hx⟩, ?_⟩
    calc g [g [x, y], x] = g [x, g [x, y]] := h.comm _ (h.closed x hx y hy) x hx
      _ = g [g [x, x], y] := (h.assoc x hx x hx y hy).symm
      _ = g [x, y] := by rw [h.idem x hx]
  right := by
    refine ⟨⟨h.closed x hx y hy, hy⟩, ?_⟩
    calc g [g [x, y], y] = g [x, g [y, y]] := h.assoc x hx y hy y hy
      _ = g [x, y] := by rw [h.idem y hy]
  greatest := by
    rintro w ⟨⟨hw, -⟩, wx⟩ ⟨-, wy⟩
    refine ⟨⟨hw, h.closed x hx y hy⟩, ?_⟩
    calc g [w, g [x, y]] = g [g [w, x], y] := (h.assoc w hw x hx y hy).symm
      _ = w := by rw [wx, wy]

end Semilattice

/-- An element is below another one when it is their meet. -/
theorem Orders.iff_isMeet (order : Orders n P) (hx : x < n) : P x y ↔ IsMeet P x y x :=
  ⟨fun below => ⟨order.refl x hx, below, fun _ first _ => first⟩, IsMeet.right⟩

/-- Meets are idempotent, commutative and associative. -/
theorem Orders.semilattice (order : Orders n P)
    (meets : ∀ x < n, ∀ y < n, IsMeet P x y (g [x, y])) : Semilattice n g := by
  have closed (x : Nat) (hx : x < n) (y : Nat) (hy : y < n) : g [x, y] < n :=
    (order.inside _ x (meets x hx y hy).left).1
  refine ⟨closed, ?_, ?_, ?_⟩
  · intro x hx
    exact (meets x hx x hx).unique order ((order.iff_isMeet hx).mp (order.refl x hx))
  · intro x hx y hy
    exact (meets x hx y hy).unique order (meets y hy x hx).symm
  · intro x hx y hy z hz
    -- either side is the greatest lower bound of all three
    have xy := meets x hx y hy
    have yz := meets y hy z hz
    have xyz := meets _ (closed x hx y hy) z hz
    refine xyz.unique order ?_
    have inner := meets x hx _ (closed y hy z hz)
    refine ⟨?_, ?_, ?_⟩
    · exact xy.greatest _ inner.left (order.trans _ _ _ inner.right yz.left)
    · exact order.trans _ _ _ inner.right yz.right
    · intro w first second
      refine inner.greatest w (order.trans _ _ _ first xy.left) ?_
      exact yz.greatest w (order.trans _ _ _ first xy.right) second

end Meets

/-! ## The check -/

namespace Problem

open Outcome

variable {safe : Prop} {n : Nat} {t : Tensor Bool} {g : List Nat → Nat} {le : Nat → Nat → Prop}

/-- The order of the numbers below `n` has meets, and the tensor is the graph of them. -/
structure MeetsOf (n : Nat) (le : Nat → Nat → Prop) (t : Tensor Bool) : Prop where
  order : Orders n le
  meets : ∀ x < n, ∀ y < n, ∃ z, IsMeet le x y z
  graph : ∀ z < n, ∀ x < n, ∀ y < n, (t.Holds [z, x, y] ↔ IsMeet le x y z)

theorem forall_arguments {Q : List Nat → Prop} :
    (∀ args, Shape.Within (List.replicate 2 n) args → Q args) ↔ ∀ x < n, ∀ y < n, Q [x, y] := by
  constructor
  · intro h x hx y hy
    exact h [x, y] ⟨hx, hy, trivial⟩
  · intro h args within
    obtain ⟨x, hx, y, hy, rfl⟩ := Shape.within_pair.mp within
    exact h x hx y hy

/-- A tensor of meets computes them. -/
theorem MeetsOf.exists_computes (h : MeetsOf n le t) (shape : t.shape = [n, n, n]) :
    ∃ g, Operation.Computes 2 n g ⟨t⟩ ∧ ∀ x < n, ∀ y < n, IsMeet le x y (g [x, y]) := by
  have values (args : List Nat) : ∃ z, Shape.Within (List.replicate 2 n) args →
      IsMeet le (args.getD 0 0) (args.getD 1 0) z := by
    by_cases within : Shape.Within (List.replicate 2 n) args
    · obtain ⟨x, hx, y, hy, rfl⟩ := Shape.within_pair.mp within
      obtain ⟨z, meet⟩ := h.meets x hx y hy
      exact ⟨z, fun _ => meet⟩
    · exact ⟨0, fun within' => absurd within' within⟩
  choose g least using values
  have meets (x : Nat) (hx : x < n) (y : Nat) (hy : y < n) : IsMeet le x y (g [x, y]) :=
    least [x, y] ⟨hx, hy, trivial⟩
  refine ⟨g, ⟨⟨shape, fun v lt => ?_⟩, ?_⟩, meets⟩
  · refine forall_arguments.mpr fun x hx y hy => (h.graph v lt x hx y hy).trans ?_
    constructor
    · intro meet
      exact meet.unique h.order (meets x hx y hy)
    · rintro rfl
      exact meets x hx y hy
  · refine forall_arguments.mpr fun x hx y hy => ?_
    exact (h.order.inside _ x (meets x hx y hy).left).1

/-- Semilattices and orders with meets have the same graphs. -/
theorem exists_semilattice_iff (shape : t.shape = [n, n, n]) :
    (∃ g, Operation.Computes 2 n g ⟨t⟩ ∧ Semilattice n g) ↔ ∃ le, MeetsOf n le t := by
  constructor
  · rintro ⟨g, computes, laws⟩
    refine ⟨Semilattice.Below n g, laws.orders, fun x hx y hy => ⟨_, laws.isMeet hx hy⟩, ?_⟩
    intro z lt x hx y hy
    refine (computes.graph.holds z lt [x, y] ⟨hx, hy, trivial⟩).trans ?_
    constructor
    · rintro rfl
      exact laws.isMeet hx hy
    · intro meet
      exact meet.unique laws.orders (laws.isMeet hx hy)
  · rintro ⟨le, h⟩
    obtain ⟨g, computes, meets⟩ := h.exists_computes shape
    exact ⟨g, computes, h.order.semilattice meets⟩

/-- All four tests are made, whatever the first ones find. -/
theorem commutativeSemilattices_eq (shape : t.shape = [n, n, n]) :
    (commutativeSemilattices n).check [("op", t)] = (do
      let functional ← (Operation.mk t).isOperation
      let idempotent ← (Operation.mk t).isIdempotent
      let commutative ← (Operation.mk t).isCommutative
      let associative ← (Operation.mk t).isAssociative
      BooleanDomain.all [functional, idempotent, commutative, associative]) := by
  show operation [("op", t)] >>= _ = _
  rw [operation_eq (k := 2) shape]
  rfl

/-- A check that has an end has room for the tensors of its test of symmetry. -/
theorem spacious_of_accepted (shape : t.shape = [n, n, n]) {b : Bool}
    (run : (commutativeSemilattices n).check [("op", t)] = .ok b) : Shape.Spacious n 3 := by
  rw [commutativeSemilattices_eq shape] at run
  obtain ⟨_, -, afterFunctional⟩ := bind_ok run
  obtain ⟨_, -, afterIdempotent⟩ := bind_ok afterFunctional
  obtain ⟨c, commutative, -⟩ := bind_ok afterIdempotent
  exact (Operation.graph_self (k := 2) shape).spacious_of_isCommutative commutative

/-- An accepted operation computes a semilattice. -/
theorem yields_commutativeSemilattices (shape : t.shape = [n, n, n])
    (room : safe → Shape.Spacious n 6) :
    Yields safe (fun b => b = true ↔ ∃ g, Operation.Computes 2 n g ⟨t⟩ ∧ Semilattice n g)
      ((commutativeSemilattices n).check [("op", t)]) := by
  have graph := Operation.graph_self (f := ⟨t⟩) (k := 2) shape
  have three (hs : safe) : Shape.Spacious n 3 := (room hs).mono (by decide)
  have two (hs : safe) : Shape.Spacious n 2 := (room hs).mono (by decide)
  rw [commutativeSemilattices_eq shape]
  -- the tests have an answer for any graph, which is that of the function if it has one
  refine (Operation.yields_isOperation (f := ⟨t⟩) (k := 2) shape three).known.bind
    fun a ⟨_, functional⟩ => ?_
  refine (graph.isIdempotent fun hs => ⟨three hs, two hs⟩).known.bind fun b ⟨_, idempotent⟩ => ?_
  refine (graph.isCommutative three).known.bind fun c ⟨_, commutative⟩ => ?_
  refine (graph.isAssociative room).known.bind fun d ⟨_, associative⟩ => .of_eq rfl ?_
  have laws {g : List Nat → Nat} (computes : Operation.Computes 2 n g ⟨t⟩) :
      (b = true ∧ c = true ∧ d = true) ↔ Semilattice n g := by
    have idem : Yields False _ _ := computes.isIdempotent nofun
    have comm : Yields False _ _ := computes.isCommutative nofun
    have assoc : Yields False _ _ := computes.isAssociative nofun
    rw [idem.of_ok idempotent, comm.of_ok commutative, assoc.of_ok associative]
    exact ⟨fun ⟨i, c, a⟩ => ⟨fun x hx y hy => computes.below [x, y] ⟨hx, hy, trivial⟩, i, c, a⟩,
      fun h => ⟨h.idem, h.comm, h.assoc⟩⟩
  have accepted : [a, b, c, d].all id = true ↔ a = true ∧ b = true ∧ c = true ∧ d = true := by
    simp
  refine accepted.trans ?_
  constructor
  · rintro ⟨rfl, passed⟩
    obtain ⟨g, computes⟩ := (Operation.Valid.mk (k := 2) shape functional).exists_computes
    exact ⟨g, computes, (laws computes).mp passed⟩
  · rintro ⟨g, computes, semilattice⟩
    refine ⟨?_, (laws computes).mpr semilattice⟩
    have valid : Operation.Valid 2 n ⟨t⟩ := Operation.valid_of_values shape
      (fun args within => ⟨g args, fun _ => computes.iff within⟩) functional
    exact Except.ok.inj (functional.symm.trans valid.functional)

/-- The elements that are their meet with another one are those below it. -/
theorem MeetsOf.le_iff_value (h : MeetsOf n le t) (shape : t.shape = [n, n, n]) {x y : Nat}
    (hx : x < n) (hy : y < n) : le x y ↔ (Operation.mk t).value [x, y] = .ok (some x) := by
  obtain ⟨g, computes, meets⟩ := h.exists_computes shape
  have within : Shape.Within (List.replicate 2 n) [x, y] := ⟨hx, hy, trivial⟩
  rw [computes.value within, Except.ok.injEq, Option.some_inj, h.order.iff_isMeet hx]
  constructor
  · intro own
    exact (meets x hx y hy).unique h.order own
  · intro same
    have meet := meets x hx y hy
    rwa [same] at meet

/-- The relation of an order passes the test of partial orders. -/
theorem isPartialOrder_of_orders (order : Orders n le) (room : Shape.Spacious n 3) {r : Relation Bool}
    (pairs : Relation.Pairs n le r) : r.isPartialOrder = .ok true := by
  have test : Yields True _ r.isPartialOrder := pairs.isPartialOrder fun _ => room
  obtain ⟨b, run, means⟩ := test.of_safe trivial
  rw [run, means.mpr ⟨order.refl, fun x _ y _ => order.antisymm x y,
    fun x _ y _ z _ => order.trans x z y⟩]

/-- The check accepts exactly the graphs of greatest lower bounds, in an order that has them for any two
elements; only where the tensors of the check do not fit, a size is out of range.  The order relates
`x` and `y` when the value at them is `x`, and this relation passes the test of partial orders. -/
theorem semilattices_are_meets (shape : t.shape = [n, n, n]) :
    Yields (Shape.Spacious n 6) (fun b => b = true ↔ ∃ le, MeetsOf n le t)
        ((commutativeSemilattices n).check [("op", t)]) ∧
      ((commutativeSemilattices n).check [("op", t)] = .ok true → ∀ le, MeetsOf n le t →
        (∀ x < n, ∀ y < n, (le x y ↔ (Operation.mk t).value [x, y] = .ok (some x))) ∧
        ∀ r : Relation Bool, r.tensor.shape = [n, n] →
          (∀ x < n, ∀ y < n, (r.Relates x y ↔ (Operation.mk t).value [x, y] = .ok (some x))) →
          r.isPartialOrder = .ok true) := by
  refine ⟨(yields_commutativeSemilattices shape id).mono fun b hb =>
    hb.trans (exists_semilattice_iff shape), ?_⟩
  intro accepted le h
  refine ⟨fun x hx y hy => h.le_iff_value shape hx hy, fun r binary values => ?_⟩
  have room : Shape.Spacious n 3 := spacious_of_accepted shape accepted
  refine isPartialOrder_of_orders h.order room ⟨binary, fun x hx y hy => ?_⟩
  exact (values x hx y hy).trans (h.le_iff_value shape hx hy).symm

/-- The smaller of two numbers below three. -/
def smaller : Tensor Bool := Tensor.tabulate [3, 3, 3] fun t => t.getD 0 0 = min (t.getD 1 0) (t.getD 2 0)

/-- Minima are accepted, as the meets of the natural order. -/
theorem semilattices_are_meets_minima :
    smaller.shape = [3, 3, 3] ∧ (commutativeSemilattices 3).check [("op", smaller)] = .ok true ∧
      ∀ r : Relation Bool, r.tensor.shape = [3, 3] → (∀ x < 3, ∀ y < 3, (r.Relates x y ↔ x ≤ y)) →
        r.isPartialOrder = .ok true := by
  have shape : smaller.shape = [3, 3, 3] := rfl
  let le (x y : Nat) : Prop := y < 3 ∧ x ≤ y
  have order : Orders 3 le := by
    refine ⟨fun x y h => ⟨Nat.lt_of_le_of_lt h.2 h.1, h.1⟩, fun x hx => ⟨hx, Nat.le_refl x⟩, ?_, ?_⟩
    · exact fun x y h h' => Nat.le_antisymm h.2 h'.2
    · exact fun x y z h h' => ⟨h'.1, Nat.le_trans h.2 h'.2⟩
  have meet (x : Nat) (hx : x < 3) (y : Nat) (hy : y < 3) : IsMeet le x y (min x y) :=
    ⟨⟨hx, Nat.min_le_left x y⟩, ⟨hy, Nat.min_le_right x y⟩,
      fun w h h' => ⟨by omega, Nat.le_min.mpr ⟨h.2, h'.2⟩⟩⟩
  have meets : MeetsOf 3 le smaller := by
    refine ⟨order, fun x hx y hy => ⟨_, meet x hx y hy⟩, fun z hz x hx y hy => ?_⟩
    have table : ∀ z < 3, ∀ x < 3, ∀ y < 3, (smaller.Holds [z, x, y] ↔ z = min x y) := by
      decide
    refine (table z hz x hx y hy).trans ⟨?_, fun h => h.unique order (meet x hx y hy)⟩
    rintro rfl
    exact meet x hx y hy
  obtain ⟨check, passes⟩ := semilattices_are_meets shape
  obtain ⟨b, run, means⟩ := check.of_safe (by decide)
  have accepted : (commutativeSemilattices 3).check [("op", smaller)] = .ok true := by
    rw [run, means.mpr ⟨le, meets⟩]
  refine ⟨shape, accepted, fun r binary natural => ?_⟩
  obtain ⟨values, order⟩ := passes accepted le meets
  refine order r binary fun x hx y hy => (natural x hx y hy).trans ?_
  exact (and_iff_right hy).symm.trans (values x hx y hy)

end Problem

end FiniteStructures
