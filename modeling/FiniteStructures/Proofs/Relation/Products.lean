import FiniteStructures.Proofs.Relation.Tuples
import FiniteStructures.Relation.Coordinates

/-!
Direct products and powers.  Pairs and tuples are numbers,

    x · |B| + y          the pair (x, y) in A × B
    i / |A|ᵗ % |A|       the digits of i in Aʲ, for t < j, the last factor's digit being at t = 0

and a tuple of numbers is related when the tuples of its parts are.  The number of a triple does
not depend on the way it is made of pairs, so products are associative cell by cell, with no
renumbering.

A product takes numbers apart by division.  `productBy` leaves open what a division by zero does,
and gives the same product: there is none.
-/

namespace FiniteStructures

/-! ## Sizes that can be built -/

namespace Shape

/-- The sizes of a relation with so many elements and coordinates are within their range. -/
def Constructible (n axes : Nat) : Prop :=
  ∃ shape, uniform n axes = .ok shape ∧ storable shape = .ok ()

variable {n m axes : Nat}

theorem constructible_iff :
    Constructible n axes ↔
      axes < Count.storeLimit ∧ span (List.replicate axes n) < Count.storeLimit := by
  constructor
  · rintro ⟨shape, filled, stored⟩
    obtain ⟨count, kept, rest⟩ := Outcome.bind_ok filled
    have axes_lt : axes < Count.storeLimit := by
      by_contra many
      rw [Count.store, if_neg many] at kept
      cases kept
    have same : Outcome.Yields False (· = List.replicate axes n) (uniform n axes) :=
      yields_uniform False.elim
    obtain rfl := same.of_ok filled
    exact ⟨axes_lt, (spacious_of_storable axes_lt stored).store⟩
  · rintro ⟨axes_lt, store⟩
    have counted : Outcome.Yields True (· = List.replicate axes n) (uniform n axes) :=
      yields_uniform fun _ => axes_lt
    obtain ⟨shape, filled, rfl⟩ := counted.of_safe trivial
    obtain ⟨⟨⟩, stored, -⟩ := (yields_storable fun _ => store).of_safe trivial
    exact ⟨_, filled, stored⟩

/-- Fewer elements are built where more are; no elements are built as one is. -/
theorem Constructible.mono (h : Constructible m axes) (le : n ≤ max 1 m) :
    Constructible n axes := by
  rw [constructible_iff, span_replicate] at h ⊢
  refine ⟨h.1, Nat.lt_of_le_of_lt (Nat.pow_le_pow_left ?_ axes) h.2⟩
  omega

/-- A number of elements of which relations can be built is a count. -/
theorem Constructible.lt_limit (h : Constructible n (axes + 1)) : n < Count.limit := by
  have powers : n ≤ (max 1 n) ^ (axes + 1) :=
    (Nat.le_max_right 1 n).trans (Nat.le_self_pow (Nat.succ_ne_zero axes) _)
  rw [constructible_iff, span_replicate] at h
  exact Nat.lt_trans (Nat.lt_of_le_of_lt powers h.2) (by decide)

theorem Within.quotients {index : List Nat} (h : Within (List.replicate axes (n * m)) index) :
    Within (List.replicate axes n) (index.map (· / m)) := by
  rw [within_replicate] at h ⊢
  refine ⟨by rw [List.length_map, h.1], ?_⟩
  intro q hq
  obtain ⟨i, hi, rfl⟩ := List.mem_map.mp hq
  exact Nat.div_lt_of_lt_mul (Nat.mul_comm n m ▸ h.2 i hi)

theorem Within.divisor_pos {index : List Nat} (h : Within (List.replicate axes (n * m)) index)
    {i : Nat} (hi : i ∈ index) : 0 < m :=
  Nat.pos_of_lt_mul_left ((within_replicate.mp h).2 i hi)

theorem Within.remainders {index : List Nat} (h : Within (List.replicate axes (n * m)) index) :
    Within (List.replicate axes m) (index.map (· % m)) := by
  refine within_replicate.mpr ⟨by rw [List.length_map, (within_replicate.mp h).1], ?_⟩
  intro q hq
  obtain ⟨i, hi, rfl⟩ := List.mem_map.mp hq
  exact Nat.mod_lt i (h.divisor_pos hi)

end Shape

namespace Relation

open Outcome Tensor Shape

variable {k n a b c i j : Nat} {r s t u v w : Relation Bool}

/-! ## Products -/

/-- The relation `u` on `a · b` numbers relates the pairs of tuples related in `r` and in `s`. -/
def IsProduct (k a b : Nat) (r s u : Relation Bool) : Prop :=
  Table (List.replicate k (a * b)) (fun index =>
    r.tensor.Holds (index.map (· / b)) ∧ s.tensor.Holds (index.map (· % b))) u.tensor

theorem yields_pairShape {safe : Prop} (count : safe → a * b < Count.limit)
    (axes : safe → k < Count.storeLimit) :
    Yields safe (· = List.replicate k (a * b)) (do uniform (← Count.mul a b) k) := by
  refine (Count.yields_check count).bind fun size h => ?_
  subst h
  exact yields_uniform axes

theorem yields_product (hr : r.tensor.shape = List.replicate (k + 1) a)
    (hs : s.tensor.shape = List.replicate (k + 1) b) :
    Yields (Constructible (a * b) (k + 1)) (IsProduct (k + 1) a b r s) (r.product s) := by
  have call : r.product s = (do
      let shape ← (do uniform (← Count.mul a b) (k + 1) : Outcome (List Nat))
      return ⟨← Tensor.generate shape fun index => do
        let x ← r.get (index.map (· / b))
        let y ← s.get (index.map (· % b))
        BooleanDomain.and x y⟩) := by
    unfold product
    rw [requireArity, arity_of_shape hs, arity_of_shape hr, if_neg (not_not.mpr rfl),
      size_of_shape hr, size_of_shape hs]
    rfl
  rw [call]
  refine (yields_pairShape (fun hs => hs.lt_limit) fun hs => (constructible_iff.mp hs).1).bind
    fun shape h => ?_
  subst h
  refine (yields_generate_table (f := fun index => decide (r.tensor.Holds (index.map (· / b))) &&
    decide (s.tensor.Holds (index.map (· % b)))) (fun hs => (constructible_iff.mp hs).2) ?_).bind
    fun u table => .of_eq rfl (table.congr fun index _ => ?_)
  · intro index within
    unfold Relation.get
    rw [get_decide (hr ▸ within.quotients), get_decide (hs ▸ within.remainders)]
    rfl
  · rw [Bool.and_eq_true_iff, decide_eq_true_iff, decide_eq_true_iff]

/-- A number of a triple is taken apart from the left as from the right. -/
theorem IsProduct.assoc (left : IsProduct k a b r s u) (left' : IsProduct k (a * b) c u t w)
    (right : IsProduct k b c s t v) : IsProduct k a (b * c) r v w := by
  unfold IsProduct at left' ⊢
  rw [← Nat.mul_assoc]
  refine left'.congr ?_
  intro index within
  rw [left.holds _ within.quotients, right.holds _ (by
    rw [Nat.mul_assoc] at within
    exact within.remainders)]
  simp only [List.map_map, Function.comp_def, Nat.div_div_eq_div_mul, Nat.mod_mul_left_div_self,
    Nat.mod_mul_left_mod, Nat.mul_comm c b]
  exact and_assoc

theorem product_assoc (hr : r.tensor.shape = List.replicate (k + 1) a)
    (hs : s.tensor.shape = List.replicate (k + 1) b)
    (ht : t.tensor.shape = List.replicate (k + 1) c) (ab : Constructible (a * b) (k + 1))
    (bc : Constructible (b * c) (k + 1)) (abc : Constructible (a * b * c) (k + 1)) :
    ∃ rs st w, r.product s = .ok rs ∧ s.product t = .ok st ∧
      rs.product t = .ok w ∧ r.product st = .ok w := by
  obtain ⟨rs, runs, left⟩ := (yields_product hr hs).of_safe ab
  obtain ⟨st, runs', right⟩ := (yields_product hs ht).of_safe bc
  obtain ⟨w, runw, left'⟩ := (yields_product left.shape_eq ht).of_safe abc
  rw [Nat.mul_assoc] at abc
  obtain ⟨w', runw', right'⟩ := (yields_product hr right.shape_eq).of_safe abc
  refine ⟨rs, st, w, runs, runs', runw, runw'.trans ?_⟩
  have same : w'.tensor = w.tensor := right'.unique (left.assoc left' right)
  exact congrArg (Except.ok <| Relation.mk ·) same

/-! ## Powers -/

theorem yields_full : Yields (Constructible n k) (fun u : Relation Bool =>
    Table (List.replicate k n) (fun _ => True) u.tensor) (full n k) := by
  let _ : Zero Bool := ⟨false⟩
  refine (yields_uniform fun hs => (constructible_iff.mp hs).1).bind fun shape h => ?_
  subst h
  refine ((yields_storable fun hs => (constructible_iff.mp hs).2).bind
    fun _ _ => .of_eq rfl ?_).bind
      fun t (ht : Reads (List.replicate k n) (fun _ => true) t) => .of_eq rfl ?_
  · refine reads_of_elems rfl ?_
    rw [List.map_const', length_enumerate]
    rfl
  · exact (table_of_reads ht).congr fun _ _ => by simp

/-- The relation `u` on the numbers of `j` digits relates the tuples with related digits at all
places. -/
def IsPower (k a j : Nat) (r u : Relation Bool) : Prop :=
  Table (List.replicate k (a ^ j)) (fun index =>
    ∀ t < j, r.tensor.Holds (index.map fun i => i / a ^ t % a)) u.tensor

/-- The digits of the factors come after the number of the first relation. -/
theorem yields_times (hr : r.tensor.shape = List.replicate (k + 1) a) {m : Nat}
    (hu : u.tensor.shape = List.replicate (k + 1) m) :
    Yields (Constructible (m * a ^ j) (k + 1)) (fun w : Relation Bool =>
        Table (List.replicate (k + 1) (m * a ^ j)) (fun index =>
          u.tensor.Holds (index.map (· / a ^ j)) ∧
            ∀ t < j, r.tensor.Holds (index.map fun i => i / a ^ t % a)) w.tensor)
      (times r j u) := by
  induction j generalizing m u with
  | zero =>
    refine .of_eq rfl ?_
    rw [Nat.pow_zero, Nat.mul_one]
    refine (table_holds hu).congr ?_
    intro index _
    simp
  | succ j ih =>
    have digits : m * a ^ (j + 1) = m * a * a ^ j := by rw [Nat.pow_succ', Nat.mul_assoc]
    have fewer : m * a ≤ max 1 (m * a * a ^ j) := by
      rcases Nat.eq_zero_or_pos a with rfl | pos
      · rw [Nat.mul_zero]
        exact Nat.zero_le _
      · exact (Nat.le_mul_of_pos_right _ (Nat.pow_pos pos)).trans (Nat.le_max_right 1 _)
    rw [digits]
    refine ((yields_product hu hr).narrow fun hs => hs.mono fewer).bind fun v hv => ?_
    refine (ih hv.shape_eq).mono fun w hw => hw.congr fun index within => ?_
    rw [hv.holds _ within.quotients, and_assoc]
    simp only [List.map_map, Function.comp_def, Nat.div_div_eq_div_mul, ← Nat.pow_succ,
      Nat.forall_lt_succ_right]
    exact and_congr_right fun _ => and_comm

theorem yields_power (hr : r.tensor.shape = List.replicate (k + 1) a) :
    Yields (Constructible (a ^ j) (k + 1)) (IsPower (k + 1) a j r) (r.power j) := by
  unfold power
  rw [arity_of_shape hr]
  have one (hs : Constructible (a ^ j) (k + 1)) : Constructible 1 (k + 1) :=
    hs.mono (Nat.le_max_left 1 _)
  refine (yields_full.narrow one).bind fun u hu => ?_
  have powers := yields_times (j := j) hr hu.shape_eq
  rw [Nat.one_mul] at powers
  refine powers.mono fun w hw => hw.congr fun index within => ?_
  rw [← Nat.one_mul (a ^ j)] at within
  rw [hu.holds _ within.quotients, true_and]

theorem forall_lt_add {P : Nat → Prop} :
    (∀ t < i + j, P t) ↔ (∀ t < i, P (j + t)) ∧ ∀ t < j, P t := by
  constructor
  · intro h
    exact ⟨fun t lt => h _ (by omega), fun t lt => h t (by omega)⟩
  · rintro ⟨high, low⟩ t lt
    by_cases here : t < j
    · exact low t here
    · have := high (t - j) (by omega)
      rwa [Nat.add_sub_cancel' (by omega)] at this

/-- The low digits of a number are those of its remainder. -/
theorem digit_of_mod {t : Nat} (lt : t < j) : i % a ^ j / a ^ t % a = i / a ^ t % a := by
  obtain ⟨d, rfl⟩ := Nat.exists_eq_add_of_lt lt
  rw [Nat.add_assoc, Nat.pow_add, Nat.mod_mul_right_div_self,
    Nat.mod_mod_of_dvd _ ⟨a ^ d, Nat.pow_succ'⟩]

/-- The power of a sum is the product of the powers. -/
theorem IsPower.add (hu : IsPower k a i r u) (hv : IsPower k a j r v)
    (hw : IsProduct k (a ^ i) (a ^ j) u v w) : IsPower k a (i + j) r w := by
  unfold IsProduct at hw
  unfold IsPower
  rw [Nat.pow_add]
  refine hw.congr ?_
  intro index within
  rw [hu.holds _ within.quotients, hv.holds _ within.remainders, forall_lt_add]
  simp only [List.map_map, Function.comp_def, Nat.div_div_eq_div_mul, ← Nat.pow_add]
  refine and_congr_right fun _ => forall₂_congr fun t lt => ?_
  simp only [digit_of_mod lt]

theorem power_add (hr : r.tensor.shape = List.replicate (k + 1) a)
    (room : Constructible (a ^ (i + j)) (k + 1)) :
    ∃ u v w, r.power i = .ok u ∧ r.power j = .ok v ∧ r.power (i + j) = .ok w ∧
      u.product v = .ok w := by
  have fewer (t : Nat) (le : t ≤ i + j) : Constructible (a ^ t) (k + 1) := by
    refine room.mono ?_
    rcases Nat.eq_zero_or_pos a with rfl | pos
    · calc 0 ^ t ≤ 1 ^ t := Nat.pow_le_pow_left (Nat.zero_le 1) t
        _ = 1 := Nat.one_pow t
        _ ≤ max 1 _ := Nat.le_max_left 1 _
    · exact (Nat.pow_le_pow_right pos le).trans (Nat.le_max_right 1 _)
  obtain ⟨u, runu, hu⟩ := (yields_power hr).of_safe (fewer i (Nat.le_add_right i j))
  obtain ⟨v, runv, hv⟩ := (yields_power hr).of_safe (fewer j (Nat.le_add_left j i))
  obtain ⟨w, runw, hw⟩ := (yields_power hr).of_safe room
  rw [Nat.pow_add] at room
  obtain ⟨w', runw', hw'⟩ := (yields_product hu.shape_eq hv.shape_eq).of_safe room
  refine ⟨u, v, w, runu, runv, runw, runw'.trans ?_⟩
  have same : w'.tensor = w.tensor := (hu.add hv hw').unique hw
  exact congrArg (Except.ok <| Relation.mk ·) same

/-! ## Division -/

/-- A division with remainder by numbers that are not zero; what it does with zero is open. -/
def Divides (divide : Nat → Nat → Outcome (Nat × Nat)) : Prop :=
  ∀ i d, d ≠ 0 → divide i d = .ok (i / d, i % d)

/-- The direct product, where `divide` takes the numbers apart. -/
def productBy (divide : Nat → Nat → Outcome (Nat × Nat)) (r s : Relation Bool) :
    Outcome (Relation Bool) := do
  s.requireArity r.arity
  let left ← r.size
  let right ← s.size
  let shape ← (do uniform (← Count.mul left right) r.arity : Outcome (List Nat))
  return ⟨← Tensor.generate shape fun index => do
    let parts ← index.mapM (divide · right)
    let a ← r.get (parts.map Prod.fst)
    let b ← s.get (parts.map Prod.snd)
    BooleanDomain.and a b⟩

/-- The direct power, where `divide` takes the numbers apart. -/
def powerBy (divide : Nat → Nat → Outcome (Nat × Nat)) (r : Relation Bool) (k : Nat) :
    Outcome (Relation Bool) := do
  times k (← full 1 r.arity)
where
  times : (k : Nat) → Relation Bool → Outcome (Relation Bool)
    | 0, u => return u
    | k + 1, u => do times k (← productBy divide u r)

variable {divide : Nat → Nat → Outcome (Nat × Nat)}

/-- Indices of pairs are taken apart by a divisor that is not zero: if it is, no number is below the
size of the product. -/
theorem divided (divides : Divides divide) {left right axes : Nat} {index : List Nat}
    (within : Within (List.replicate axes (left * right)) index) :
    index.mapM (divide · right) = .ok (index.map fun i => (i / right, i % right)) :=
  List.mapM_ok fun i hi => divides i right (within.divisor_pos hi).ne'

theorem productBy_eq (divides : Divides divide) : r.productBy divide s = r.product s := by
  unfold productBy product
  refine bind_congr_ok fun _ _ => bind_congr_ok fun left _ => bind_congr_ok fun right _ =>
    bind_congr_ok fun shape filled => congrArg (· >>= _) (generate_congr fun index within => ?_)
  have pairs : Yields False (· = List.replicate r.arity (left * right)) _ :=
    yields_pairShape nofun nofun
  obtain rfl := pairs.of_ok filled
  rw [divided divides within]
  show (do
    let a ← r.get (List.map Prod.fst (index.map fun i => (i / right, i % right)))
    let b ← s.get (List.map Prod.snd (index.map fun i => (i / right, i % right)))
    BooleanDomain.and a b) = _
  rw [List.map_map, List.map_map]
  rfl

theorem powerBy_eq (divides : Divides divide) : r.powerBy divide k = r.power k := by
  have steps (u : Relation Bool) : powerBy.times divide r k u = times r k u := by
    induction k generalizing u with
    | zero => rfl
    | succ k ih =>
      unfold powerBy.times times
      rw [productBy_eq divides]
      exact congrArg _ (funext ih)
  unfold powerBy power
  exact congrArg _ (funext steps)

/-! ## The numbering -/

/-- Products relate the pairs of related tuples and are associative, powers relate the tuples of
related digits and turn sums into products, where the sizes can be built; and no division is by
zero. -/
theorem products_and_powers (hr : r.tensor.shape = List.replicate (k + 1) a)
    (hs : s.tensor.shape = List.replicate (k + 1) b)
    (ht : t.tensor.shape = List.replicate (k + 1) c) :
    Yields (Constructible (a * b) (k + 1)) (IsProduct (k + 1) a b r s) (r.product s) ∧
    (Constructible (a * b) (k + 1) → Constructible (b * c) (k + 1) →
      Constructible (a * b * c) (k + 1) →
      ∃ rs st w, r.product s = .ok rs ∧ s.product t = .ok st ∧
        rs.product t = .ok w ∧ r.product st = .ok w) ∧
    (∀ j, Yields (Constructible (a ^ j) (k + 1)) (IsPower (k + 1) a j r) (r.power j)) ∧
    (∀ i j, Constructible (a ^ (i + j)) (k + 1) →
      ∃ u v w, r.power i = .ok u ∧ r.power j = .ok v ∧ r.power (i + j) = .ok w ∧
        u.product v = .ok w) ∧
    ∀ divide, Divides divide →
      r.productBy divide s = r.product s ∧ ∀ j, r.powerBy divide j = r.power j := by
  refine ⟨yields_product hr hs, product_assoc hr hs ht, fun j => yields_power hr,
    fun i j => power_add hr, ?_⟩
  intro divide divides
  exact ⟨productBy_eq divides, fun j => powerBy_eq divides⟩

/-- The strict order of two elements. -/
def rise : Relation Bool := ⟨tabulate [2, 2] fun t => t.getD 0 0 < t.getD 1 0⟩

/-- Each of three elements with the next one, the last one with the first. -/
def turn : Relation Bool := ⟨tabulate [3, 3] fun t => (t.getD 0 0 + 1) % 3 = t.getD 1 0⟩

/-- The relation on no elements. -/
def nothing : Relation Bool := ⟨tabulate [0, 0] fun _ => True⟩

/-- A division that must not be by zero. -/
def divideStrictly (i d : Nat) : Outcome (Nat × Nat) :=
  if d = 0 then .breach .outOfBounds else .ok (i / d, i % d)

theorem divides_divideStrictly : Divides divideStrictly := fun _ _ nonzero => if_neg nonzero

/-- `0 < 1` and `2` is followed by `0`, the pairs being the numbers 2 and 3; `(0, 0) < (1, 1)` digit
by digit, with numbers 0 and 3; there are no triples with a member of the empty set, and no division
by its size. -/
theorem products_and_powers_rise_turn :
    (rise.tensor.shape = List.replicate 2 2 ∧ turn.tensor.shape = List.replicate 2 3 ∧
      nothing.tensor.shape = List.replicate 2 0) ∧
    (∃ u, rise.product turn = .ok u ∧ u.tensor.Holds [2, 3] ∧ ¬ u.tensor.Holds [3, 2]) ∧
    (∃ rs st w, rise.product turn = .ok rs ∧ turn.product nothing = .ok st ∧
      rs.product nothing = .ok w ∧ rise.product st = .ok w) ∧
    (∃ u, rise.power 2 = .ok u ∧ u.tensor.Holds [0, 3] ∧ ¬ u.tensor.Holds [0, 1]) ∧
    rise.productBy divideStrictly nothing = rise.product nothing := by
  obtain ⟨product, assoc, power, -, -⟩ := products_and_powers (r := rise) (s := turn) (t := nothing)
    (k := 1) (a := 2) (b := 3) (c := 0) rfl rfl rfl
  obtain ⟨-, -, -, -, division⟩ := products_and_powers (r := rise) (s := nothing) (t := nothing)
    (k := 1) (a := 2) (b := 0) (c := 0) rfl rfl rfl
  have room : ∀ n ≤ 6, Constructible n 2 := by
    intro n le
    rw [constructible_iff, span_replicate]
    refine ⟨by decide, ?_⟩
    calc max 1 n ^ 2 ≤ 6 ^ 2 := Nat.pow_le_pow_left (by omega) 2
      _ < Count.storeLimit := by decide
  refine ⟨⟨rfl, rfl, rfl⟩, ?_, ?_, ?_, ?_⟩
  · obtain ⟨u, run, hu⟩ := product.of_safe (room 6 (by decide))
    refine ⟨u, run, (hu.holds [2, 3] ?_).mpr (by decide),
      (hu.holds [3, 2] ?_).not.mpr (by decide)⟩
    all_goals exact within_replicate.mpr (by decide)
  · exact assoc (room _ (by decide)) (room _ (by decide)) (room _ (by decide))
  · obtain ⟨u, run, hu⟩ := (power 2).of_safe (room 4 (by decide))
    refine ⟨u, run, (hu.holds [0, 3] ?_).mpr (by decide),
      (hu.holds [0, 1] ?_).not.mpr (by decide)⟩
    all_goals exact within_replicate.mpr (by decide)
  · exact (division divideStrictly divides_divideStrictly).1

end Relation

end FiniteStructures
