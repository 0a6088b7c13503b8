import FiniteStructures.Proofs.Operation.Superposition
import FiniteStructures.Proofs.Permutation.Inversions

/-!
Parity is the sign of a permutation.  Images that come once each are those of a permutation σ, whose
graph is built from them; composing, inverting and the identity are those of permutations,

    ofImages ps        σ with σ i = ps[i]      (ofImages_isGraph)
    p.compose q        σ * τ                   (yields_compose)
    p.invert           σ⁻¹                     (yields_invert)
    identity n         1                       (yields_identity)

so the parity found by the contraction has the laws of the sign.
-/

namespace FiniteStructures

namespace Permutation

open Outcome Tensor

variable {safe : Prop} {n : Nat} {p q : Permutation Bool} {σ τ : Equiv.Perm (Fin n)}
  {ps qs : List Nat}

/-! ## Images -/

/-- Images that pass are in range and not seen before, and come once. -/
theorem areImages_go {images : List Nat} {seen : List Bool} (h : areImages.go images seen = true) :
    (∀ y ∈ images, seen[y]? = some false) ∧ images.Nodup := by
  induction images generalizing seen with
  | nil => exact ⟨nofun, List.nodup_nil⟩
  | cons y rest ih =>
    unfold areImages.go at h
    rw [Bool.and_eq_true, decide_eq_true_iff] at h
    obtain ⟨new, distinct⟩ := ih h.2
    have other : ∀ z ∈ rest, z ≠ y ∧ seen[z]? = some false := by
      intro z later
      have unseen := new z later
      by_cases same : y = z
      · subst same
        rw [List.getElem?_set_self (List.getElem?_eq_some_iff.mp h.1).1] at unseen
        cases unseen
      · rw [List.getElem?_set_ne same] at unseen
        exact ⟨Ne.symm same, unseen⟩
    refine ⟨List.forall_mem_cons.mpr ⟨h.1, fun z later => (other z later).2⟩, ?_⟩
    exact List.nodup_cons.mpr ⟨fun here => (other y here).1 rfl, distinct⟩

theorem exists_perm (h : areImages ps = true) :
    ∃ σ : Equiv.Perm (Fin ps.length), ∀ i : Fin ps.length, (σ i : Nat) = ps[i] := by
  obtain ⟨unseen, distinct⟩ := areImages_go h
  have below (i : Fin ps.length) : ps[i] < ps.length := by
    have flagged := (List.getElem?_eq_some_iff.mp (unseen _ (List.getElem_mem i.isLt))).1
    rwa [List.length_replicate] at flagged
  let image (i : Fin ps.length) : Fin ps.length := ⟨ps[i], below i⟩
  have injective : Function.Injective image := by
    intro i j same
    exact Fin.ext ((distinct.getElem_inj_iff).mp (congrArg Fin.val same))
  exact ⟨.ofBijective image (Finite.injective_iff_bijective.mp injective), fun i => rfl⟩

theorem isGraph_iff_pairs :
    p.IsGraph σ ↔ ∀ x y : Fin n, p.tensor.Holds [(y : Nat), x] ↔ y = σ x := by
  constructor
  · intro graph x y
    exact graph (fun _ => x) y
  · intro cells args value
    exact cells (args 0) value

/-- A permutation on the numbers below `n`, by its graph. -/
structure Represents (p : Permutation Bool) (σ : Equiv.Perm (Fin n)) : Prop where
  shape : p.tensor.shape = List.replicate 2 n
  graph : p.IsGraph σ

theorem Represents.holds (h : p.Represents σ) (x y : Fin n) :
    p.tensor.Holds [(y : Nat), x] ↔ y = σ x := isGraph_iff_pairs.mp h.graph x y

/-- The graph is built from the images. -/
theorem yields_ofImages (passed : areImages ps = true) {σ : Equiv.Perm (Fin ps.length)}
    (images : ∀ i : Fin ps.length, (σ i : Nat) = ps[i]) (room : safe → Shape.Spacious ps.length 2) :
    Yields safe (fun p : Permutation Bool => p.Represents σ) (ofImages ps) := by
  unfold ofImages
  rw [if_neg (not_not.mpr passed)]
  refine (Operation.yields_ofFunction (g := onFirst σ) (fun args => ?_) fun hs =>
    ⟨room hs, by decide⟩).bind fun f ⟨shape, graph⟩ => .of_eq rfl ⟨shape, graph⟩
  have image : ((List.ofFn fun j => (args j : Nat)).head?.bind fun x => ps[x]?) =
      some (σ (args 0) : Nat) := by
    show ps[(args 0 : Nat)]? = _
    rw [List.getElem?_eq_getElem (args 0).isLt, images]
    rfl
  rw [image]
  rfl

/-- Only the images of a permutation are accepted. -/
theorem ofImages_represents (accepted : ofImages ps = .ok p) :
    ∃ σ : Equiv.Perm (Fin ps.length), (∀ i : Fin ps.length, (σ i : Nat) = ps[i]) ∧
      p.Represents σ := by
  by_cases passed : areImages ps = true
  · obtain ⟨σ, images⟩ := exists_perm passed
    have built : Yields False _ (ofImages ps) := yields_ofImages passed images nofun
    exact ⟨σ, images, built.of_ok accepted⟩
  · unfold ofImages at accepted
    rw [if_pos passed] at accepted
    cases accepted

/-! ## Composition, inversion, identity -/

theorem yields_compose (hp : p.Represents σ) (hq : q.Represents τ)
    (room : safe → Shape.Spacious n 3) :
    Yields safe (fun r : Permutation Bool => r.Represents (σ * τ)) (p.compose q) := by
  have fitting : Operation.Fitting 1 1 n p.operation [q.operation] :=
    ⟨hp.shape, rfl, List.forall_mem_singleton.mpr hq.shape⟩
  have call : p.compose q = (do return ⟨← p.operation.composeWith [q.operation]⟩) := by
    unfold compose Operation.compose Operation.requireArity
    rw [Operation.arity_of_graph (k := 1) hp.shape, Operation.arity_of_graph (k := 1) hq.shape]
    rfl
  rw [call]
  refine (Operation.yields_composeWith fitting (Nat.le_refl 1) (by decide) room).bind
    fun h ⟨shape, holds⟩ => .of_eq rfl ⟨shape, isGraph_iff_pairs.mpr fun x y => ?_⟩
  refine (holds [(x : Nat)] ⟨x.isLt, trivial⟩ y).trans ?_
  constructor
  · rintro ⟨zs, middle, outer⟩
    obtain ⟨z, rest, inner, last, rfl⟩ := List.forall₂_cons_left_iff.mp middle
    obtain rfl := List.forall₂_nil_left_iff.mp last
    have lt : Shape.Within (List.replicate 2 n) [z, (x : Nat)] := hq.shape ▸ inner.within
    have first : ⟨z, lt.1⟩ = τ x := (hq.holds x ⟨z, lt.1⟩).mp inner
    have second : y = σ ⟨z, lt.1⟩ := (hp.holds ⟨z, lt.1⟩ y).mp outer
    rw [second, first]
    rfl
  · rintro rfl
    exact ⟨[(τ x : Nat)], .cons ((hq.holds x (τ x)).mpr rfl) .nil, (hp.holds (τ x) _).mpr rfl⟩

theorem yields_invert (hp : p.Represents σ) (room : safe → Shape.Spacious n 2) :
    Yields safe (fun r : Permutation Bool => r.Represents σ⁻¹) p.invert := by
  have pairs : p.operation.toRelation.Pairs n _ := Relation.pairs_self hp.shape
  refine (pairs.revert room).bind fun u hu => ?_
  have shape : u.tensor.shape = List.replicate 2 n := hu.shape_eq
  unfold Operation.ofTensor
  rw [Relation.ofTensor_uniform (k := 1) shape]
  refine .of_eq rfl ⟨shape, isGraph_iff_pairs.mpr fun x y => ?_⟩
  refine (hu.holds y y.isLt x x.isLt).trans ((hp.holds y x).trans ?_)
  rw [Equiv.Perm.eq_inv_iff_eq, eq_comm]

theorem yields_identity (room : safe → Shape.Spacious n 2) :
    Yields safe (fun r : Permutation Bool => r.Represents (1 : Equiv.Perm (Fin n)))
      (identity n : Outcome (Permutation Bool)) := by
  refine (Relation.yields_equal room).bind fun u hu => .of_eq rfl ⟨hu.shape_eq, ?_⟩
  refine isGraph_iff_pairs.mpr fun x y => ?_
  exact (hu.holds y y.isLt x x.isLt).trans Fin.val_inj

/-! ## Parity -/

/-- Whether the parity is found is a matter of the size alone. -/
theorem isOdd_alike (same : p.tensor.shape = q.tensor.shape) :
    Agree (fun _ _ => True) p.isOdd q.isOdd := by
  have simulated {r : Permutation Bool} (shape : r.tensor.shape = q.tensor.shape) :
      Simulation.shapes.permutation () r ⟨⟨q.tensor.blank⟩⟩ := rel_blank shape
  exact (Simulation.isOdd (simulated same)).alike (Simulation.isOdd (simulated rfl))

theorem Represents.isOdd_iff (hp : p.Represents σ) {b : Bool} (run : p.isOdd = .ok b) :
    b = true ↔ σ.sign = -1 := by
  have parity : Yields False _ p.isOdd := yields_isOdd hp.shape nofun
  exact parity.of_ok run σ hp.graph

/-- Permutations of one sign have the same parity, or both are too large. -/
theorem isOdd_eq (hp : p.Represents σ) (hq : q.Represents τ) (same : σ.sign = τ.sign) :
    p.isOdd = q.isOdd := by
  have alike := isOdd_alike (hp.shape.trans hq.shape.symm)
  cases run : p.isOdd with
  | error e => exact ((alike.error_iff e).mp run).symm
  | ok a =>
    obtain ⟨b, run', -⟩ := alike.of_ok run
    rw [run', Except.ok.injEq, Bool.eq_iff_iff, hp.isOdd_iff run, hq.isOdd_iff run', same]

theorem isEven_eq : p.isEven = p.isOdd.map (!·) := by
  unfold isEven
  cases p.isOdd <;> rfl

theorem xor_eq {a b c : Bool} {s t : ℤˣ} (ha : a = true ↔ s = -1) (hb : b = true ↔ t = -1)
    (hc : c = true ↔ s * t = -1) : c = (a ^^ b) := by
  rw [Bool.eq_iff_iff, hc]
  rcases Int.units_eq_one_or s with rfl | rfl <;> rcases Int.units_eq_one_or t with rfl | rfl <;>
    revert a b <;> decide

/-- The pairs of places whose images come in the reverse order. -/
def inverted (ps : List Nat) : Finset (Fin ps.length × Fin ps.length) :=
  Finset.univ.filter fun ij => ij.1 < ij.2 ∧ ps[ij.2] < ps[ij.1]

theorem card_inverted {σ : Equiv.Perm (Fin ps.length)}
    (images : ∀ i : Fin ps.length, (σ i : Nat) = ps[i]) : (inverted ps).card = inversions σ := by
  unfold inverted inversions
  rw [Finset.card_filter, Fintype.sum_prod_type]
  refine Finset.sum_congr rfl fun i _ => Finset.sum_congr rfl fun j _ => ?_
  simp only [← images, Fin.val_fin_lt]

/-- For accepted images the parity is that of the number of pairs in reverse order.  It adds up
under composition and is kept by inversion, evenness is its negation, and the identity is even; only
where tensors do not fit, a size is out of range. -/
theorem isOdd_homomorphism (accepted : ofImages ps = .ok p) (accepted' : ofImages qs = .ok q)
    (same : qs.length = ps.length) :
    Yields (Shape.Spacious ps.length 4) (fun b => b = true ↔ Odd (inverted ps).card) p.isOdd ∧
    Yields (Shape.Spacious ps.length 3) (fun r : Permutation Bool => ∀ a b, p.isOdd = .ok a →
      q.isOdd = .ok b → r.isOdd = .ok (a ^^ b)) (p.compose q) ∧
    Yields (Shape.Spacious ps.length 2) (fun r : Permutation Bool => r.isOdd = p.isOdd) p.invert ∧
    p.isEven = p.isOdd.map (!·) ∧
    Yields (Shape.Spacious ps.length 4) (· = true)
      ((identity ps.length : Outcome (Permutation Bool)) >>= fun r => r.isEven) := by
  obtain ⟨σ, images, hp⟩ := ofImages_represents accepted
  obtain ⟨τ, hq⟩ : ∃ τ : Equiv.Perm (Fin ps.length), q.Represents τ := by
    obtain ⟨τ, -, hq⟩ := ofImages_represents accepted'
    rw [← same]
    exact ⟨τ, hq⟩
  refine ⟨?_, ?_, ?_, isEven_eq, ?_⟩
  · refine (yields_isOdd hp.shape id).mono fun b parity => ?_
    rw [parity σ hp.graph, sign_eq_neg_one_iff, card_inverted images]
  · refine (yields_compose hp hq id).mono fun r hr a b ran ran' => ?_
    obtain ⟨c, run, -⟩ := (isOdd_alike (hp.shape.trans hr.shape.symm)).of_ok ran
    have parity := hr.isOdd_iff run
    rw [Equiv.Perm.sign_mul] at parity
    rw [run, xor_eq (hp.isOdd_iff ran) (hq.isOdd_iff ran') parity]
  · refine (yields_invert hp id).mono fun r hr => isOdd_eq hr hp ?_
    exact Equiv.Perm.sign_inv σ
  · refine (yields_identity fun room => room.mono (by decide)).bind fun r hr => ?_
    refine (yields_isEven hr.shape id).mono fun b even => ?_
    exact (even 1 hr.graph).mpr Equiv.Perm.sign_one

/-- The exchange of the first two of three elements. -/
def exchange : Permutation Bool :=
  ⟨⟨⟨[3, 3], [false, true, false, true, false, false, false, false, true], rfl⟩⟩⟩

/-- The cycle of three elements. -/
def cycle : Permutation Bool :=
  ⟨⟨⟨[3, 3], [false, true, false, false, false, true, true, false, false], rfl⟩⟩⟩

/-- An exchange is odd and a cycle of three is even, so the one after the other is odd. -/
theorem isOdd_homomorphism_exchange_cycle :
    ofImages [1, 0, 2] = .ok exchange ∧ ofImages [1, 2, 0] = .ok cycle ∧
      [1, 2, 0].length = [1, 0, 2].length ∧ exchange.isOdd = .ok true ∧
      ∃ r, exchange.compose cycle = .ok r ∧ r.isOdd = .ok true := by
  have accepted : ofImages [1, 0, 2] = .ok exchange := by rfl
  have accepted' : ofImages [1, 2, 0] = .ok cycle := by rfl
  have room : Shape.Spacious 3 4 := by decide
  have odd : exchange.isOdd = .ok true := by
    rcases (isOdd_homomorphism accepted accepted' rfl).1 with ⟨b, run, parity⟩ | ⟨narrow, -⟩
    · rw [run, parity.mpr (by decide)]
    · exact absurd room narrow
  have even : cycle.isOdd = .ok false := by
    rcases (isOdd_homomorphism accepted' accepted rfl).1 with ⟨b, run, parity⟩ | ⟨narrow, -⟩
    · rw [run, Except.ok.injEq, Bool.eq_false_iff, ne_eq, parity]
      decide
    · exact absurd room narrow
  refine ⟨accepted, accepted', rfl, odd, ?_⟩
  rcases (isOdd_homomorphism accepted accepted' rfl).2.1 with ⟨r, run, parity⟩ | ⟨narrow, -⟩
  · exact ⟨r, run, parity true false odd even⟩
  · exact absurd (room.mono (by decide)) narrow

end Permutation

end FiniteStructures
