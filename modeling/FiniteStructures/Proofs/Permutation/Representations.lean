import FiniteStructures.Proofs.Contraction.Needs
import FiniteStructures.Proofs.Permutation.Parity
import FiniteStructures.Proofs.Tensor.Permuting

/-!
The representations of permutations.  A permutation is a list of images, or the tensor that is true
where an image meets its element, and both are accepted exactly when they are those of a permutation
σ of the numbers below n,

    imagesOf σ           the list with σ x at place x
    p.Represents σ       the tensor that holds at (σ x, x), and nowhere else

so composition, inversion and the identity can be computed in either one.
-/

namespace FiniteStructures

namespace Permutation

open Outcome Tensor

variable {safe : Prop} {n : Nat} {p q r : Permutation Bool} {σ τ : Equiv.Perm (Fin n)}
  {l : List Nat} {t : Tensor Bool}

/-! ## Lists of images -/

/-- The images of the numbers below `n`, in order. -/
def imagesOf (σ : Equiv.Perm (Fin n)) : List Nat := List.ofFn fun x => (σ x : Nat)

@[simp]
theorem length_imagesOf (σ : Equiv.Perm (Fin n)) : (imagesOf σ).length = n := List.length_ofFn

theorem getElem?_imagesOf {x y : Nat} :
    (imagesOf σ)[x]? = some y ↔ ∃ i : Fin n, (i : Nat) = x ∧ (σ i : Nat) = y := by
  unfold imagesOf
  rw [List.getElem?_ofFn]
  constructor
  · intro found
    split at found
    · next lt => exact ⟨⟨x, lt⟩, rfl, Option.some.inj found⟩
    · cases found
  · rintro ⟨i, rfl, rfl⟩
    rw [dif_pos i.isLt]

theorem imagesOf_perm (σ : Equiv.Perm (Fin n)) : (imagesOf σ).Perm (List.range n) := by
  have distinct : (imagesOf σ).Nodup := List.nodup_ofFn.mpr (Fin.val_injective.comp σ.injective)
  refine perm_range_iff.mpr ⟨length_imagesOf σ, distinct, fun y hy => ?_⟩
  obtain ⟨x, rfl⟩ := List.mem_ofFn.mp hy
  exact (σ x).isLt

/-- Images that come once and were not seen before pass. -/
theorem areImages_go_of {images : List Nat} {seen : List Bool}
    (unseen : ∀ y ∈ images, seen[y]? = some false) (distinct : images.Nodup) :
    areImages.go images seen = true := by
  induction images generalizing seen with
  | nil => rfl
  | cons y rest ih =>
    obtain ⟨first, later⟩ := List.forall_mem_cons.mp unseen
    obtain ⟨once, distinct'⟩ := List.nodup_cons.mp distinct
    unfold areImages.go
    rw [Bool.and_eq_true, decide_eq_true_iff]
    refine ⟨first, ih ?_ distinct'⟩
    intro z hz
    have other : y ≠ z := fun same => once (by rwa [same])
    rw [List.getElem?_set_ne other]
    exact later z hz

/-- The images that pass are the rearrangements of the numbers below their number. -/
theorem areImages_iff : areImages l = true ↔ l.Perm (List.range l.length) := by
  constructor
  · intro passed
    obtain ⟨unseen, distinct⟩ := areImages_go passed
    refine perm_range_iff.mpr ⟨rfl, distinct, fun y hy => ?_⟩
    have flagged := (List.getElem?_eq_some_iff.mp (unseen y hy)).1
    rwa [List.length_replicate] at flagged
  · intro perm
    obtain ⟨-, distinct, below⟩ := perm_range_iff.mp perm
    refine areImages_go_of (fun y hy => ?_) distinct
    rw [List.getElem?_replicate_of_lt (below y hy)]

theorem exists_imagesOf (passed : areImages l = true) :
    ∃ σ : Equiv.Perm (Fin l.length), l = imagesOf σ := by
  obtain ⟨σ, images⟩ := exists_perm passed
  refine ⟨σ, List.ext_getElem (length_imagesOf σ).symm ?_⟩
  intro x lt _
  simp only [imagesOf, List.getElem_ofFn]
  exact (images ⟨x, lt⟩).symm

/-! ## Graphs -/

/-- The permutation sends each place of the list to what is there. -/
structure Lists (p : Permutation Bool) (l : List Nat) : Prop where
  shape : p.tensor.shape = List.replicate 2 l.length
  holds : ∀ y x, p.tensor.Holds [y, x] ↔ l[x]? = some y

theorem represents_iff : p.Represents σ ↔ p.Lists (imagesOf σ) := by
  have same (shape : p.tensor.shape = List.replicate 2 n) :
      p.IsGraph σ ↔ ∀ y x, p.tensor.Holds [y, x] ↔ (imagesOf σ)[x]? = some y := by
    rw [isGraph_iff_pairs]
    constructor
    · intro graph y x
      rw [getElem?_imagesOf]
      constructor
      · intro taken
        have within := taken.within
        rw [shape] at within
        obtain ⟨lt, lt', -⟩ := within
        exact ⟨⟨x, lt'⟩, rfl, congrArg Fin.val ((graph ⟨x, lt'⟩ ⟨y, lt⟩).mp taken).symm⟩
      · rintro ⟨i, rfl, rfl⟩
        exact (graph i (σ i)).mpr rfl
    · intro lists x y
      rw [lists, getElem?_imagesOf]
      constructor
      · rintro ⟨i, here, image⟩
        rw [← Fin.ext here]
        exact Fin.ext image.symm
      · rintro rfl
        exact ⟨x, rfl, rfl⟩
  constructor
  · rintro ⟨shape, graph⟩
    exact ⟨by rw [length_imagesOf, shape], (same shape).mp graph⟩
  · rintro ⟨shape, holds⟩
    rw [length_imagesOf] at shape
    exact ⟨shape, (same shape).mpr holds⟩

theorem Represents.unique (hp : p.Represents σ) (hq : q.Represents σ) : p = q := by
  obtain ⟨⟨t⟩⟩ := p
  obtain ⟨⟨u⟩⟩ := q
  have left : t = graphOf σ := (isGraph_iff hp.shape).mp hp.graph
  have right : u = graphOf σ := (isGraph_iff hq.shape).mp hq.graph
  rw [left, right]

theorem Represents.size_eq (h : p.Represents σ) : p.size = .ok n :=
  Relation.size_of_shape (r := p.operation.toRelation) (k := 1) h.shape

theorem collect_eq {f : Nat → Nat} {rest : List Nat}
    (values : ∀ x ∈ rest, p.operation.value [x] = .ok (some (f x))) (done : List Nat) :
    images.collect p rest done = .ok (some (done.reverse ++ rest.map f)) := by
  induction rest generalizing done with
  | nil =>
    rw [List.map_nil, List.append_nil]
    rfl
  | cons x rest ih =>
    obtain ⟨first, later⟩ := List.forall_mem_cons.mp values
    unfold images.collect
    rw [first]
    refine (ih later (f x :: done)).trans ?_
    rw [List.reverse_cons, List.append_assoc]
    rfl

/-- The images are found in the graph. -/
theorem Represents.images_eq (h : p.Represents σ) : p.images = .ok (some (imagesOf σ)) := by
  have values : ∀ x ∈ List.range n,
      p.operation.value [x] = .ok (some ((imagesOf σ).getD x 0)) := by
    intro x hx
    have lt := List.mem_range.mp hx
    have image : (imagesOf σ)[x]? = some (σ ⟨x, lt⟩ : Nat) :=
      getElem?_imagesOf.mpr ⟨⟨x, lt⟩, rfl, rfl⟩
    rw [List.getD_eq_getElem?_getD, image]
    have within : Shape.Within (List.replicate 1 n) [x] := ⟨lt, trivial⟩
    refine Operation.value_eq h.shape within fun y => ?_
    refine ((represents_iff.mp h).holds y x).trans ?_
    rw [image, Option.some.injEq, eq_comm]
    rfl
  unfold images
  rw [h.size_eq]
  refine (collect_eq values []).trans ?_
  rw [List.reverse_nil, List.nil_append, map_range_eq_ofFn]
  refine congrArg (Except.ok <| some ·) (congrArg List.ofFn (funext fun i => ?_))
  have image : (imagesOf σ)[(i : Nat)]? = some (σ i : Nat) := getElem?_imagesOf.mpr ⟨i, rfl, rfl⟩
  rw [List.getD_eq_getElem?_getD, image]
  rfl

/-! ## What is accepted -/

/-- Images of a permutation give its graph. -/
theorem yields_ofImages_imagesOf (σ : Equiv.Perm (Fin n)) (room : safe → Shape.Spacious n 2) :
    Yields safe (fun p : Permutation Bool => p.Represents σ) (ofImages (imagesOf σ)) := by
  have passed : areImages (imagesOf σ) = true := by
    rw [areImages_iff, length_imagesOf]
    exact imagesOf_perm σ
  obtain ⟨τ, images⟩ := exists_perm passed
  have same : imagesOf τ = imagesOf σ := by
    refine List.ext_getElem (length_imagesOf τ) fun x _ lt => ?_
    simp only [imagesOf, List.getElem_ofFn]
    exact (images ⟨x, lt⟩).trans (List.getElem_ofFn _)
  refine (yields_ofImages passed images ?_).mono fun p hp => ?_
  · rw [length_imagesOf]
    exact room
  · rw [represents_iff, ← same, ← represents_iff]
    exact hp

theorem ofImages_refuses (other : ¬ l.Perm (List.range l.length)) :
    ofImages l = .error (.error (.invalid (.permutationImages l))) := by
  unfold ofImages
  rw [if_pos (areImages_iff.not.mpr other)]
  rfl

/-- A graph that is built from images could be stored. -/
theorem ofImages_ok (accepted : ofImages l = .ok p) :
    ∃ (n : Nat) (σ : Equiv.Perm (Fin n)), l = imagesOf σ ∧ p.Represents σ ∧ Shape.Spacious n 2 := by
  by_cases passed : areImages l = true
  · obtain ⟨σ, images⟩ := exists_imagesOf passed
    have built : Yields False _ (ofImages (imagesOf σ)) := yields_ofImages_imagesOf σ nofun
    refine ⟨l.length, σ, images, built.of_ok (images ▸ accepted), ?_⟩
    unfold ofImages at accepted
    rw [if_neg (not_not.mpr passed)] at accepted
    obtain ⟨f, tabled, -⟩ := bind_ok accepted
    obtain ⟨shape, filled, generated⟩ := bind_ok tabled
    obtain ⟨rfl, -⟩ := Operation.graphShape_ok filled
    obtain ⟨t, cells, -⟩ := bind_ok generated
    obtain ⟨_, stored, -⟩ := bind_ok cells
    exact Shape.spacious_of_storable (by decide) stored
  · rw [ofImages_refuses (areImages_iff.not.mp passed)] at accepted
    cases accepted

/-- The image of a graph of pairs is found where the graph can be stored with its axes exchanged. -/
theorem spacious_of_isSurjective (shape : p.tensor.shape = List.replicate 2 n) {b : Bool}
    (run : p.operation.isSurjective = .ok b) : Shape.Spacious n 2 := by
  have arity : p.operation.arity = 1 := Operation.arity_of_graph (k := 1) shape
  unfold Operation.isSurjective at run
  rw [arity] at run
  obtain ⟨vars, named, queried⟩ := bind_ok run
  obtain rfl : ['a', 'b'] = vars := Except.ok.inj named
  obtain ⟨image, queried, -⟩ := bind_ok queried
  have moved : ['b', 'a'] ≠ ['a', 'b'] := by decide
  have stored : Shape.storable (List.replicate 2 n) = .ok () :=
    Contraction.storable_of_shadow (e := (p.operation.tensor, ['a', 'b'])) shape queried moved
  exact Shape.spacious_of_storable (by decide) stored

theorem ofGraph_represents (hp : p.Represents σ) (room : Shape.Spacious n 2) :
    ofGraph p.tensor = .ok p := by
  have arity : p.operation.arity = 1 := Operation.arity_of_graph (k := 1) hp.shape
  obtain ⟨b, run, found⟩ := (yields_isPermutation hp.shape fun _ => room).of_safe trivial
  obtain rfl : b = true := found.mpr ⟨σ, hp.graph⟩
  unfold ofGraph Operation.ofTensor
  rw [Relation.ofTensor_uniform (k := 1) hp.shape]
  show (ofOperation p.operation >>= _) = _
  rw [ofOperation, arity, if_neg (not_not.mpr rfl)]
  show (p.isPermutation >>= _) = _
  rw [run]
  rfl

theorem ofGraph_ok (accepted : ofGraph t = .ok p) :
    p = ⟨⟨t⟩⟩ ∧ ∃ (n : Nat) (σ : Equiv.Perm (Fin n)), p.Represents σ ∧ Shape.Spacious n 2 := by
  obtain ⟨f, wrapped, rest⟩ := bind_ok accepted
  obtain ⟨u, uniform, given⟩ := bind_ok wrapped
  obtain ⟨rfl, k, n, shape⟩ := Relation.uniform_of_ofTensor uniform
  obtain rfl := Except.ok.inj given
  obtain ⟨q, unary, checked⟩ := bind_ok rest
  unfold ofOperation at unary
  rw [Operation.arity_of_graph shape] at unary
  split at unary
  · cases unary
  · next one =>
    obtain rfl := not_not.mp one
    obtain rfl := Except.ok.inj unary
    obtain ⟨b, run, ends⟩ := bind_ok checked
    cases b with
    | false => cases ends
    | true =>
      obtain rfl := Except.ok.inj ends
      have check : Yields False _ _ := yields_isPermutation (p := ⟨⟨t⟩⟩) shape nofun
      obtain ⟨σ, graph⟩ := (check.of_ok run).mp rfl
      obtain ⟨_, -, onto⟩ := bind_ok run
      obtain ⟨_, surjective, -⟩ := bind_ok onto
      exact ⟨rfl, n, σ, ⟨shape, graph⟩, spacious_of_isSurjective (p := ⟨⟨t⟩⟩) shape surjective⟩

/-- The accepted tensors are the graphs of the accepted lists. -/
theorem ofGraph_iff : ofGraph t = .ok p ↔ p.tensor = t ∧ ∃ l, ofImages l = .ok p := by
  constructor
  · intro accepted
    obtain ⟨rfl, n, σ, hp, room⟩ := ofGraph_ok accepted
    obtain ⟨q, built, hq⟩ := (yields_ofImages_imagesOf σ fun _ => room).of_safe trivial
    exact ⟨rfl, imagesOf σ, by rw [built, hq.unique hp]⟩
  · rintro ⟨rfl, l, built⟩
    obtain ⟨n, σ, -, hp, room⟩ := ofImages_ok built
    exact ofGraph_represents hp room

/-! ## Computing in either representation -/

theorem imagesOf_one : imagesOf (1 : Equiv.Perm (Fin n)) = List.range n := by
  refine (map_range_eq_ofFn fun x => x).symm.trans ?_
  rw [List.map_id']

theorem getElem?_imagesOf_mul (x : Nat) :
    (imagesOf (σ * τ))[x]? = ((imagesOf τ)[x]?).bind ((imagesOf σ)[·]?) := by
  ext y
  rw [getElem?_imagesOf, Option.bind_eq_some_iff]
  simp only [getElem?_imagesOf]
  constructor
  · rintro ⟨i, rfl, rfl⟩
    exact ⟨τ i, ⟨i, rfl, rfl⟩, τ i, rfl, rfl⟩
  · rintro ⟨z, ⟨i, rfl, rfl⟩, j, same, rfl⟩
    obtain rfl := Fin.ext same
    exact ⟨i, rfl, rfl⟩

theorem getElem?_imagesOf_inv {x y : Nat} :
    (imagesOf σ⁻¹)[y]? = some x ↔ (imagesOf σ)[x]? = some y := by
  rw [getElem?_imagesOf, getElem?_imagesOf]
  constructor
  · rintro ⟨j, rfl, rfl⟩
    exact ⟨σ⁻¹ j, rfl, congrArg Fin.val (σ.apply_symm_apply j)⟩
  · rintro ⟨i, rfl, rfl⟩
    exact ⟨σ i, rfl, congrArg Fin.val (σ.symm_apply_apply i)⟩

/-- Exactly the rearrangements of the numbers below their length are images, and are found again in
the graph that is built from them; exactly these graphs are accepted as tensors.  Composition,
inversion and the identity give accepted graphs with the images they should have, and an inverse
composes to the identity from both sides. -/
theorem representations_agree (accepted : ofGraph p.tensor = .ok p)
    (accepted' : ofGraph q.tensor = .ok q) (sized : p.size = .ok n) (sized' : q.size = .ok n) :
    (∀ l : List Nat,
      (l.Perm (List.range l.length) → Yields (Shape.Spacious l.length 2)
        (fun r : Permutation Bool => r.Lists l ∧ r.images = .ok (some l)) (ofImages l)) ∧
      (¬ l.Perm (List.range l.length) →
        ofImages l = .error (.error (.invalid (.permutationImages l))))) ∧
    (∀ t r, ofGraph t = .ok r ↔ r.tensor = t ∧ ∃ l, ofImages l = .ok r) ∧
    ∃ ps qs inv e, p.images = .ok (some ps) ∧ q.images = .ok (some qs) ∧
      Yields (Shape.Spacious n 3) (fun r : Permutation Bool => ofGraph r.tensor = .ok r ∧
        ∃ rs, r.images = .ok (some rs) ∧ ∀ x : Nat, rs[x]? = (qs[x]?).bind (ps[·]?)) (p.compose q) ∧
      p.invert = .ok inv ∧ ofGraph inv.tensor = .ok inv ∧
      (∃ is, inv.images = .ok (some is) ∧ ∀ x y : Nat, is[y]? = some x ↔ ps[x]? = some y) ∧
      identity n = .ok e ∧ ofGraph e.tensor = .ok e ∧ e.images = .ok (some (List.range n)) ∧
      Yields (Shape.Spacious n 3) (· = e) (p.compose inv) ∧
      Yields (Shape.Spacious n 3) (· = e) (inv.compose p) := by
  refine ⟨?_, fun t r => ofGraph_iff, ?_⟩
  · intro l
    refine ⟨fun perm => ?_, ofImages_refuses⟩
    obtain ⟨σ, images⟩ := exists_imagesOf (areImages_iff.mpr perm)
    have built := yields_ofImages_imagesOf σ (id (α := Shape.Spacious l.length 2))
    rw [← images] at built
    refine built.mono fun r hr => ?_
    have lists := represents_iff.mp hr
    have found := hr.images_eq
    rw [← images] at lists found
    exact ⟨lists, found⟩
  · obtain ⟨-, m, σ, hp, room⟩ := ofGraph_ok accepted
    obtain ⟨-, m', τ, hq, -⟩ := ofGraph_ok accepted'
    obtain rfl : m = n := Except.ok.inj (hp.size_eq.symm.trans sized)
    obtain rfl : m' = m := Except.ok.inj (hq.size_eq.symm.trans sized')
    obtain ⟨inv, inverted, hi⟩ := (yields_invert hp fun _ => room).of_safe trivial
    obtain ⟨e, built, he⟩ := (yields_identity fun _ => room).of_safe trivial
    refine ⟨imagesOf σ, imagesOf τ, inv, e, hp.images_eq, hq.images_eq, ?_, inverted,
      ofGraph_represents hi room, ⟨_, hi.images_eq, fun _ _ => getElem?_imagesOf_inv⟩, built,
      ofGraph_represents he room, imagesOf_one ▸ he.images_eq, ?_, ?_⟩
    · exact (yields_compose hp hq id).mono fun r hr =>
        ⟨ofGraph_represents hr room, _, hr.images_eq, getElem?_imagesOf_mul⟩
    · refine (yields_compose hp hi id).mono fun r hr => ?_
      rw [mul_inv_cancel] at hr
      exact hr.unique he
    · refine (yields_compose hi hp id).mono fun r hr => ?_
      rw [inv_mul_cancel] at hr
      exact hr.unique he

/-- The cycle 0 → 1 → 2 → 0 after the exchange of 0 and 1, and the cycle backwards. -/
theorem representations_agree_cycle_exchange :
    ofGraph cycle.tensor = .ok cycle ∧ ofGraph exchange.tensor = .ok exchange ∧
      cycle.size = .ok 3 ∧ exchange.size = .ok 3 ∧
      (∃ r, cycle.compose exchange = .ok r ∧ r.images = .ok (some [2, 1, 0])) ∧
      ∃ r, cycle.invert = .ok r ∧ r.images = .ok (some [2, 0, 1]) := by
  have accepted : ofGraph cycle.tensor = .ok cycle := ofGraph_iff.mpr ⟨rfl, [1, 2, 0], rfl⟩
  have accepted' : ofGraph exchange.tensor = .ok exchange := ofGraph_iff.mpr ⟨rfl, [1, 0, 2], rfl⟩
  obtain ⟨-, -, ps, qs, inv, e, images, images', composed, inverted, -, ⟨is, found, back⟩, -⟩ :=
    representations_agree (n := 3) accepted accepted' rfl rfl
  have first : cycle.images = .ok (some [1, 2, 0]) := by decide +kernel
  have second : exchange.images = .ok (some [1, 0, 2]) := by decide +kernel
  obtain rfl : [1, 2, 0] = ps := Option.some.inj (Except.ok.inj (first.symm.trans images))
  obtain rfl : [1, 0, 2] = qs := Option.some.inj (Except.ok.inj (second.symm.trans images'))
  refine ⟨accepted, accepted', rfl, rfl, ?_, inv, inverted, ?_⟩
  · obtain ⟨r, run, -, rs, images, places⟩ := composed.of_safe (by decide)
    have same : rs = [2, 1, 0] := by
      refine List.ext_getElem? fun x => ?_
      rw [places]
      match x with
      | 0 | 1 | 2 | x + 3 => rfl
    exact ⟨r, run, by rw [images, same]⟩
  · have same : is = [2, 0, 1] := by
      refine List.ext_getElem? fun y => ?_
      match y with
      | 0 => exact (back 2 0).mpr rfl
      | 1 => exact (back 0 1).mpr rfl
      | 2 => exact (back 1 2).mpr rfl
      | y + 3 =>
        refine Option.eq_none_iff_forall_ne_some.mpr fun x here => ?_
        have image : y + 3 ∈ [1, 2, 0] := List.mem_of_getElem? ((back x (y + 3)).mp here)
        simp at image
    rw [found, same]

end Permutation

end FiniteStructures
