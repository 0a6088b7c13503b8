import FiniteStructures.Operation.Identities
import FiniteStructures.Operation.Polymorphism
import FiniteStructures.Permutation
import FiniteStructures.Poset
import FiniteStructures.Proofs.Parametricity.Relations

/-!
The constructions on operations, permutations and partial orders, and the predicates about them,
keep every simulation of boolean domains.
-/

namespace FiniteStructures

/-- Operations with related graphs. -/
def Operation.Rel {E F : Type} (r : E → F → Prop) (f : Operation E) (g : Operation F) : Prop :=
  f.tensor.Rel r g.tensor

/-- Permutations with related graphs. -/
def Permutation.Rel {E F : Type} (r : E → F → Prop) (p : Permutation E) (q : Permutation F) :
    Prop :=
  p.operation.Rel r q.operation

/-- Partial orders with related relations. -/
def Poset.Rel {E F : Type} (r : E → F → Prop) (p : Poset E) (q : Poset F) : Prop :=
  p.relation.Rel r q.relation

namespace Operation

variable {E F : Type} {r : E → F → Prop} {f : Operation E} {g : Operation F}

theorem Rel.arity (h : Rel r f g) : f.arity = g.arity := by
  unfold Operation.arity
  rw [h.order]

theorem Rel.toRelation (h : Rel r f g) : f.toRelation.Rel r g.toRelation := h

theorem Rel.size (h : Rel r f g) : f.size = g.size := h.toRelation.size

theorem Rel.requireArity (h : Rel r f g) (n : Nat) : f.requireArity n = g.requireArity n := by
  unfold Operation.requireArity
  rw [h.arity]

theorem ofTensor_rel {t : Tensor E} {u : Tensor F} (h : t.Rel r u) :
    Agree (Rel r) (ofTensor t) (ofTensor u) :=
  (Relation.ofTensor_rel h).bind fun _ _ hr => .ok hr

theorem polymer_rel (h : Rel r f g) (arity : Nat) (map : List Nat) :
    Agree (Rel r) (f.polymer arity map) (g.polymer arity map) := by
  unfold polymer
  rw [h.arity, h.size]
  refine Tracking.guard (T := Tracking.outcome) (w := ()) (R := fun _ => Rel r) Iff.rfl rfl rfl ?_
  intro _
  have rest : Agree (Rel r)
      (do
        let size ← g.size
        return ⟨← f.tensor.reshape (← graphShape size arity) (0 :: map.map (· + 1))⟩)
      (do
        let size ← g.size
        return ⟨← g.tensor.reshape (← graphShape size arity) (0 :: map.map (· + 1))⟩) := by
    refine (Agree.refl _).bind ?_
    intro size _ hs
    subst hs
    refine (Agree.refl _).bind ?_
    intro shape _ hs
    subst hs
    exact (Tensor.reshape_rel h _ _).bind fun _ _ ht => .ok ht
  split
  · refine (Agree.refl _).bind ?_
    intro bad _ hb
    subst hb
    exact .error _
  · exact rest

end Operation

namespace Permutation

variable {E F : Type} {r : E → F → Prop} {p : Permutation E} {q : Permutation F}

theorem Rel.size (h : Rel r p q) : p.size = q.size := Operation.Rel.size h

theorem ofOperation_rel {f : Operation E} {g : Operation F} (h : f.Rel r g) :
    Agree (Rel r) (ofOperation f) (ofOperation g) := by
  unfold ofOperation
  rw [h.arity]
  split
  · exact .error _
  · exact .ok h

theorem invert_rel (h : Rel r p q) : Agree (Rel r) p.invert q.invert :=
  (Relation.revert_rel (a := p.operation.toRelation) (b := q.operation.toRelation) h).bind
    fun _ _ hr => (Operation.ofTensor_rel hr).bind fun _ _ hf => .ok hf

end Permutation

namespace Poset

variable {E F : Type} {r : E → F → Prop} {p : Poset E} {q : Poset F}

theorem ofRelation_rel {a : Relation E} {b : Relation F} (h : a.Rel r b) :
    Agree (Rel r) (ofRelation a) (ofRelation b) := by
  unfold ofRelation
  rw [h.arity]
  split
  · exact .error _
  · exact .ok h

theorem invert_rel (h : Rel r p q) : Agree (Rel r) p.invert q.invert :=
  (Relation.revert_rel h).bind fun _ _ hr => .ok hr

end Poset

namespace Simulation

variable {E F : Type} {m : Type → Type} [Monad m] [MonadLiftT Outcome m] [BooleanDomain E m]
  [BooleanDomain F Outcome] (S : Simulation E m F)

/-- Operations of related elements. -/
abbrev operation (w : S.World) : Operation E → Operation F → Prop := Operation.Rel (S.rel w)

/-- Permutations of related elements. -/
abbrev permutation (w : S.World) : Permutation E → Permutation F → Prop :=
  Permutation.Rel (S.rel w)

/-- Partial orders of related elements. -/
abbrev poset (w : S.World) : Poset E → Poset F → Prop := Poset.Rel (S.rel w)

theorem stable_operation : S.Stable S.operation :=
  fun w w' _ _ hw h => Tracking.stable_tensor S.stable w w' _ _ hw h

variable {S} {w : S.World} {f f' : Operation E} {g g' : Operation F}

/-! ## Operations -/

theorem projection (size arity coord : Nat) :
    Agree (S.operation w) (Operation.projection size arity coord)
      (Operation.projection size arity coord) := by
  unfold Operation.projection
  split
  · refine (Agree.refl _).bind ?_
    intro _ _ hn
    subst hn
    exact .error _
  · refine (Agree.refl _).bind ?_
    intro _ _ hs
    subst hs
    exact (Tensor.generate_rel fun _ => .ok (S.rel_constant w _)).bind fun _ _ ht => .ok ht

theorem const (size arity value : Nat) :
    Agree (S.operation w) (Operation.const size arity value)
      (Operation.const size arity value) :=
  (Agree.refl _).bind fun _ _ hs => hs ▸
    (Tensor.generate_rel fun _ => .ok (S.rel_constant w _)).bind fun _ _ ht => .ok ht

theorem lift_operation (f : Operation Bool) : S.operation w f.lift f.lift :=
  S.lift_relation f.toRelation

theorem projection_size (h : S.operation w f g) (arity coord : Nat) :
    Agree (S.operation w) (do Operation.projection (← f.size) arity coord)
      (do Operation.projection (← g.size) arity coord) := by
  rw [h.size]
  exact (Agree.refl _).bind fun _ _ hs => hs ▸ projection _ _ _

theorem isOperation (h : S.operation w f g) :
    S.Tracks w S.rel f.isOperation g.isOperation :=
  isFunction h.toRelation

theorem isSurjective (h : S.operation w f g) :
    S.Tracks w S.rel f.isSurjective g.isSurjective := by
  unfold Operation.isSurjective
  rw [h.arity]
  refine S.bind (Tracking.lift_self _) fun hw hv => ?_
  subst hv
  have h := S.stable_operation _ _ _ _ hw h
  exact S.bind (query_logical (.cons (named h _) .nil) _) fun _ ht => S.all ht.elems

/-! ## Superposition -/

theorem requireArities {inner : List (Operation E)} {inner' : List (Operation F)}
    (h : List.Forall₂ (S.operation w) inner inner') (arity : Nat) :
    Operation.requireArities arity inner = Operation.requireArities arity inner' := by
  unfold Operation.requireArities
  induction h with
  | nil => rfl
  | @cons f g inner inner' hfg _ ih =>
    show (do f.requireArity arity; inner.forM fun f => f.requireArity arity) =
      (do g.requireArity arity; inner'.forM fun g => g.requireArity arity)
    rw [hfg.requireArity, ih]

theorem composeWith (h : S.operation w f g) {inner : List (Operation E)}
    {inner' : List (Operation F)} (hi : List.Forall₂ (S.operation w) inner inner') :
    S.Tracks w S.operation (f.composeWith inner) (g.composeWith inner') := by
  unfold Operation.composeWith
  rw [h.arity, hi.length_eq]
  refine Tracking.guard Iff.rfl rfl rfl ?_
  intro _
  cases hi with
  | nil => exact Tracking.fails rfl rfl
  | cons hfirst hrest =>
    have hi := hrest.cons hfirst
    simp only [hfirst.arity, requireArities hi]
    refine S.bind (Tracking.lift_self _) fun hw _ => ?_
    refine S.bind (Tracking.lift_self _) fun hw' hv => ?_
    subst hv
    have hw := S.le_trans hw hw'
    have h := S.stable_operation _ _ _ _ hw h
    have hi := Tracking.forall₂_mono S.stable_operation hw hi
    refine S.bind (query_logical (.cons (named h _) ?_) _) fun _ ht =>
      S.lift (Operation.ofTensor_rel ht)
    exact Tracking.forall₂_zipWith hi (fun _ _ hfg _ => named hfg _) _

theorem compose_operation (h : S.operation w f g) (h' : S.operation w f' g') :
    S.Tracks w S.operation (f.compose f') (g.compose g') := by
  unfold Operation.compose
  rw [h.requireArity, h'.requireArity]
  refine S.bind (Tracking.lift_self _) fun hw _ => ?_
  refine S.bind (Tracking.lift_self _) fun hw' _ => ?_
  have hw := S.le_trans hw hw'
  exact composeWith (S.stable_operation _ _ _ _ hw h)
    (.cons (S.stable_operation _ _ _ _ hw h') .nil)

/-! ## Identities -/

theorem isEqualTo_operation (h : S.operation w f g) (h' : S.operation w f' g') :
    S.Tracks w S.rel (f.isEqualTo f') (g.isEqualTo g') :=
  isEqualTo h.toRelation h'.toRelation

theorem isSatisfied (h : S.operation w f g) (left right : List Nat) :
    S.Tracks w S.rel (f.isSatisfied left right) (g.isSatisfied left right) := by
  refine S.bind (Tracking.lift_self _) fun hw hv => ?_
  subst hv
  have h := S.stable_operation _ _ _ _ hw h
  refine S.bind (R := S.operation) (S.lift (Operation.polymer_rel h _ _)) fun hw hl => ?_
  have h := S.stable_operation _ _ _ _ hw h
  refine S.bind (R := S.operation) (S.lift (Operation.polymer_rel h _ _)) fun hw' hr => ?_
  exact isEqualTo_operation (S.stable_operation _ _ _ _ hw' hl) hr

theorem isSatisfiedByVariable (h : S.operation w f g) (pattern : List Nat) (var : Nat) :
    S.Tracks w S.rel (f.isSatisfiedByVariable pattern var)
      (g.isSatisfiedByVariable pattern var) := by
  refine S.bind (Tracking.lift_self _) fun hw hv => ?_
  subst hv
  have h := S.stable_operation _ _ _ _ hw h
  refine S.bind (R := S.operation) (S.lift (Operation.polymer_rel h _ _)) fun hw hl => ?_
  have h := S.stable_operation _ _ _ _ hw h
  refine S.bind (R := S.operation) (S.lift (projection_size h _ _)) fun hw' hr => ?_
  exact isEqualTo_operation (S.stable_operation _ _ _ _ hw' hl) hr

theorem isProjection (h : S.operation w f g) :
    S.Tracks w S.rel f.isProjection g.isProjection := by
  have range : List.Forall₂ Eq (List.range f.arity) (List.range g.arity) := by
    rw [h.arity]
    exact List.forall₂_same.mpr fun _ _ => rfl
  refine S.bind (Tracking.traverse (R := fun _ => Eq) (S := S.rel) (fun _ _ _ _ _ h => h) S.stable
    ?_ range) fun _ hl => S.any hl
  intro w' coord _ hw hi
  subst hi
  have h := S.stable_operation _ _ _ _ hw h
  have candidate : Agree (S.operation w') (do Operation.projection (← f.size) f.arity coord)
      (do Operation.projection (← g.size) g.arity coord) := by
    rw [h.arity]
    exact projection_size h _ _
  exact S.bind (R := S.operation) (S.lift candidate) fun hw hp =>
    isEqualTo_operation (S.stable_operation _ _ _ _ hw h) hp

theorem isIdempotent (h : S.operation w f g) :
    S.Tracks w S.rel f.isIdempotent g.isIdempotent := by
  unfold Operation.isIdempotent
  rw [h.arity]
  exact isSatisfiedByVariable h _ _

theorem isCommutative (h : S.operation w f g) :
    S.Tracks w S.rel f.isCommutative g.isCommutative := by
  unfold Operation.isCommutative
  rw [h.requireArity]
  exact S.bind (Tracking.lift_self _) fun hw _ =>
    isSatisfied (S.stable_operation _ _ _ _ hw h) _ _

theorem isAssociative (h : S.operation w f g) :
    S.Tracks w S.rel f.isAssociative g.isAssociative := by
  unfold Operation.isAssociative
  rw [h.requireArity, h.size]
  have stable {w w' : S.World} (hw : S.le w w') {f : Operation E} {g : Operation F}
      (h : S.operation w f g) := S.stable_operation _ _ _ _ hw h
  refine S.bind (Tracking.lift_self _) fun hw _ => ?_
  refine S.bind (Tracking.lift_self _) fun hw' hs => ?_
  subst hs
  have h := stable (S.le_trans hw hw') h
  refine S.bind (R := S.operation) (S.lift (projection _ _ _)) fun hw hx => ?_
  have h := stable hw h
  refine S.bind (R := S.operation) (S.lift (projection _ _ _)) fun hw hz => ?_
  have h := stable hw h
  have hx := stable hw hx
  refine S.bind (R := S.operation) (S.lift (Operation.polymer_rel h _ _)) fun hw hxy => ?_
  have h := stable hw h
  have hx := stable hw hx
  have hz := stable hw hz
  refine S.bind (R := S.operation) (S.lift (Operation.polymer_rel h _ _)) fun hw hyz => ?_
  have h := stable hw h
  have hx := stable hw hx
  refine S.bind (composeWith h (.cons (stable hw hxy) (.cons (stable hw hz) .nil)))
    fun hw hleft => ?_
  refine S.bind (composeWith (stable hw h) (.cons (stable hw hx) (.cons (stable hw hyz) .nil)))
    fun hw hright => ?_
  exact isEqualTo_operation (stable hw hleft) hright

/-- Three identities of an operation of arity three that are given by patterns. -/
theorem three_identities (h : S.operation w f g) (arity : Nat) (p q s : List Nat)
    (x y z : Nat) :
    S.Tracks w S.rel
      (do
        f.requireArity arity
        let a ← f.isSatisfiedByVariable p x
        let b ← f.isSatisfiedByVariable q y
        let c ← f.isSatisfiedByVariable s z
        BooleanDomain.all [a, b, c])
      (do
        g.requireArity arity
        let a ← g.isSatisfiedByVariable p x
        let b ← g.isSatisfiedByVariable q y
        let c ← g.isSatisfiedByVariable s z
        BooleanDomain.all [a, b, c]) := by
  rw [h.requireArity]
  refine S.bind (Tracking.lift_self _) fun hw _ => ?_
  have h := S.stable_operation _ _ _ _ hw h
  exact all_three (isSatisfiedByVariable h _ _)
    (fun hw => isSatisfiedByVariable (S.stable_operation _ _ _ _ hw h) _ _)
    fun hw => isSatisfiedByVariable (S.stable_operation _ _ _ _ hw h) _ _

theorem isMajority (h : S.operation w f g) : S.Tracks w S.rel f.isMajority g.isMajority :=
  three_identities h 3 [0, 0, 1] [0, 1, 0] [1, 0, 0] 0 0 0

theorem isMinority (h : S.operation w f g) : S.Tracks w S.rel f.isMinority g.isMinority :=
  three_identities h 3 [0, 0, 1] [0, 1, 0] [1, 0, 0] 1 1 1

theorem isMaltsev (h : S.operation w f g) : S.Tracks w S.rel f.isMaltsev g.isMaltsev := by
  unfold Operation.isMaltsev
  rw [h.requireArity]
  refine S.bind (Tracking.lift_self _) fun hw _ => ?_
  have h := S.stable_operation _ _ _ _ hw h
  exact and_both (isSatisfiedByVariable h _ _) fun hw =>
    isSatisfiedByVariable (S.stable_operation _ _ _ _ hw h) _ _

/-! ## Preservation -/

theorem violationEntries (h : S.operation w f g) {a a' : Relation E} {b b' : Relation F}
    (hr : S.relation w a b) (ho : S.relation w a' b') (vars : List Char) :
    List.Forall₂ (fun p q => S.tensor w p.1 q.1 ∧ p.2 = q.2) (f.violationEntries a a' vars)
      (g.violationEntries b b' vars) := by
  unfold Operation.violationEntries
  rw [h.arity, hr.arity]
  refine List.rel_append (List.rel_append ?_ ?_) (.cons (named ho _) .nil)
  · exact List.rel_map (R := Eq) (fun _ _ hi => hi ▸ named h _)
      (List.forall₂_same.mpr fun _ _ => rfl)
  · exact List.rel_map (R := Eq) (fun _ _ hi => hi ▸ named hr _)
      (List.forall₂_same.mpr fun _ _ => rfl)

theorem preserves (h : S.operation w f g) {a : Relation E} {b : Relation F}
    (hr : S.relation w a b) : S.Tracks w S.rel (f.preserves a) (g.preserves b) := by
  unfold Operation.preserves
  rw [h.size, hr.size, h.arity, hr.arity]
  refine S.bind (Tracking.lift_self _) fun hw hn => ?_
  subst hn
  refine S.bind (Tracking.lift_self _) fun hw' hn => ?_
  subst hn
  have hw := S.le_trans hw hw'
  refine Tracking.guard Iff.rfl rfl rfl ?_
  intro _
  refine S.bind (Tracking.lift_self _) fun hw' _ => ?_
  have hw := S.le_trans hw hw'
  refine S.bind (Tracking.lift_self _) fun hw' hv => ?_
  subst hv
  have hw := S.le_trans hw hw'
  refine S.bind (complement (S.stable_relation _ _ _ _ hw hr)) fun hw' ho => ?_
  have hw := S.le_trans hw hw'
  refine S.bind (query_logical (violationEntries (S.stable_operation _ _ _ _ hw h)
    (S.stable_relation _ _ _ _ hw hr) ho _) _) fun _ hv => ?_
  exact S.bind (S.lift (Tensor.toScalar_rel hv)) fun _ => S.neg

/-! ## Permutations -/

variable {p p' : Permutation E} {q q' : Permutation F}

theorem stable_permutation : S.Stable S.permutation :=
  fun w w' _ _ hw h => Tracking.stable_tensor S.stable w w' _ _ hw h

theorem identity (size : Nat) :
    Agree (S.permutation w) (Permutation.identity size) (Permutation.identity size) :=
  (equal size).bind fun _ _ hr => .ok hr

theorem isPermutation (h : S.permutation w p q) :
    S.Tracks w S.rel p.isPermutation q.isPermutation :=
  and_both (isOperation h) fun hw => isSurjective (S.stable_operation _ _ _ _ hw h)

theorem compose_permutation (h : S.permutation w p q) (h' : S.permutation w p' q') :
    S.Tracks w S.permutation (p.compose p') (q.compose q') :=
  S.bind (compose_operation h h') fun _ hf => S.pure hf

theorem isOdd (h : S.permutation w p q) : S.Tracks w S.rel p.isOdd q.isOdd := by
  unfold Permutation.isOdd
  rw [h.size]
  refine S.bind (R := S.relation) (S.lift ?_) fun hw hl => ?_
  · exact (Agree.refl _).bind fun _ _ hs => hs ▸ lessThan _
  have h := S.stable_permutation _ _ _ _ hw h
  refine S.bind (S.linear.query (.cons (named hl _) (.cons (named h _) (.cons (named h _)
    (.cons (named hl _) .nil)))) _) fun _ ht => ?_
  exact S.lift (Tensor.toScalar_rel ht)

theorem isEven (h : S.permutation w p q) : S.Tracks w S.rel p.isEven q.isEven :=
  S.bind (isOdd h) fun _ => S.neg

/-! ## Partial orders -/

variable {o o' : Poset E} {u u' : Poset F}

theorem stable_poset : S.Stable S.poset :=
  fun w w' _ _ hw h => Tracking.stable_tensor S.stable w w' _ _ hw h

theorem chain (size : Nat) : Agree (S.poset w) (Poset.chain size) (Poset.chain size) :=
  (lessOrEqual size).bind fun _ _ hr => .ok hr

theorem antichain (size : Nat) :
    Agree (S.poset w) (Poset.antichain size) (Poset.antichain size) :=
  (equal size).bind fun _ _ hr => .ok hr

theorem isPartialOrder_poset (h : S.poset w o u) :
    S.Tracks w S.rel o.isPartialOrder u.isPartialOrder :=
  isPartialOrder h

theorem isTotalOrder_poset (h : S.poset w o u) :
    S.Tracks w S.rel o.isTotalOrder u.isTotalOrder :=
  isTotalOrder h

theorem intersect_poset (h : S.poset w o u) (h' : S.poset w o' u') :
    S.Tracks w S.poset (o.intersect o') (u.intersect u') :=
  S.bind (intersect h h') fun _ hr => S.pure hr

theorem strict (h : S.poset w o u) : S.Tracks w S.relation o.strict u.strict := by
  unfold Poset.strict
  refine S.bind (R := S.relation) (S.lift (equal_size h)) fun hw he => ?_
  have h := S.stable_poset _ _ _ _ hw h
  exact S.bind (complement he) fun hw hc => intersect (S.stable_poset _ _ _ _ hw h) hc

theorem covers (h : S.poset w o u) : S.Tracks w S.relation o.covers u.covers := by
  unfold Poset.covers
  refine S.bind (strict h) fun _ hs => ?_
  refine S.bind (compose hs hs) fun hw hb => ?_
  have hs := S.stable_relation _ _ _ _ hw hs
  exact S.bind (complement hb) fun hw hd => intersect (S.stable_relation _ _ _ _ hw hs) hd

end Simulation

end FiniteStructures
