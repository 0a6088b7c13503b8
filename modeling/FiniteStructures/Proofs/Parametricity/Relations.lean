import FiniteStructures.Relation.Closure
import FiniteStructures.Relation.Predicates
import FiniteStructures.Proofs.Parametricity.Contractions

/-!
The constructions on relations and the predicates about them keep every simulation of boolean
domains.  Each lemma has the name of the construction.

A closure stops at the first round that changes nothing.  The rounds of the two sides need not stop
together: distinct literals may have equal values.  Elements that stay the same on the first side
do so on the second one, and where only the second side has stopped, the first one goes on among
relations that are all related to the same one (`closeUp_fixed`).
-/

namespace FiniteStructures

/-- Relations with related tensors. -/
def Relation.Rel {E F : Type} (r : E → F → Prop) (a : Relation E) (b : Relation F) : Prop :=
  a.tensor.Rel r b.tensor

namespace Relation

variable {E F : Type} {r : E → F → Prop} {a : Relation E} {b : Relation F}

theorem Rel.arity (h : Rel r a b) : a.arity = b.arity := h.order

theorem Rel.size (h : Rel r a b) : a.size = b.size := by
  unfold Relation.size
  rw [h.shape]

theorem Rel.requireArity (h : Rel r a b) (n : Nat) : a.requireArity n = b.requireArity n := by
  unfold Relation.requireArity
  rw [h.arity]

theorem ofTensor_rel {t : Tensor E} {u : Tensor F} (h : t.Rel r u) :
    Agree (Rel r) (ofTensor t) (ofTensor u) := by
  have horder := h.order
  obtain ⟨shape, elems, _⟩ := t
  obtain ⟨shape', elems', _⟩ := u
  obtain rfl : shape = shape' := h.shape
  unfold ofTensor
  rw [horder]
  cases shape with
  | nil => exact .error _
  | cons d ds =>
    dsimp only
    split
    · exact .ok h
    · exact .error _

theorem revert_rel (h : Rel r a b) : Agree (Rel r) a.revert b.revert := by
  unfold revert
  rw [h.arity]
  exact (Tensor.permute_rel h _).bind fun _ _ ht => .ok ht

theorem rotate_rel (h : Rel r a b) : Agree (Rel r) a.rotate b.rotate := by
  unfold rotate
  rw [h.arity]
  exact (Tensor.permute_rel h _).bind fun _ _ ht => .ok ht

theorem swap_rel (h : Rel r a b) : Agree (Rel r) a.swap b.swap := by
  unfold swap
  rw [h.arity]
  exact (Tensor.permute_rel h _).bind fun _ _ ht => .ok ht

theorem diagonal_rel (h : Rel r a b) : Agree (Rel r) a.diagonal b.diagonal := by
  unfold diagonal
  rw [h.arity, h.size]
  refine (Agree.refl _).bind fun size _ hs => ?_
  subst hs
  exact (Tensor.reshape_rel h _ _).bind fun _ _ ht => .ok ht

end Relation

namespace Simulation

variable {E F : Type} {m : Type → Type} [Monad m] [MonadLiftT Outcome m] [BooleanDomain E m]
  [BooleanDomain F Outcome] (S : Simulation E m F)

/-- Tensors of related elements. -/
abbrev tensor (w : S.World) : Tensor E → Tensor F → Prop := Tensor.Rel (S.rel w)

/-- Relations of related elements. -/
abbrev relation (w : S.World) : Relation E → Relation F → Prop := Relation.Rel (S.rel w)

theorem stable_relation : S.Stable S.relation :=
  fun w w' _ _ hw h => Tracking.stable_tensor S.stable w w' _ _ hw h

variable {S} {w : S.World} {a a' : Relation E} {b b' : Relation F}

/-! ## Constructors -/

theorem full (size arity : Nat) : Agree (S.relation w) (Relation.full size arity)
    (Relation.full size arity) :=
  (Agree.refl _).bind fun _ _ hs => hs ▸
    (Tensor.constant_rel (S.truth w) _).bind fun _ _ ht => .ok ht

theorem empty (size arity : Nat) : Agree (S.relation w) (Relation.empty size arity)
    (Relation.empty size arity) :=
  (Agree.refl _).bind fun _ _ hs => hs ▸
    (Tensor.constant_rel (S.falsity w) _).bind fun _ _ ht => .ok ht

theorem binary (size : Nat) (holds : Nat → Nat → Bool) :
    Agree (S.relation w) (Relation.binary size holds) (Relation.binary size holds) := by
  refine Agree.bind (Tensor.generate_rel (r := S.rel w) fun index => ?_) fun _ _ ht => .ok ht
  split
  · exact .ok (S.rel_constant w _)
  · exact .error _

theorem equal (size : Nat) : Agree (S.relation w) (Relation.equal size) (Relation.equal size) :=
  binary size _

theorem lessThan (size : Nat) :
    Agree (S.relation w) (Relation.lessThan size) (Relation.lessThan size) :=
  binary size _

theorem lessOrEqual (size : Nat) :
    Agree (S.relation w) (Relation.lessOrEqual size) (Relation.lessOrEqual size) :=
  binary size _

theorem lift_relation (r : Relation Bool) : S.relation w r.lift r.lift :=
  ⟨rfl, List.rel_map (R := Eq) (fun _ _ h => h ▸ S.rel_constant w _)
    (List.forall₂_same.mpr fun _ _ => rfl)⟩

/-- The equality relation on the set of a relation. -/
theorem equal_size (h : S.relation w a b) :
    Agree (S.relation w) (do Relation.equal (← a.size)) (do Relation.equal (← b.size)) := by
  rw [h.size]
  exact (Agree.refl _).bind fun _ _ hs => hs ▸ equal _

/-! ## Boolean combinations -/

theorem intersect (h : S.relation w a b) (h' : S.relation w a' b') :
    S.Tracks w S.relation (a.intersect a') (b.intersect b') :=
  S.bind (Tracking.map2M S.stable S.stable S.stable (fun _ => S.and) h h') fun _ ht => S.pure ht

theorem union (h : S.relation w a b) (h' : S.relation w a' b') :
    S.Tracks w S.relation (a.union a') (b.union b') :=
  S.bind (Tracking.map2M S.stable S.stable S.stable (fun _ => S.or) h h') fun _ ht => S.pure ht

theorem symmdiff (h : S.relation w a b) (h' : S.relation w a' b') :
    S.Tracks w S.relation (a.symmdiff a') (b.symmdiff b') :=
  S.bind (Tracking.map2M S.stable S.stable S.stable (fun _ => S.xor) h h') fun _ ht => S.pure ht

theorem complement (h : S.relation w a b) :
    S.Tracks w S.relation a.complement b.complement :=
  S.bind (Tracking.mapM S.stable S.stable (fun _ => S.neg) h) fun _ ht => S.pure ht

/-! ## Coordinates -/

/-- An entry of a query: a tensor with names for its axes. -/
theorem named {t : Tensor E} {u : Tensor F} (h : S.tensor w t u) (vars : List Char) :
    S.tensor w (t, vars).1 (u, vars).1 ∧ (t, vars).2 = (u, vars).2 :=
  ⟨h, rfl⟩

theorem query_logical {es : List (Tensor E × List Char)} {fs : List (Tensor F × List Char)}
    (h : List.Forall₂ (fun p q => S.tensor w p.1 q.1 ∧ p.2 = q.2) es fs) (result : List Char) :
    S.Tracks w S.tensor (Contraction.query SemiringOps.logical es result)
      (Contraction.query SemiringOps.logical fs result) :=
  S.logical.query h result

theorem project (h : S.relation w a b) (coords : List Nat) :
    S.Tracks w S.relation (a.project coords) (b.project coords) := by
  unfold Relation.project
  rw [h.arity]
  refine Tracking.guard Iff.rfl rfl rfl fun _ => ?_
  refine S.bind (Tracking.lift_self _) fun hw hv => ?_
  subst hv
  refine S.bind (Tracking.lift_self _) fun hw' hr => ?_
  subst hr
  have hw := S.le_trans hw hw'
  have h := S.stable_relation _ _ _ _ hw h
  exact S.bind (query_logical (.cons (named h _) .nil) _) fun _ ht =>
    S.lift (Relation.ofTensor_rel ht)

theorem joinWith {ops : SemiringOps E m} {ops' : SemiringOps F Outcome}
    (hops : S.Semiring S.rel ops ops') (h : S.relation w a b) (h' : S.relation w a' b') :
    S.Tracks w S.relation (a.joinWith ops a') (b.joinWith ops' b') := by
  unfold Relation.joinWith
  rw [h.arity, h'.arity]
  refine Tracking.guard Iff.rfl rfl rfl fun _ => ?_
  refine S.bind (Tracking.lift_self _) fun hw ho => ?_
  subst ho
  refine S.bind (Tracking.lift_self _) fun hw' hv => ?_
  subst hv
  have hw := S.le_trans hw hw'
  refine S.bind (Tracking.lift_self _) fun hw' hc => ?_
  subst hc
  have hw := S.le_trans hw hw'
  refine Tracking.guard Iff.rfl rfl rfl fun _ => ?_
  have h := S.stable_relation _ _ _ _ hw h
  have h' := S.stable_relation _ _ _ _ hw h'
  exact S.bind (hops.query (.cons (named h _) (.cons (named h' _) .nil)) _) fun _ ht =>
    S.lift (Relation.ofTensor_rel ht)

theorem compose (h : S.relation w a b) (h' : S.relation w a' b') :
    S.Tracks w S.relation (a.compose a') (b.compose b') :=
  joinWith S.logical h h'

theorem multiply (h : S.relation w a b) (h' : S.relation w a' b') :
    S.Tracks w S.relation (a.multiply a') (b.multiply b') :=
  joinWith S.linear h h'

theorem product (h : S.relation w a b) (h' : S.relation w a' b') :
    S.Tracks w S.relation (a.product a') (b.product b') := by
  unfold Relation.product
  rw [h.arity, h.size, h'.size, h'.requireArity]
  refine S.bind (Tracking.lift_self _) fun hw _ => ?_
  refine S.bind (Tracking.lift_self _) fun hw' hl => ?_
  subst hl
  have hw := S.le_trans hw hw'
  refine S.bind (Tracking.lift_self _) fun hw' hr => ?_
  subst hr
  have hw := S.le_trans hw hw'
  refine S.bind (Tracking.lift_self _) fun hw' hs => ?_
  subst hs
  have hw := S.le_trans hw hw'
  refine S.bind (Tracking.generate S.stable fun index hw' => ?_) fun _ ht => S.pure ht
  have hw := S.le_trans hw hw'
  have get := Tensor.get_rel (S.stable_relation _ _ _ _ hw h)
  have get' := Tensor.get_rel (S.stable_relation _ _ _ _ hw h')
  refine S.bind (R := S.rel) (S.lift (get _)) fun hw ha => ?_
  refine S.bind (R := S.rel) (S.lift ((get' _).mono fun _ _ => S.stable _ _ _ _ hw))
    fun hw' hb => ?_
  exact S.and (S.stable _ _ _ _ hw' ha) hb

theorem times {factor : Relation E} {factor' : Relation F} (hf : S.relation w factor factor')
    (k : Nat) (h : S.relation w a b) :
    S.Tracks w S.relation (Relation.times factor k a) (Relation.times factor' k b) := by
  induction k generalizing w a b with
  | zero => exact S.pure h
  | succ k ih => exact S.bind (product h hf) fun hw hp => ih (S.stable_relation _ _ _ _ hw hf) hp

theorem power (h : S.relation w a b) (k : Nat) :
    S.Tracks w S.relation (a.power k) (b.power k) := by
  unfold Relation.power
  rw [h.arity]
  exact S.bind (R := S.relation) (S.lift (full _ _)) fun hw hf =>
    times (S.stable_relation _ _ _ _ hw h) k hf

/-! ## Closures -/

theorem reflexiveClosure (h : S.relation w a b) :
    S.Tracks w S.relation a.reflexiveClosure b.reflexiveClosure := by
  unfold Relation.reflexiveClosure
  rw [h.requireArity]
  refine S.bind (Tracking.lift_self _) fun hw _ => ?_
  have h := S.stable_relation _ _ _ _ hw h
  exact S.bind (R := S.relation) (S.lift (equal_size h)) fun hw he =>
    union (S.stable_relation _ _ _ _ hw h) he

theorem symmetricClosure (h : S.relation w a b) :
    S.Tracks w S.relation a.symmetricClosure b.symmetricClosure := by
  unfold Relation.symmetricClosure
  rw [h.requireArity]
  refine S.bind (Tracking.lift_self _) fun hw _ => ?_
  have h := S.stable_relation _ _ _ _ hw h
  exact S.bind (R := S.relation) (S.lift (Relation.revert_rel h)) fun hw hr =>
    union (S.stable_relation _ _ _ _ hw h) hr

theorem relation_unique (alive : ¬ S.Failed w) (h : S.relation w a b) (h' : S.relation w a b') :
    b = b' :=
  congrArg Relation.mk (Tensor.Rel.unique (r := S.rel w) (fun _ _ _ => S.functional alive) h h')

variable [DecidableEq E]

/-- In a world that has failed the rounds keep to anything. -/
theorem closeUp_failed (failed : S.Failed w) (n : Nat) (h : S.relation w a b)
    (y : Outcome (Relation F)) : S.Tracks w S.relation (Relation.closeUp n a) y := by
  induction n generalizing w a b y with
  | zero => exact S.failed failed (S.pure h)
  | succ n ih =>
    refine S.failed (y := b.compose b >>= fun step => b.union step) failed ?_
    unfold Relation.closeUp
    refine S.bind (compose h h) fun hw hstep => ?_
    have h := S.stable_relation _ _ _ _ hw h
    rw [← bind_pure (b.union _)]
    refine S.bind (union h hstep) fun hw' hnext => ?_
    have failed := S.failed_le (S.le_trans hw hw') failed
    split
    · exact S.failed failed (S.pure (S.stable_relation _ _ _ _ hw' h))
    · exact ih failed hnext _

/-- So does what is left of a round in such a world. -/
theorem endRound_failed (failed : S.Failed w) (n : Nat) (h : S.relation w a b)
    {next : Relation E} {next' : Relation F} (hnext : S.relation w next next')
    (y : Outcome (Relation F)) :
    S.Tracks w S.relation (if next = a then pure a else Relation.closeUp n next) y := by
  split
  · exact S.failed failed (S.pure h)
  · exact closeUp_failed failed n hnext y

/-- Rounds from a relation whose partner is closed lead to relations with the same partner. -/
theorem closeUp_fixed (closed : (do b.union (← b.compose b)) = (.ok b : Outcome (Relation F)))
    (n : Nat) (h : S.relation w a b) :
    S.Tracks w S.relation (Relation.closeUp n a) (.ok b) := by
  induction n generalizing w a with
  | zero => exact S.pure h
  | succ n ih =>
    have again : (.ok b : Outcome (Relation F)) = do
        let step ← b.compose b
        let _ ← b.union step
        return b := by
      cases hs : (b.compose b : Outcome (Relation F)) with
      | error e => rw [hs] at closed; cases closed
      | ok step =>
        rw [hs] at closed
        show _ = (b.union step : Outcome (Relation F)) >>= fun _ => .ok b
        rw [show (b.union step : Outcome (Relation F)) = .ok b from closed]
        rfl
    rw [again]
    unfold Relation.closeUp
    refine S.bind (S.known (compose h h)) fun hw hstep => ?_
    have h := S.stable_relation _ _ _ _ hw h
    refine S.bind (S.known (union h hstep.1)) fun {w' next next'} hw' hnext => ?_
    have h := S.stable_relation _ _ _ _ hw' h
    by_cases failed : S.Failed w'
    · exact endRound_failed failed n h hnext.1 _
    rw [hstep.2 fun early => failed (S.failed_le hw' early)] at closed
    obtain rfl : next' = b := Except.ok.inj ((hnext.2 failed).symm.trans closed)
    split
    · exact S.pure h
    · exact ih hnext.1

variable [DecidableEq F]

theorem closeUp (n : Nat) (h : S.relation w a b) :
    S.Tracks w S.relation (Relation.closeUp n a) (Relation.closeUp n b) := by
  induction n generalizing w a b with
  | zero => exact S.pure h
  | succ n ih =>
    unfold Relation.closeUp
    refine S.bind (S.known (compose h h)) fun hw hstep => ?_
    have h := S.stable_relation _ _ _ _ hw h
    refine S.bind (S.known (union h hstep.1)) fun {w' next next'} hw' hnext => ?_
    have h := S.stable_relation _ _ _ _ hw' h
    by_cases failed : S.Failed w'
    · exact endRound_failed failed n h hnext.1 _
    by_cases hb : next' = b
    · subst hb
      rw [if_pos rfl]
      split
      · exact S.pure h
      · refine closeUp_fixed ?_ n hnext.1
        rw [hstep.2 fun early => failed (S.failed_le hw' early)]
        exact hnext.2 failed
    · rw [if_neg hb, if_neg]
      · exact ih hnext.1
      · rintro rfl
        exact hb (relation_unique failed hnext.1 h)

theorem transitiveClosure (h : S.relation w a b) :
    S.Tracks w S.relation a.transitiveClosure b.transitiveClosure := by
  unfold Relation.transitiveClosure
  rw [h.requireArity, h.size]
  refine S.bind (Tracking.lift_self _) fun hw _ => ?_
  refine S.bind (Tracking.lift_self _) fun hw' hs => ?_
  subst hs
  exact closeUp _ (S.stable_relation _ _ _ _ (S.le_trans hw hw') h)

/-! ## Predicates -/

omit [DecidableEq E] [DecidableEq F]

theorem isFull (h : S.relation w a b) : S.Tracks w S.rel a.isFull b.isFull := S.all h.elems

theorem isEmpty (h : S.relation w a b) : S.Tracks w S.rel a.isEmpty b.isEmpty :=
  S.bind (S.any h.elems) fun _ => S.neg

theorem isOddCard (h : S.relation w a b) : S.Tracks w S.rel a.isOddCard b.isOddCard :=
  parity h.elems

theorem isSubsetOf (h : S.relation w a b) (h' : S.relation w a' b') :
    S.Tracks w S.rel (a.isSubsetOf a') (b.isSubsetOf b') :=
  S.bind (Tracking.map2M S.stable S.stable S.stable (fun _ => leq) h h') fun _ ht =>
    S.all ht.elems

theorem isEqualTo (h : S.relation w a b) (h' : S.relation w a' b') :
    S.Tracks w S.rel (a.isEqualTo a') (b.isEqualTo b') :=
  S.bind (Tracking.map2M S.stable S.stable S.stable (fun _ => equ) h h') fun _ ht =>
    S.all ht.elems

theorem isFunction (h : S.relation w a b) : S.Tracks w S.rel a.isFunction b.isFunction :=
  S.bind (Tracking.foldM S.stable S.stable (fun _ => S.one) h 1) fun _ ht => S.all ht.elems

theorem isReflexive (h : S.relation w a b) : S.Tracks w S.rel a.isReflexive b.isReflexive :=
  S.bind (R := S.relation) (S.lift (Relation.diagonal_rel h)) fun _ hd => S.all hd.elems

theorem isSymmetric (h : S.relation w a b) : S.Tracks w S.rel a.isSymmetric b.isSymmetric := by
  unfold Relation.isSymmetric
  rw [h.arity]
  split
  · exact S.pure (S.truth w)
  refine S.bind (R := S.relation) (S.lift (Relation.swap_rel h)) fun hw hs => ?_
  have h := S.stable_relation _ _ _ _ hw h
  refine S.bind (isSubsetOf h hs) fun hw hswapped => ?_
  have h := S.stable_relation _ _ _ _ hw h
  refine S.bind (R := S.relation) (S.lift (Relation.rotate_rel h)) fun hw hr => ?_
  have h := S.stable_relation _ _ _ _ hw h
  refine S.bind (isSubsetOf h hr) fun hw' hrotated => ?_
  exact S.and (S.stable _ _ _ _ (S.le_trans hw hw') hswapped) hrotated

theorem isTransitive (h : S.relation w a b) :
    S.Tracks w S.rel a.isTransitive b.isTransitive := by
  unfold Relation.isTransitive
  rw [h.requireArity]
  refine S.bind (Tracking.lift_self _) fun hw _ => ?_
  have h := S.stable_relation _ _ _ _ hw h
  exact S.bind (compose h h) fun hw hc => isSubsetOf hc (S.stable_relation _ _ _ _ hw h)

theorem isAntisymmetric (h : S.relation w a b) :
    S.Tracks w S.rel a.isAntisymmetric b.isAntisymmetric := by
  unfold Relation.isAntisymmetric
  rw [h.requireArity]
  refine S.bind (Tracking.lift_self _) fun hw _ => ?_
  have h := S.stable_relation _ _ _ _ hw h
  refine S.bind (R := S.relation) (S.lift (Relation.revert_rel h)) fun hw hr => ?_
  have h := S.stable_relation _ _ _ _ hw h
  refine S.bind (intersect h hr) fun hw hboth => ?_
  have h := S.stable_relation _ _ _ _ hw h
  exact S.bind (R := S.relation) (S.lift (equal_size h)) fun hw he =>
    isSubsetOf (S.stable_relation _ _ _ _ hw hboth) he

theorem isTrichotome (h : S.relation w a b) :
    S.Tracks w S.rel a.isTrichotome b.isTrichotome := by
  unfold Relation.isTrichotome
  rw [h.requireArity]
  refine S.bind (Tracking.lift_self _) fun hw _ => ?_
  have h := S.stable_relation _ _ _ _ hw h
  refine S.bind (R := S.relation) (S.lift (Relation.revert_rel h)) fun hw hr => ?_
  have h := S.stable_relation _ _ _ _ hw h
  refine S.bind (union h hr) fun hw heither => ?_
  have h := S.stable_relation _ _ _ _ hw h
  refine S.bind (R := S.relation) (S.lift (equal_size h)) fun hw he => ?_
  exact S.bind (union (S.stable_relation _ _ _ _ hw heither) he) fun _ => isFull

/-- Three conditions computed one after another and their conjunction. -/
theorem all_three {x y z : m E} {x' y' z' : Outcome F} (hx : S.Tracks w S.rel x x')
    (hy : ∀ {w'}, S.le w w' → S.Tracks w' S.rel y y')
    (hz : ∀ {w'}, S.le w w' → S.Tracks w' S.rel z z') :
    S.Tracks w S.rel (do BooleanDomain.all [← x, ← y, ← z])
      (do BooleanDomain.all [← x', ← y', ← z']) := by
  refine S.bind hx fun hw hx => ?_
  refine S.bind (hy hw) fun hw' hy => ?_
  refine S.bind (hz (S.le_trans hw hw')) fun hw'' hz => ?_
  exact S.all (.cons (S.stable _ _ _ _ (S.le_trans hw' hw'') hx)
    (.cons (S.stable _ _ _ _ hw'' hy) (.cons hz .nil)))

/-- Two conditions computed one after another and their conjunction. -/
theorem and_both {x y : m E} {x' y' : Outcome F} (hx : S.Tracks w S.rel x x')
    (hy : ∀ {w'}, S.le w w' → S.Tracks w' S.rel y y') :
    S.Tracks w S.rel (do BooleanDomain.and (← x) (← y))
      (do BooleanDomain.and (← x') (← y')) := by
  refine S.bind hx fun hw hx => ?_
  exact S.bind (hy hw) fun hw' hy => S.and (S.stable _ _ _ _ hw' hx) hy

theorem isEquivalence (h : S.relation w a b) :
    S.Tracks w S.rel a.isEquivalence b.isEquivalence :=
  all_three (isReflexive h) (fun hw => isSymmetric (S.stable_relation _ _ _ _ hw h))
    fun hw => isTransitive (S.stable_relation _ _ _ _ hw h)

theorem isPartialOrder (h : S.relation w a b) :
    S.Tracks w S.rel a.isPartialOrder b.isPartialOrder :=
  all_three (isReflexive h) (fun hw => isAntisymmetric (S.stable_relation _ _ _ _ hw h))
    fun hw => isTransitive (S.stable_relation _ _ _ _ hw h)

theorem isTotalOrder (h : S.relation w a b) :
    S.Tracks w S.rel a.isTotalOrder b.isTotalOrder :=
  and_both (isPartialOrder h) fun hw => isTrichotome (S.stable_relation _ _ _ _ hw h)

theorem cylinder (h : S.relation w a b) (vars : List Char) (i : Nat) :
    S.Tracks w S.tensor (a.cylinder vars i) (b.cylinder vars i) := by
  unfold Relation.cylinder
  rw [h.arity, h.size]
  refine S.bind (query_logical (.cons (named h _) .nil) _) fun hw hshadow => ?_
  refine S.bind (Tracking.lift_self _) fun hw' hs => ?_
  subst hs
  exact S.lift (Tensor.reshape_rel
    (Tracking.stable_tensor S.stable _ _ _ _ hw' hshadow) _ _)

theorem isEssential (h : S.relation w a b) :
    S.Tracks w S.rel a.isEssential b.isEssential := by
  have stable := Tracking.stable_tensor S.stable
  unfold Relation.isEssential
  rw [h.arity]
  refine S.bind (Tracking.lift_self _) fun hw hv => ?_
  subst hv
  have h := S.stable_relation _ _ _ _ hw h
  refine S.bind (complement h) fun hw hc => ?_
  have h := S.stable_relation _ _ _ _ hw h
  refine S.bind (R := S.tensor) (Tracking.foldlM (R := fun _ => Eq) (fun _ _ _ _ _ h => h)
    (fun hw ht hi => ?_) (List.forall₂_same.mpr fun _ _ => rfl) hc) fun _ ht => S.any ht.elems
  subst hi
  refine S.bind (cylinder (S.stable_relation _ _ _ _ hw h) _ _) fun hw hcyl => ?_
  exact Tracking.map2M S.stable S.stable S.stable (fun _ => S.and) (stable _ _ _ _ hw ht) hcyl

end Simulation

end FiniteStructures
