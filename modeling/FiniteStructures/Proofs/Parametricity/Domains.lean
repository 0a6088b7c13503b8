import FiniteStructures.Contraction.Semiring
import FiniteStructures.Proofs.Parametricity.Tracking

/-!
Simulations of boolean domains.  A `Simulation` from a domain over `E` to one over `F` is a tracking
with a relation of elements that every operation of the domains keeps.  What is derived from the
operations keeps it as well; the list operations, which a domain may compute in a way of its own,
agree with the derived ones over truth values.
-/

namespace FiniteStructures

open BooleanDomain

/-- The operations of one domain track those of another one. -/
structure Simulation (E : Type) (m : Type → Type) (F : Type) [Monad m] [MonadLiftT Outcome m]
    [BooleanDomain E m] [BooleanDomain F Outcome] extends Tracking m where
  rel : World → E → F → Prop
  stable : toTracking.Stable rel
  /-- An element has one partner. -/
  functional : ∀ {w a b b'}, ¬ Failed w → rel w a b → rel w a b' → b = b'
  truth : ∀ w, rel w truth truth
  falsity : ∀ w, rel w falsity falsity
  neg : ∀ {w a b}, rel w a b → Tracks w rel (neg a) (neg b)
  or : ∀ {w a b a' b'}, rel w a b → rel w a' b' → Tracks w rel (or a a') (or b b')
  xor : ∀ {w a b a' b'}, rel w a b → rel w a' b' → Tracks w rel (xor a a') (xor b b')
  and : ∀ {w a b a' b'}, rel w a b → rel w a' b' → Tracks w rel (and a a') (and b b')
  all : ∀ {w l l'}, List.Forall₂ (rel w) l l' → Tracks w rel (all l) (all l')
  any : ∀ {w l l'}, List.Forall₂ (rel w) l l' → Tracks w rel (any l) (any l')
  one : ∀ {w l l'}, List.Forall₂ (rel w) l l' → Tracks w rel (one l) (one l')

/-- Pairs of related elements. -/
def Tracking.pairs {m : Type → Type} [Monad m] [MonadLiftT Outcome m] {T : Tracking m}
    {E F : Type} (r : T.World → E → F → Prop) (w : T.World) (p : E × E) (q : F × F) : Prop :=
  r w p.1 q.1 ∧ r w p.2 q.2

/-! ## Derived operations -/

namespace Derived

variable {m : Type → Type} [Monad m] [MonadLiftT Outcome m] {T : Tracking m} {w : T.World}
variable {E F : Type} {r : T.World → E → F → Prop}
variable {neg : E → m E} {or and : E → E → m E} {neg' : F → Outcome F}
  {or' and' : F → F → Outcome F}

theorem tracks_and (stable : T.Stable r)
    (hneg : ∀ {w a b}, r w a b → T.Tracks w r (neg a) (neg' b))
    (hor : ∀ {w a b a' b'}, r w a b → r w a' b' → T.Tracks w r (or a a') (or' b b'))
    {a a' : E} {b b' : F} (h : r w a b) (h' : r w a' b') :
    T.Tracks w r (Derived.and neg or a a') (Derived.and neg' or' b b') := by
  refine T.bind (hneg h) fun hw hn => ?_
  refine T.bind (hneg (stable _ _ _ _ hw h')) fun hw' hn' => ?_
  exact T.bind (hor (stable _ _ _ _ hw' hn) hn') fun _ => hneg

theorem tracks_all (stable : T.Stable r)
    (hand : ∀ {w a b a' b'}, r w a b → r w a' b' → T.Tracks w r (and a a') (and' b b'))
    {truth : E} {truth' : F} (ht : r w truth truth') {l : List E} {l' : List F}
    (h : List.Forall₂ (r w) l l') :
    T.Tracks w r (Derived.all truth and l) (Derived.all truth' and' l') :=
  Tracking.foldlM stable (fun _ => hand) h ht

theorem tracks_any (stable : T.Stable r)
    (hor : ∀ {w a b a' b'}, r w a b → r w a' b' → T.Tracks w r (or a a') (or' b b'))
    {falsity : E} {falsity' : F} (hf : r w falsity falsity') {l : List E} {l' : List F}
    (h : List.Forall₂ (r w) l l') :
    T.Tracks w r (Derived.any falsity or l) (Derived.any falsity' or' l') :=
  Tracking.foldlM stable (fun _ => hor) h hf

theorem tracks_oneStep (stable : T.Stable r)
    (hor : ∀ {w a b a' b'}, r w a b → r w a' b' → T.Tracks w r (or a a') (or' b b'))
    (hand : ∀ {w a b a' b'}, r w a b → r w a' b' → T.Tracks w r (and a a') (and' b b'))
    {state : E × E} {state' : F × F} {e : E} {e' : F} (hs : T.pairs r w state state')
    (he : r w e e') :
    T.Tracks w (T.pairs r) (oneStep or and state e) (oneStep or' and' state' e') := by
  refine T.bind (hand hs.1 he) fun hw hboth => ?_
  refine T.bind (hor (stable _ _ _ _ hw hs.2) hboth) fun hw' htwice => ?_
  have hw := T.le_trans hw hw'
  refine T.bind (hor (stable _ _ _ _ hw hs.1) (stable _ _ _ _ hw he)) fun hw'' hseen => ?_
  exact T.pure ⟨hseen, stable _ _ _ _ hw'' htwice⟩

theorem tracks_one (stable : T.Stable r)
    (hneg : ∀ {w a b}, r w a b → T.Tracks w r (neg a) (neg' b))
    (hor : ∀ {w a b a' b'}, r w a b → r w a' b' → T.Tracks w r (or a a') (or' b b'))
    (hand : ∀ {w a b a' b'}, r w a b → r w a' b' → T.Tracks w r (and a a') (and' b b'))
    {falsity : E} {falsity' : F} (hf : r w falsity falsity') {l : List E} {l' : List F}
    (h : List.Forall₂ (r w) l l') :
    T.Tracks w r (Derived.one falsity neg or and l) (Derived.one falsity' neg' or' and' l') := by
  refine T.bind (S := r) (Tracking.foldlM (S := T.pairs r) stable
    (fun _ => tracks_oneStep stable hor hand) h ⟨hf, hf⟩) fun hw hs => ?_
  refine T.bind (hneg hs.2) fun hw' hn => ?_
  exact hand (stable _ _ _ _ hw' hs.1) hn

end Derived

/-! ## Truth values -/

namespace Derived

theorem and_bool (a b : Bool) :
    Derived.and (neg : Bool → Outcome Bool) BooleanDomain.or a b = BooleanDomain.and a b := by
  show (.ok (!(!a || !b)) : Outcome Bool) = .ok (a && b)
  rw [Bool.not_or, Bool.not_not, Bool.not_not]

theorem all_bool (elems : List Bool) :
    Derived.all (truth : Bool) BooleanDomain.and elems = BooleanDomain.all elems := by
  have fold (acc : Bool) : elems.foldlM (BooleanDomain.and : Bool → Bool → Outcome Bool) acc =
      .ok (acc && elems.all id) := by
    induction elems generalizing acc with
    | nil => rw [List.all_nil, Bool.and_true]; rfl
    | cons e elems ih =>
      rw [List.foldlM_cons, List.all_cons, ← Bool.and_assoc]
      exact ih (acc && e)
  exact (fold true).trans (by rw [Bool.true_and]; rfl)

theorem any_bool (elems : List Bool) :
    Derived.any (falsity : Bool) BooleanDomain.or elems = BooleanDomain.any elems := by
  have fold (acc : Bool) : elems.foldlM (BooleanDomain.or : Bool → Bool → Outcome Bool) acc =
      .ok (acc || elems.any id) := by
    induction elems generalizing acc with
    | nil => rw [List.any_nil, Bool.or_false]; rfl
    | cons e elems ih =>
      rw [List.foldlM_cons, List.any_cons, ← Bool.or_assoc]
      exact ih (acc || e)
  exact (fold false).trans (by rw [Bool.false_or]; rfl)

/-- After some elements the state of `one` says whether there was a true one, and whether there
were two. -/
theorem foldlM_oneStep (elems : List Bool) (n : Nat) :
    elems.foldlM (oneStep (BooleanDomain.or : Bool → Bool → Outcome Bool) BooleanDomain.and)
        (decide (0 < n), decide (1 < n)) =
      .ok (decide (0 < n + elems.countP id), decide (1 < n + elems.countP id)) := by
  induction elems generalizing n with
  | nil => rfl
  | cons e elems ih =>
    have step : oneStep (BooleanDomain.or : Bool → Bool → Outcome Bool) BooleanDomain.and
        (decide (0 < n), decide (1 < n)) e =
        .ok (decide (0 < n + e.toNat), decide (1 < n + e.toNat)) := by
      show (.ok (decide (0 < n) || e, decide (1 < n) || (decide (0 < n) && e)) : Outcome _) = _
      cases e
      · simp
      · simp only [Bool.or_true, Bool.and_true, Bool.toNat_true, ← Bool.decide_or]
        congr 3
        rw [eq_iff_iff]
        omega
    have count : n + e.toNat + elems.countP id = n + (e :: elems).countP id := by
      rw [List.countP_cons, Nat.add_assoc, Nat.add_comm e.toNat]
      cases e <;> rfl
    rw [List.foldlM_cons, step, ← count]
    exact ih _

theorem one_bool (elems : List Bool) :
    Derived.one (falsity : Bool) neg BooleanDomain.or BooleanDomain.and elems =
      BooleanDomain.one elems := by
  have run := foldlM_oneStep elems 0
  rw [Nat.zero_add] at run
  unfold Derived.one
  rw [show ((falsity : Bool), (falsity : Bool)) = (decide (0 < 0), decide (1 < 0)) from rfl, run]
  show (.ok (decide (0 < elems.countP id) && !decide (1 < elems.countP id)) : Outcome Bool) =
    .ok (elems.countP id == 1)
  congr 1
  rw [← decide_not, ← Bool.decide_and, Bool.eq_iff_iff, decide_eq_true_iff, beq_iff_eq]
  omega

/-- The domain has no way of its own for the operations that can be derived. -/
structure Lawful (E : Type) (m : Type → Type) [Monad m] [BooleanDomain E m] : Prop where
  and : ∀ a b : E, Derived.and neg BooleanDomain.or a b = BooleanDomain.and a b
  all : ∀ l : List E, Derived.all truth BooleanDomain.and l = BooleanDomain.all l
  any : ∀ l : List E, Derived.any falsity BooleanDomain.or l = BooleanDomain.any l
  one : ∀ l : List E,
    Derived.one falsity neg BooleanDomain.or BooleanDomain.and l = BooleanDomain.one l

theorem lawful_bool : Lawful Bool Outcome := ⟨and_bool, all_bool, any_bool, one_bool⟩

end Derived

/-- Where the other operations are derived, negation, or and exclusive or make a simulation. -/
def Simulation.ofPrimitive {E F : Type} {m : Type → Type} [Monad m] [MonadLiftT Outcome m]
    [BooleanDomain E m] [BooleanDomain F Outcome] (lawful : Derived.Lawful E m)
    (lawful' : Derived.Lawful F Outcome) (T : Tracking m) (rel : T.World → E → F → Prop)
    (stable : T.Stable rel)
    (functional : ∀ {w a b b'}, ¬ T.Failed w → rel w a b → rel w a b' → b = b')
    (htruth : ∀ w, rel w BooleanDomain.truth BooleanDomain.truth)
    (hfalsity : ∀ w, rel w BooleanDomain.falsity BooleanDomain.falsity)
    (hneg : ∀ {w a b}, rel w a b →
      T.Tracks w rel (BooleanDomain.neg a) (BooleanDomain.neg b))
    (hor : ∀ {w a b a' b'}, rel w a b → rel w a' b' →
      T.Tracks w rel (BooleanDomain.or a a') (BooleanDomain.or b b'))
    (hxor : ∀ {w a b a' b'}, rel w a b → rel w a' b' →
      T.Tracks w rel (BooleanDomain.xor a a') (BooleanDomain.xor b b')) : Simulation E m F :=
  have hand {w a b a' b'} (h : rel w a b) (h' : rel w a' b') :
      T.Tracks w rel (BooleanDomain.and a a') (BooleanDomain.and b b') := by
    rw [← lawful.and, ← lawful'.and]
    exact Derived.tracks_and stable hneg hor h h'
  { toTracking := T
    rel := rel
    stable := stable
    functional := functional
    truth := htruth
    falsity := hfalsity
    neg := hneg
    or := hor
    xor := hxor
    and := hand
    all := fun {w _ _} h => by
      rw [← lawful.all, ← lawful'.all]
      exact Derived.tracks_all stable hand (htruth w) h
    any := fun {w _ _} h => by
      rw [← lawful.any, ← lawful'.any]
      exact Derived.tracks_any stable hor (hfalsity w) h
    one := fun {w _ _} h => by
      rw [← lawful.one, ← lawful'.one]
      exact Derived.tracks_one stable hneg hor hand (hfalsity w) h }

/-! ## Derived in all domains -/

namespace Simulation

variable {E F : Type} {m : Type → Type} [Monad m] [MonadLiftT Outcome m] [BooleanDomain E m]
  [BooleanDomain F Outcome] {S : Simulation E m F} {w : S.World}

theorem rel_constant (w : S.World) (value : Bool) :
    S.rel w (constant value) (constant value) := by
  cases value
  · exact S.falsity w
  · exact S.truth w

theorem leq {a a' : E} {b b' : F} (h : S.rel w a b) (h' : S.rel w a' b') :
    S.Tracks w S.rel (leq a a') (leq b b') :=
  S.bind (S.neg h) fun hw hn => S.or hn (S.stable _ _ _ _ hw h')

theorem equ {a a' : E} {b b' : F} (h : S.rel w a b) (h' : S.rel w a' b') :
    S.Tracks w S.rel (equ a a') (equ b b') :=
  S.bind (S.xor h h') fun _ => S.neg

theorem parity {l : List E} {l' : List F} (h : List.Forall₂ (S.rel w) l l') :
    S.Tracks w S.rel (parity l) (parity l') :=
  Tracking.foldlM S.stable (fun _ => S.xor) h (S.falsity w)

theorem lexStep {state digits : E × E} {state' digits' : F × F}
    (hs : S.pairs S.rel w state state') (hd : S.pairs S.rel w digits digits') :
    S.Tracks w (S.pairs S.rel) (lexStep state digits) (lexStep state' digits') := by
  refine S.bind (S.neg hd.1) fun hw hn => ?_
  refine S.bind (S.and hn (S.stable _ _ _ _ hw hd.2)) fun hw' hless => ?_
  have hw := S.le_trans hw hw'
  refine S.bind (S.and (S.stable _ _ _ _ hw hs.2) hless) fun hw' hhere => ?_
  have hw := S.le_trans hw hw'
  refine S.bind (S.or (S.stable _ _ _ _ hw hs.1) hhere) fun hw' hless => ?_
  have hw := S.le_trans hw hw'
  refine S.bind (equ (S.stable _ _ _ _ hw hd.1) (S.stable _ _ _ _ hw hd.2)) fun hw' hsame => ?_
  have hless := S.stable _ _ _ _ hw' hless
  have hw := S.le_trans hw hw'
  refine S.bind (S.and (S.stable _ _ _ _ hw hs.2) hsame) fun hw' hequal => ?_
  exact S.pure ⟨S.stable _ _ _ _ hw' hless, hequal⟩

theorem stable_pairs : S.Stable (S.pairs S.rel) :=
  fun _ _ _ _ hw h => ⟨S.stable _ _ _ _ hw h.1, S.stable _ _ _ _ hw h.2⟩

theorem lexLess {a a' : List E} {b b' : List F} (h : List.Forall₂ (S.rel w) a b)
    (h' : List.Forall₂ (S.rel w) a' b') : S.Tracks w S.rel (lexLess a a') (lexLess b b') := by
  unfold BooleanDomain.lexLess
  rw [h.length_eq, h'.length_eq]
  refine Tracking.guard Iff.rfl rfl rfl ?_
  intro _
  exact S.bind (Tracking.foldlM stable_pairs (fun _ hs hd => lexStep hs hd)
    (Tracking.forall₂_zip h h') ⟨S.falsity w, S.truth w⟩) fun _ hs => S.pure hs.1

theorem lexLeq {a a' : List E} {b b' : List F} (h : List.Forall₂ (S.rel w) a b)
    (h' : List.Forall₂ (S.rel w) a' b') : S.Tracks w S.rel (lexLeq a a') (lexLeq b b') :=
  S.bind (lexLess h' h) fun _ => S.neg

end Simulation

/-! ## Semirings -/

/-- The operations of a semiring that a contraction uses track those of another one. -/
structure Tracking.Semiring {m : Type → Type} [Monad m] [MonadLiftT Outcome m] (T : Tracking m)
    {E F : Type} (r : T.World → E → F → Prop) (ops : SemiringOps E m)
    (ops' : SemiringOps F Outcome) : Prop where
  stable : T.Stable r
  one : ∀ w, r w ops.one ops'.one
  mul : ∀ {w a b a' b'}, r w a b → r w a' b' → T.Tracks w r (ops.mul a a') (ops'.mul b b')
  sum : ∀ {w l l'}, List.Forall₂ (r w) l l' → T.Tracks w r (ops.sum l) (ops'.sum l')

namespace Simulation

variable {E F : Type} {m : Type → Type} [Monad m] [MonadLiftT Outcome m] [BooleanDomain E m]
  [BooleanDomain F Outcome] (S : Simulation E m F)

theorem logical : S.Semiring S.rel SemiringOps.logical SemiringOps.logical :=
  ⟨S.stable, S.truth, S.and, S.any⟩

theorem linear : S.Semiring S.rel SemiringOps.linear SemiringOps.linear :=
  ⟨S.stable, S.truth, S.and, parity⟩

end Simulation

end FiniteStructures
