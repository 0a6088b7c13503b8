import FiniteStructures.Enumeration.Catalog
import FiniteStructures.Proofs.Parametricity.Operations

/-!
Predicates about named unknowns.  A predicate that is stated for all boolean domains keeps every
simulation when it is `Parametric`; those of the catalog are.
-/

namespace FiniteStructures

/-- Named tensors with the same names and related tensors. -/
def Named.Rel {E F : Type} (r : E → F → Prop) (values : Named (Tensor E))
    (values' : Named (Tensor F)) : Prop :=
  List.Forall₂ (fun p q => p.1 = q.1 ∧ p.2.Rel r q.2) values values'

namespace Named

variable {E F : Type} {r : E → F → Prop} {values : Named (Tensor E)} {values' : Named (Tensor F)}

theorem lookup_rel (h : Rel r values values') (name : String) :
    Option.Rel (Tensor.Rel r) (values.lookup name) (values'.lookup name) := by
  induction h with
  | nil => exact .none
  | @cons p q _ _ hpq _ ih =>
    obtain ⟨key, t⟩ := p
    obtain ⟨key', u⟩ := q
    obtain ⟨rfl, ht⟩ := hpq
    simp only [List.lookup_cons]
    cases name == key with
    | true => exact .some ht
    | false => exact ih

theorem unknown_rel (h : Rel r values values') (name : String) :
    Agree (Tensor.Rel r) (values.unknown name) (values'.unknown name) := by
  have hl := lookup_rel h name
  unfold unknown
  generalize values.lookup name = o at hl ⊢
  generalize values'.lookup name = p at hl ⊢
  cases hl with
  | some h => exact .ok h
  | none => exact .error _

end Named

/-- The predicate keeps every simulation. -/
def Predicate.Parametric (predicate : Predicate) : Prop :=
  ∀ {E F : Type} {m : Type → Type} [BooleanDomain E m] [Monad m] [MonadLiftT Outcome m]
    [BooleanDomain F Outcome] [DecidableEq E] [DecidableEq F] (S : Simulation E m F)
    {w : S.World} {values : Named (Tensor E)} {values' : Named (Tensor F)},
    values.Rel (S.rel w) values' → S.Tracks w S.rel (predicate values) (predicate values')

namespace Problem

variable {E F : Type} {r : E → F → Prop} {values : Named (Tensor E)} {values' : Named (Tensor F)}

theorem relation_rel (h : values.Rel r values') :
    Agree (Relation.Rel r) (relation values) (relation values') :=
  (Named.unknown_rel h _).bind fun _ _ => Relation.ofTensor_rel

theorem operation_rel (h : values.Rel r values') :
    Agree (Operation.Rel r) (operation values) (operation values') :=
  (Named.unknown_rel h _).bind fun _ _ => Operation.ofTensor_rel

theorem permutation_rel (h : values.Rel r values') :
    Agree (Permutation.Rel r) (permutation values) (permutation values') :=
  (Named.unknown_rel h _).bind fun _ _ ht =>
    (Operation.ofTensor_rel ht).bind fun _ _ => Permutation.ofOperation_rel

/-- The problems of the catalog; some have more parameters than a size. -/
inductive InCatalog : Problem → Prop
  | named (c : Catalog) (size : Nat) : InCatalog (c.problem size)
  | functions (size arity : Nat) : InCatalog (functions size arity)
  | polymorphisms (arity : Nat) (relations : List (Relation Bool)) :
    InCatalog (polymorphisms arity relations)

/-- The problem states one predicate for all domains, which keeps every simulation. -/
inductive Uniform : Problem → Prop
  | ofPredicate {unknowns : Outcome (Named (List Nat))} {predicate : Predicate}
    (h : predicate.Parametric) : Uniform (ofPredicate unknowns predicate)

theorem functions_uniform (size arity : Nat) : (functions size arity).Uniform := by
  refine .ofPredicate ?_
  intro E F m _ _ _ _ _ _ S w values values' h
  exact S.bind (R := S.operation) (S.lift (operation_rel h)) fun _ => Simulation.isOperation

theorem polymorphisms_uniform (arity : Nat) (relations : List (Relation Bool)) :
    (polymorphisms arity relations).Uniform := by
  refine .ofPredicate ?_
  intro E F m _ _ _ _ _ _ S w values values' h
  refine S.bind (R := S.operation) (S.lift (operation_rel h)) fun _ hf => ?_
  refine S.bind (Simulation.isOperation hf) fun hw hfun => ?_
  have hf := S.stable_operation _ _ _ _ hw hf
  refine S.bind (Tracking.traverse (R := fun _ => Eq) (S := S.rel) (fun _ _ _ _ _ h => h) S.stable
    (fun hw hr => ?_) (List.forall₂_same.mpr fun _ _ => rfl)) fun hw hl => ?_
  · subst hr
    exact Simulation.preserves (S.stable_operation _ _ _ _ hw hf) (S.lift_relation _)
  · exact S.all (.cons (S.stable _ _ _ _ hw hfun) hl)

theorem commutativeSemilattices_uniform (size : Nat) :
    (commutativeSemilattices size).Uniform := by
  refine .ofPredicate ?_
  intro E F m _ _ _ _ _ _ S w values values' h
  refine S.bind (R := S.operation) (S.lift (operation_rel h)) fun _ hf => ?_
  refine S.bind (Simulation.isOperation hf) fun hw hfun => ?_
  have hf := S.stable_operation _ _ _ _ hw hf
  refine S.bind (Simulation.isIdempotent hf) fun hw hidem => ?_
  have hf := S.stable_operation _ _ _ _ hw hf
  have hfun := S.stable _ _ _ _ hw hfun
  refine S.bind (Simulation.isCommutative hf) fun hw hcomm => ?_
  have hf := S.stable_operation _ _ _ _ hw hf
  have hfun := S.stable _ _ _ _ hw hfun
  have hidem := S.stable _ _ _ _ hw hidem
  refine S.bind (Simulation.isAssociative hf) fun hw hassoc => ?_
  exact S.all (.cons (S.stable _ _ _ _ hw hfun) (.cons (S.stable _ _ _ _ hw hidem)
    (.cons (S.stable _ _ _ _ hw hcomm) (.cons hassoc .nil))))

theorem named_uniform (c : Catalog) (size : Nat) : (c.problem size).Uniform := by
  cases c with
  | partialOrders =>
    show (partialOrders size).Uniform
    refine .ofPredicate ?_
    intro E F m _ _ _ _ _ _ S w values values' h
    exact S.bind (R := S.relation) (S.lift (relation_rel h)) fun _ => Simulation.isPartialOrder
  | totalOrders =>
    show (totalOrders size).Uniform
    refine .ofPredicate ?_
    intro E F m _ _ _ _ _ _ S w values values' h
    exact S.bind (R := S.relation) (S.lift (relation_rel h)) fun _ => Simulation.isTotalOrder
  | equivalences =>
    show (equivalences size).Uniform
    refine .ofPredicate ?_
    intro E F m _ _ _ _ _ _ S w values values' h
    exact S.bind (R := S.relation) (S.lift (relation_rel h)) fun _ => Simulation.isEquivalence
  | permutations =>
    show (permutations size).Uniform
    refine .ofPredicate ?_
    intro E F m _ _ _ _ _ _ S w values values' h
    exact S.bind (R := S.permutation) (S.lift (permutation_rel h)) fun _ =>
      Simulation.isPermutation
  | evenPermutations =>
    show (evenPermutations size).Uniform
    refine .ofPredicate ?_
    intro E F m _ _ _ _ _ _ S w values values' h
    refine S.bind (R := S.permutation) (S.lift (permutation_rel h)) fun _ hp => ?_
    exact Simulation.and_both (Simulation.isPermutation hp) fun hw =>
      Simulation.isEven (Simulation.stable_permutation _ _ _ _ hw hp)
  | functions => exact functions_uniform size 1
  | commutativeSemilattices => exact commutativeSemilattices_uniform size

theorem InCatalog.uniform {p : Problem} (h : p.InCatalog) : p.Uniform := by
  cases h with
  | named c size => exact named_uniform c size
  | functions size arity => exact functions_uniform size arity
  | polymorphisms arity relations => exact polymorphisms_uniform arity relations

end Problem

end FiniteStructures
