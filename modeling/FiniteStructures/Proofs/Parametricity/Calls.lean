import FiniteStructures.Proofs.Parametricity.Operations

/-!
The methods of relations, operations, permutations and partial orders that are stated once for all
boolean domains, as data.  A `Call` is a method with its operands, each structure given by its
tensor; `Call.run` runs the method.  The two sides of a simulation run a call alike:

    S.Tracks w S.value call.run call'.run    (Simulation.run)
-/

namespace FiniteStructures

namespace Method

/-- What a method returns. -/
inductive Value (E : Type) where
  | element (e : E)
  | tensor (t : Tensor E)

/-- Methods without operands. -/
inductive Constant where
  | full (size arity : Nat)
  | empty (size arity : Nat)
  | equal (size : Nat)
  | lessThan (size : Nat)
  | lessOrEqual (size : Nat)
  | relation (r : Relation Bool)
  | projection (size arity coord : Nat)
  | const (size arity value : Nat)
  | operation (f : Operation Bool)
  | identity (size : Nat)
  | chain (size : Nat)
  | antichain (size : Nat)

/-- Methods that make a structure of one structure. -/
inductive Construction where
  | newRelation
  | newOperation
  | newPermutation
  | newPoset
  | complement
  | revert
  | rotate
  | diagonal
  | project (coords : List Nat)
  | power (k : Nat)
  | reflexiveClosure
  | symmetricClosure
  | transitiveClosure
  | graph
  | polymer (arity : Nat) (map : List Nat)
  | invertPermutation
  | invertPoset
  | strict
  | covers

/-- Methods that make a structure of two structures. -/
inductive Combination where
  | intersect
  | union
  | symmdiff
  | compose
  | multiply
  | product
  | composeOperations
  | composePermutations
  | intersectPosets

/-- Predicates about one structure. -/
inductive Test where
  | get (tuple : List Nat)
  | isFull
  | isEmpty
  | isOddCard
  | isFunction
  | isReflexive
  | isSymmetric
  | isTransitive
  | isAntisymmetric
  | isTrichotome
  | isEquivalence
  | isPartialOrder
  | isTotalOrder
  | isEssential
  | isOperation
  | isSurjective
  | isSatisfied (left right : List Nat)
  | isSatisfiedByVariable (pattern : List Nat) (var : Nat)
  | isProjection
  | isIdempotent
  | isCommutative
  | isAssociative
  | isMajority
  | isMinority
  | isMaltsev
  | isPermutation
  | isOdd
  | isEven
  | posetIsPartialOrder
  | posetIsTotalOrder

/-- Predicates about two structures. -/
inductive Comparison where
  | isSubsetOf
  | isEqualTo
  /-- The first one is an operation, the second one a relation. -/
  | preserves

/-- A method with its operands. -/
inductive Call (E : Type) where
  | constant (c : Constant)
  | construct (f : Construction) (t : Tensor E)
  | combine (f : Combination) (t u : Tensor E)
  /-- Operations in the arguments of an operation. -/
  | superpose (t : Tensor E) (inner : List (Tensor E))
  | test (p : Test) (t : Tensor E)
  | compare (p : Comparison) (t u : Tensor E)

section Run

variable {E : Type} {m : Type → Type} [BooleanDomain E m] [Monad m] [MonadLiftT Outcome m]

def Constant.run : Constant → Outcome (Tensor E)
  | full size arity => do return (← Relation.full size arity).tensor
  | empty size arity => do return (← Relation.empty size arity).tensor
  | equal size => do return (← Relation.equal size).tensor
  | lessThan size => do return (← Relation.lessThan size).tensor
  | lessOrEqual size => do return (← Relation.lessOrEqual size).tensor
  | relation r => return r.lift.tensor
  | projection size arity coord => do return (← Operation.projection size arity coord).tensor
  | const size arity value => do return (← Operation.const size arity value).tensor
  | operation f => return f.lift.tensor
  | identity size => do return (← Permutation.identity size).tensor
  | chain size => do return (← Poset.chain size).relation.tensor
  | antichain size => do return (← Poset.antichain size).relation.tensor

def Construction.run [DecidableEq E] (t : Tensor E) : Construction → m (Tensor E)
  | newRelation => do return (← Relation.ofTensor t).tensor
  | newOperation => do return (← Operation.ofTensor t).tensor
  | newPermutation => do return (← Permutation.ofOperation ⟨t⟩).tensor
  | newPoset => do return (← Poset.ofRelation ⟨t⟩).relation.tensor
  | complement => do return (← (Relation.mk t).complement).tensor
  | revert => do return (← (Relation.mk t).revert).tensor
  | rotate => do return (← (Relation.mk t).rotate).tensor
  | diagonal => do return (← (Relation.mk t).diagonal).tensor
  | project coords => do return (← (Relation.mk t).project coords).tensor
  | power k => do return (← (Relation.mk t).power k).tensor
  | reflexiveClosure => do return (← (Relation.mk t).reflexiveClosure).tensor
  | symmetricClosure => do return (← (Relation.mk t).symmetricClosure).tensor
  | transitiveClosure => do return (← (Relation.mk t).transitiveClosure).tensor
  | graph => return (Operation.mk t).toRelation.tensor
  | polymer arity map => do return (← (Operation.mk t).polymer arity map).tensor
  | invertPermutation => do return (← (Permutation.mk ⟨t⟩).invert).tensor
  | invertPoset => do return (← (Poset.mk ⟨t⟩).invert).relation.tensor
  | strict => do return (← (Poset.mk ⟨t⟩).strict).tensor
  | covers => do return (← (Poset.mk ⟨t⟩).covers).tensor

def Combination.run (t u : Tensor E) : Combination → m (Tensor E)
  | intersect => do return (← (Relation.mk t).intersect ⟨u⟩).tensor
  | union => do return (← (Relation.mk t).union ⟨u⟩).tensor
  | symmdiff => do return (← (Relation.mk t).symmdiff ⟨u⟩).tensor
  | compose => do return (← (Relation.mk t).compose ⟨u⟩).tensor
  | multiply => do return (← (Relation.mk t).multiply ⟨u⟩).tensor
  | product => do return (← (Relation.mk t).product ⟨u⟩).tensor
  | composeOperations => do return (← (Operation.mk t).compose ⟨u⟩).tensor
  | composePermutations => do return (← (Permutation.mk ⟨t⟩).compose ⟨⟨u⟩⟩).tensor
  | intersectPosets => do return (← (Poset.mk ⟨t⟩).intersect ⟨⟨u⟩⟩).relation.tensor

def Test.run (t : Tensor E) : Test → m E
  | get tuple => liftM ((Relation.mk t).get tuple)
  | isFull => (Relation.mk t).isFull
  | isEmpty => (Relation.mk t).isEmpty
  | isOddCard => (Relation.mk t).isOddCard
  | isFunction => (Relation.mk t).isFunction
  | isReflexive => (Relation.mk t).isReflexive
  | isSymmetric => (Relation.mk t).isSymmetric
  | isTransitive => (Relation.mk t).isTransitive
  | isAntisymmetric => (Relation.mk t).isAntisymmetric
  | isTrichotome => (Relation.mk t).isTrichotome
  | isEquivalence => (Relation.mk t).isEquivalence
  | isPartialOrder => (Relation.mk t).isPartialOrder
  | isTotalOrder => (Relation.mk t).isTotalOrder
  | isEssential => (Relation.mk t).isEssential
  | isOperation => (Operation.mk t).isOperation
  | isSurjective => (Operation.mk t).isSurjective
  | isSatisfied left right => (Operation.mk t).isSatisfied left right
  | isSatisfiedByVariable pattern var => (Operation.mk t).isSatisfiedByVariable pattern var
  | isProjection => (Operation.mk t).isProjection
  | isIdempotent => (Operation.mk t).isIdempotent
  | isCommutative => (Operation.mk t).isCommutative
  | isAssociative => (Operation.mk t).isAssociative
  | isMajority => (Operation.mk t).isMajority
  | isMinority => (Operation.mk t).isMinority
  | isMaltsev => (Operation.mk t).isMaltsev
  | isPermutation => (Permutation.mk ⟨t⟩).isPermutation
  | isOdd => (Permutation.mk ⟨t⟩).isOdd
  | isEven => (Permutation.mk ⟨t⟩).isEven
  | posetIsPartialOrder => (Poset.mk ⟨t⟩).isPartialOrder
  | posetIsTotalOrder => (Poset.mk ⟨t⟩).isTotalOrder

def Comparison.run (t u : Tensor E) : Comparison → m E
  | isSubsetOf => (Relation.mk t).isSubsetOf ⟨u⟩
  | isEqualTo => (Relation.mk t).isEqualTo ⟨u⟩
  | preserves => (Operation.mk t).preserves ⟨u⟩

/-- Runs a method on its operands. -/
def Call.run [DecidableEq E] : Call E → m (Value E)
  | constant c => do return .tensor (← c.run)
  | construct f t => do return .tensor (← f.run t)
  | combine f t u => do return .tensor (← f.run t u)
  | superpose t inner => do
    return .tensor (← (Operation.mk t).composeWith (inner.map Operation.mk)).tensor
  | test p t => do return .element (← p.run t)
  | compare p t u => do return .element (← p.run t u)

end Run

/-! ## Related calls -/

/-- Results of one kind with related elements. -/
inductive Value.Rel {E F : Type} (r : E → F → Prop) : Value E → Value F → Prop
  | element {a b} (h : r a b) : Rel r (.element a) (.element b)
  | tensor {t u} (h : t.Rel r u) : Rel r (.tensor t) (.tensor u)

/-- The same method with operands of the same shapes and related elements. -/
inductive Call.Rel {E F : Type} (r : E → F → Prop) : Call E → Call F → Prop
  | constant (c : Constant) : Rel r (.constant c) (.constant c)
  | construct (f : Construction) {t u} (h : t.Rel r u) : Rel r (.construct f t) (.construct f u)
  | combine (f : Combination) {t t' u u'} (h : t.Rel r u) (h' : t'.Rel r u') :
    Rel r (.combine f t t') (.combine f u u')
  | superpose {t u inner inner'} (h : t.Rel r u)
    (hi : List.Forall₂ (Tensor.Rel r) inner inner') :
    Rel r (.superpose t inner) (.superpose u inner')
  | test (p : Test) {t u} (h : t.Rel r u) : Rel r (.test p t) (.test p u)
  | compare (p : Comparison) {t t' u u'} (h : t.Rel r u) (h' : t'.Rel r u') :
    Rel r (.compare p t t') (.compare p u u')

end Method

namespace Simulation

open Method

variable {E F : Type} {m : Type → Type} [Monad m] [MonadLiftT Outcome m] [BooleanDomain E m]
  [BooleanDomain F Outcome] (S : Simulation E m F)

/-- Results of related elements. -/
abbrev value (w : S.World) : Value E → Value F → Prop := Value.Rel (S.rel w)

variable {S} {w : S.World} {t t' : Tensor E} {u u' : Tensor F}

theorem run_constant (c : Constant) : Agree (S.tensor w) c.run c.run := by
  cases c with
  | full size arity => exact (full size arity).bind fun _ _ h => .ok h
  | empty size arity => exact (empty size arity).bind fun _ _ h => .ok h
  | equal size => exact (equal size).bind fun _ _ h => .ok h
  | lessThan size => exact (lessThan size).bind fun _ _ h => .ok h
  | lessOrEqual size => exact (lessOrEqual size).bind fun _ _ h => .ok h
  | relation r => exact .ok (S.lift_relation r)
  | projection size arity coord => exact (projection size arity coord).bind fun _ _ h => .ok h
  | const size arity value => exact (const size arity value).bind fun _ _ h => .ok h
  | operation f => exact .ok (S.lift_operation f)
  | identity size => exact (identity size).bind fun _ _ h => .ok h
  | chain size => exact (chain size).bind fun _ _ h => .ok h
  | antichain size => exact (antichain size).bind fun _ _ h => .ok h

theorem run_construction [DecidableEq E] [DecidableEq F] (f : Construction)
    (h : S.tensor w t u) : S.Tracks w S.tensor (f.run t) (f.run u) := by
  have hr : S.relation w ⟨t⟩ ⟨u⟩ := h
  have hf : S.operation w ⟨t⟩ ⟨u⟩ := h
  have hp : S.permutation w ⟨⟨t⟩⟩ ⟨⟨u⟩⟩ := h
  have ho : S.poset w ⟨⟨t⟩⟩ ⟨⟨u⟩⟩ := h
  cases f with
  | newRelation => exact S.bind (S.lift (Relation.ofTensor_rel h)) fun _ h => S.pure h
  | newOperation => exact S.bind (S.lift (Operation.ofTensor_rel h)) fun _ h => S.pure h
  | newPermutation => exact S.bind (S.lift (Permutation.ofOperation_rel hf)) fun _ h => S.pure h
  | newPoset => exact S.bind (S.lift (Poset.ofRelation_rel hr)) fun _ h => S.pure h
  | complement => exact S.bind (complement hr) fun _ h => S.pure h
  | revert => exact S.bind (S.lift (Relation.revert_rel hr)) fun _ h => S.pure h
  | rotate => exact S.bind (S.lift (Relation.rotate_rel hr)) fun _ h => S.pure h
  | diagonal => exact S.bind (S.lift (Relation.diagonal_rel hr)) fun _ h => S.pure h
  | project coords => exact S.bind (project hr coords) fun _ h => S.pure h
  | power k => exact S.bind (power hr k) fun _ h => S.pure h
  | reflexiveClosure => exact S.bind (reflexiveClosure hr) fun _ h => S.pure h
  | symmetricClosure => exact S.bind (symmetricClosure hr) fun _ h => S.pure h
  | transitiveClosure => exact S.bind (transitiveClosure hr) fun _ h => S.pure h
  | graph => exact S.pure h
  | polymer arity map =>
    exact S.bind (S.lift (Operation.polymer_rel hf arity map)) fun _ h => S.pure h
  | invertPermutation => exact S.bind (S.lift (Permutation.invert_rel hp)) fun _ h => S.pure h
  | invertPoset => exact S.bind (S.lift (Poset.invert_rel ho)) fun _ h => S.pure h
  | strict => exact S.bind (strict ho) fun _ h => S.pure h
  | covers => exact S.bind (covers ho) fun _ h => S.pure h

theorem run_combination (f : Combination) (h : S.tensor w t u) (h' : S.tensor w t' u') :
    S.Tracks w S.tensor (f.run t t') (f.run u u') := by
  have hr : S.relation w ⟨t⟩ ⟨u⟩ := h
  have hr' : S.relation w ⟨t'⟩ ⟨u'⟩ := h'
  cases f with
  | intersect => exact S.bind (intersect hr hr') fun _ h => S.pure h
  | union => exact S.bind (union hr hr') fun _ h => S.pure h
  | symmdiff => exact S.bind (symmdiff hr hr') fun _ h => S.pure h
  | compose => exact S.bind (compose hr hr') fun _ h => S.pure h
  | multiply => exact S.bind (multiply hr hr') fun _ h => S.pure h
  | product => exact S.bind (product hr hr') fun _ h => S.pure h
  | composeOperations =>
    have hf : S.operation w ⟨t⟩ ⟨u⟩ := h
    have hf' : S.operation w ⟨t'⟩ ⟨u'⟩ := h'
    exact S.bind (compose_operation hf hf') fun _ h => S.pure h
  | composePermutations =>
    have hp : S.permutation w ⟨⟨t⟩⟩ ⟨⟨u⟩⟩ := h
    have hp' : S.permutation w ⟨⟨t'⟩⟩ ⟨⟨u'⟩⟩ := h'
    exact S.bind (compose_permutation hp hp') fun _ h => S.pure h
  | intersectPosets =>
    have ho : S.poset w ⟨⟨t⟩⟩ ⟨⟨u⟩⟩ := h
    have ho' : S.poset w ⟨⟨t'⟩⟩ ⟨⟨u'⟩⟩ := h'
    exact S.bind (intersect_poset ho ho') fun _ h => S.pure h

theorem run_test (p : Test) (h : S.tensor w t u) : S.Tracks w S.rel (p.run t) (p.run u) := by
  have hr : S.relation w ⟨t⟩ ⟨u⟩ := h
  have hf : S.operation w ⟨t⟩ ⟨u⟩ := h
  have hp : S.permutation w ⟨⟨t⟩⟩ ⟨⟨u⟩⟩ := h
  have ho : S.poset w ⟨⟨t⟩⟩ ⟨⟨u⟩⟩ := h
  cases p with
  | get tuple => exact S.lift (Tensor.get_rel h tuple)
  | isFull => exact isFull hr
  | isEmpty => exact isEmpty hr
  | isOddCard => exact isOddCard hr
  | isFunction => exact isFunction hr
  | isReflexive => exact isReflexive hr
  | isSymmetric => exact isSymmetric hr
  | isTransitive => exact isTransitive hr
  | isAntisymmetric => exact isAntisymmetric hr
  | isTrichotome => exact isTrichotome hr
  | isEquivalence => exact isEquivalence hr
  | isPartialOrder => exact isPartialOrder hr
  | isTotalOrder => exact isTotalOrder hr
  | isEssential => exact isEssential hr
  | isOperation => exact isOperation hf
  | isSurjective => exact isSurjective hf
  | isSatisfied left right => exact isSatisfied hf left right
  | isSatisfiedByVariable pattern var => exact isSatisfiedByVariable hf pattern var
  | isProjection => exact isProjection hf
  | isIdempotent => exact isIdempotent hf
  | isCommutative => exact isCommutative hf
  | isAssociative => exact isAssociative hf
  | isMajority => exact isMajority hf
  | isMinority => exact isMinority hf
  | isMaltsev => exact isMaltsev hf
  | isPermutation => exact isPermutation hp
  | isOdd => exact isOdd hp
  | isEven => exact isEven hp
  | posetIsPartialOrder => exact isPartialOrder_poset ho
  | posetIsTotalOrder => exact isTotalOrder_poset ho

theorem run_comparison (p : Comparison) (h : S.tensor w t u) (h' : S.tensor w t' u') :
    S.Tracks w S.rel (p.run t t') (p.run u u') := by
  have hr : S.relation w ⟨t⟩ ⟨u⟩ := h
  have hr' : S.relation w ⟨t'⟩ ⟨u'⟩ := h'
  cases p with
  | isSubsetOf => exact isSubsetOf hr hr'
  | isEqualTo => exact isEqualTo hr hr'
  | preserves =>
    have hf : S.operation w ⟨t⟩ ⟨u⟩ := h
    exact preserves hf hr'

/-- The two sides run a call alike. -/
theorem run [DecidableEq E] [DecidableEq F] {call : Call E} {call' : Call F}
    (h : call.Rel (S.rel w) call') : S.Tracks w S.value call.run call'.run := by
  cases h with
  | constant c => exact S.bind (S.lift (run_constant c)) fun _ h => S.pure (.tensor h)
  | construct f h => exact S.bind (run_construction f h) fun _ h => S.pure (.tensor h)
  | combine f h h' => exact S.bind (run_combination f h h') fun _ h => S.pure (.tensor h)
  | @superpose t u inner inner' h hi =>
    have hf : S.operation w ⟨t⟩ ⟨u⟩ := h
    have hfs : List.Forall₂ (S.operation w) (inner.map Operation.mk)
        (inner'.map Operation.mk) :=
      List.forall₂_map_left_iff.mpr (List.forall₂_map_right_iff.mpr hi)
    exact S.bind (composeWith hf hfs) fun _ h => S.pure (.tensor h)
  | test p h => exact S.bind (run_test p h) fun _ h => S.pure (.element h)
  | compare p h h' => exact S.bind (run_comparison p h h') fun _ h => S.pure (.element h)

end Simulation

end FiniteStructures
