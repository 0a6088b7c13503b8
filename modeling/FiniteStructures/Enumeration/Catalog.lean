import FiniteStructures.Enumeration.Solver
import FiniteStructures.Operation.Identities
import FiniteStructures.Operation.Polymorphism
import FiniteStructures.Permutation

/-!
Problems about one structure on a finite set.  Each has one unknown and states its predicate with
relations and operations, so that the same lines search and check.
-/

namespace FiniteStructures

namespace Problem

open BooleanDomain

/-- One unknown with `order` axes of one size. -/
def single (name : String) (size order : Nat) : Outcome (Named (List Nat)) := do
  return [(name, ← Shape.uniform size order)]

/-- The unknown relation. -/
def relation {E : Type} (values : Named (Tensor E)) : Outcome (Relation E) := do
  Relation.ofTensor (← values.unknown "rel")

/-- The unknown operation. -/
def operation {E : Type} (values : Named (Tensor E)) : Outcome (Operation E) := do
  Operation.ofTensor (← values.unknown "op")

/-- The unknown permutation. -/
def permutation {E : Type} (values : Named (Tensor E)) : Outcome (Permutation E) := do
  Permutation.ofOperation (← Operation.ofTensor (← values.unknown "perm"))

/-! ## Relations -/

/-- Reflexive, antisymmetric and transitive relations. -/
def partialOrders (size : Nat) : Problem :=
  ofPredicate (single "rel" size 2) fun values => do
    (← relation values).isPartialOrder

/-- Linear orders. -/
def totalOrders (size : Nat) : Problem :=
  ofPredicate (single "rel" size 2) fun values => do
    (← relation values).isTotalOrder

/-- Reflexive, symmetric and transitive relations. -/
def equivalences (size : Nat) : Problem :=
  ofPredicate (single "rel" size 2) fun values => do
    (← relation values).isEquivalence

/-! ## Operations -/

/-- Bijections of the set. -/
def permutations (size : Nat) : Problem :=
  ofPredicate (single "perm" size 2) fun values => do
    (← permutation values).isPermutation

/-- Bijections with an even number of inversions. -/
def evenPermutations (size : Nat) : Problem :=
  ofPredicate (single "perm" size 2) fun values => do
    let p ← permutation values
    let bijective ← p.isPermutation
    let even ← p.isEven
    and bijective even

/-- All operations of one arity. -/
def functions (size arity : Nat) : Problem :=
  ofPredicate (do single "op" size (← Count.add arity 1)) fun values => do
    (← operation values).isOperation

/-- Idempotent, commutative and associative operations with two arguments. -/
def commutativeSemilattices (size : Nat) : Problem :=
  ofPredicate (single "op" size 3) fun values => do
    let f ← operation values
    let functional ← f.isOperation
    let idempotent ← f.isIdempotent
    let commutative ← f.isCommutative
    let associative ← f.isAssociative
    all [functional, idempotent, commutative, associative]

/-- The size of the set on which relations are given; with no relation the set is empty. -/
def commonSize : List (Relation Bool) → Outcome Nat
  | [] => .ok 0
  | r :: _ => r.size

/-- Operations of one arity that preserve every given relation. -/
def polymorphisms (arity : Nat) (relations : List (Relation Bool)) : Problem :=
  ofPredicate (do single "op" (← commonSize relations) (← Count.add arity 1)) fun values => do
    let f ← operation values
    let functional ← f.isOperation
    let ⟨preserved, _⟩ ← traverse (fun r => f.preserves (Relation.lift r)) relations
    all (functional :: preserved)

end Problem

/-! ## Problems by name -/

/-- The problems that have a name and a size. -/
inductive Catalog where
  | partialOrders
  | totalOrders
  | equivalences
  | permutations
  | evenPermutations
  | functions
  | commutativeSemilattices
deriving DecidableEq, Repr

namespace Catalog

/-- All of them, in the order in which they are listed. -/
def members : List Catalog :=
  [.partialOrders, .totalOrders, .equivalences, .permutations, .evenPermutations, .functions,
    .commutativeSemilattices]

def name : Catalog → String
  | .partialOrders => "partial-orders"
  | .totalOrders => "total-orders"
  | .equivalences => "equivalences"
  | .permutations => "permutations"
  | .evenPermutations => "even-permutations"
  | .functions => "functions"
  | .commutativeSemilattices => "commutative-semilattices"

/-- The problem on a set of the given size; functions have one argument. -/
def problem (c : Catalog) (size : Nat) : Problem :=
  match c with
  | .partialOrders => .partialOrders size
  | .totalOrders => .totalOrders size
  | .equivalences => .equivalences size
  | .permutations => .permutations size
  | .evenPermutations => .evenPermutations size
  | .functions => .functions size 1
  | .commutativeSemilattices => .commutativeSemilattices size

/-- The member of a name. -/
def ofName (name : String) : Except SettingError Catalog :=
  match members.find? (·.name = name) with
  | some c => .ok c
  | none => .error (.unknownProblem name)

end Catalog

end FiniteStructures
