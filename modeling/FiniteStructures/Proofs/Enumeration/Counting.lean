import FiniteStructures.Enumeration.Catalog
import FiniteStructures.Proofs.Permutation.Inversions
import FiniteStructures.Proofs.Relation.Orders
import Mathlib.Data.Set.Card
import Mathlib.GroupTheory.SpecificGroups.Alternating

/-!
How many solutions a problem has.  The values that a check accepts are counted by numbering them:
when the check decides whether a tensor is one of the numbered ones, and these differ, there are as
many as there are numbers,

    permutations, total orders      permutations of n numbers            n!
    even permutations               the alternating group                n! / 2, or 1
    functions                       functions of k of the n numbers      n ^ n ^ k
-/

namespace FiniteStructures

namespace Problem

open Outcome

variable {safe : Prop} {p : Problem} {n k : Nat}

/-! ## Counting what a check accepts -/

/-- There is a value of the declared shape for each unknown. -/
def Declares (p : Problem) (s : Solution) : Prop :=
  p.unknowns = .ok (s.map fun u => (u.1, u.2.shape))

/-- The values that the check accepts. -/
def accepted (p : Problem) : Set Solution := { s | p.Declares s ∧ p.check s = .ok true }

/-- As many values are accepted when it is safe.  In any case the accepted ones are among as many,
and only those of them are not accepted whose shapes or whose check are out of range. -/
structure Counts (p : Problem) (safe : Prop) (count : Nat) : Prop where
  exact : safe → p.accepted.encard = count
  among : ∃ all : Set Solution, all.encard = count ∧ p.accepted ⊆ all ∧
    ∀ s ∈ all, s ∉ p.accepted → OutOfRange p.unknowns ∨ OutOfRange (p.check s)

theorem declares_iff {name : String} {shape : List Nat} (unknowns : p.unknowns = .ok [(name, shape)])
    {s : Solution} : p.Declares s ↔ ∃ t : Tensor Bool, t.shape = shape ∧ s = [(name, t)] := by
  unfold Declares
  rw [unknowns, Except.ok.injEq]
  constructor
  · intro same
    match s, same with
    | [(_, t)], same =>
      obtain ⟨rfl, rfl⟩ := Prod.mk.inj (List.head_eq_of_cons_eq same)
      exact ⟨t, rfl, rfl⟩
  · rintro ⟨t, rfl, rfl⟩
    rfl

section Numbering

variable {A : Type} {name : String} {shape : List Nat} {t : A → Tensor Bool}

theorem encard_numbered [Fintype A] (differ : Function.Injective t) :
    (Set.range fun a => [(name, t a)]).encard = Fintype.card A := by
  have different : Function.Injective fun a => [(name, t a)] := by
    intro a a' same
    exact differ (Prod.mk.inj (List.head_eq_of_cons_eq same)).2
  rw [← Set.image_univ, different.encard_image, Set.encard_univ, ENat.card_eq_coe_fintype_card]

/-- What is accepted has a number. -/
theorem accepted_subset (unknowns : Yields safe (· = [(name, shape)]) p.unknowns)
    (check : ∀ u : Tensor Bool, u.shape = shape →
      Yields safe (fun b => b = true ↔ ∃ a, u = t a) (p.check [(name, u)])) :
    p.accepted ⊆ Set.range fun a => [(name, t a)] := by
  rintro s ⟨declared, passes⟩
  have known := unknowns.of_ok declared
  obtain ⟨u, shape_eq, rfl⟩ := (declares_iff (by rw [declared, known])).mp declared
  obtain ⟨a, rfl⟩ := ((check u shape_eq).of_ok passes).mp rfl
  exact ⟨a, rfl⟩

/-- What has a number is accepted, unless it is out of range. -/
theorem numbered_accepted (unknowns : Yields safe (· = [(name, shape)]) p.unknowns)
    (shapes : ∀ a, (t a).shape = shape)
    (check : ∀ u : Tensor Bool, u.shape = shape →
      Yields safe (fun b => b = true ↔ ∃ a, u = t a) (p.check [(name, u)])) (a : A) :
    [(name, t a)] ∈ p.accepted ∨
      ¬ safe ∧ (OutOfRange p.unknowns ∨ OutOfRange (p.check [(name, t a)])) := by
  rcases unknowns with ⟨_, known, rfl⟩ | ⟨loose, out⟩
  · rcases check (t a) (shapes a) with ⟨b, run, hb⟩ | ⟨loose, out⟩
    · rw [hb.mpr ⟨a, rfl⟩] at run
      exact .inl ⟨(declares_iff known).mpr ⟨t a, shapes a, rfl⟩, run⟩
    · exact .inr ⟨loose, .inr out⟩
  · exact .inr ⟨loose, .inl out⟩

/-- A check that accepts the tensors of a numbering accepts as many as there are numbers. -/
theorem counts_of_numbering [Fintype A] (unknowns : Yields safe (· = [(name, shape)]) p.unknowns)
    (shapes : ∀ a, (t a).shape = shape) (differ : Function.Injective t)
    (check : ∀ u : Tensor Bool, u.shape = shape →
      Yields safe (fun b => b = true ↔ ∃ a, u = t a) (p.check [(name, u)])) :
    p.Counts safe (Fintype.card A) := by
  have below := accepted_subset unknowns check
  have above := numbered_accepted unknowns shapes check
  refine ⟨?_, _, encard_numbered differ, below, ?_⟩
  · intro roomy
    have all : p.accepted = Set.range fun a => [(name, t a)] := by
      refine below.antisymm ?_
      rintro _ ⟨a, rfl⟩
      exact (above a).resolve_right fun out => out.1 roomy
    rw [all, encard_numbered differ]
  · rintro _ ⟨a, rfl⟩ refused
    exact ((above a).resolve_left refused).2

end Numbering

/-! ## Values of the unknowns -/

theorem yields_single {name : String} {size order : Nat}
    (room : safe → order < Count.storeLimit) :
    Yields safe (· = [(name, List.replicate order size)]) (single name size order) := by
  refine ((Count.yields_store room).bind fun axes length => ?_).bind (P := fun shape =>
    shape = List.replicate order size) fun shape same => .of_eq rfl (by rw [same])
  exact .of_eq rfl (by rw [length])

theorem relation_eq {t : Tensor Bool} (shape : t.shape = [n, n]) :
    relation [("rel", t)] = .ok ⟨t⟩ :=
  Relation.ofTensor_uniform (k := 1) shape

theorem operation_eq {t : Tensor Bool} (shape : t.shape = List.replicate (k + 1) n) :
    operation [("op", t)] = .ok ⟨t⟩ := by
  show Operation.ofTensor t = _
  unfold Operation.ofTensor
  rw [Relation.ofTensor_uniform shape]
  rfl

theorem permutation_eq {t : Tensor Bool} (shape : t.shape = List.replicate 2 n) :
    permutation [("perm", t)] = .ok ⟨⟨t⟩⟩ := by
  have arity : (⟨t⟩ : Operation Bool).arity = 1 := Operation.arity_of_graph (k := 1) shape
  show (do Permutation.ofOperation (← Operation.ofTensor t)) = _
  unfold Operation.ofTensor
  rw [Relation.ofTensor_uniform (k := 1) shape]
  show Permutation.ofOperation ⟨t⟩ = _
  unfold Permutation.ofOperation
  rw [if_neg (not_not.mpr arity)]

/-! ## The problems -/

theorem card_permutations (n : Nat) : Fintype.card (Equiv.Perm (Fin n)) = n.factorial := by
  rw [Fintype.card_perm, Fintype.card_fin]

theorem counts_totalOrders (n : Nat) :
    (totalOrders n).Counts (Shape.Roomy n 3) n.factorial := by
  rw [← card_permutations]
  refine counts_of_numbering (yields_single fun _ => by decide) (fun _ => rfl)
    Relation.orderOf_injective ?_
  intro t shape
  show Yields _ _ (do (← relation [("rel", t)]).isTotalOrder)
  rw [relation_eq shape]
  exact Relation.yields_isTotalOrder shape Shape.Roomy.spacious

theorem counts_permutations (n : Nat) :
    (permutations n).Counts (Shape.Roomy n 2) n.factorial := by
  rw [← card_permutations]
  refine counts_of_numbering (yields_single fun _ => by decide) (fun _ => rfl)
    Permutation.graphOf_injective ?_
  intro t shape
  show Yields _ _ (do (← permutation [("perm", t)]).isPermutation)
  rw [permutation_eq shape]
  refine (Permutation.yields_isPermutation (p := ⟨⟨t⟩⟩) shape
    Shape.Roomy.spacious).mono fun b hb => hb.trans ?_
  exact exists_congr fun σ => Permutation.isGraph_iff shape

/-- There is one even permutation of at most one number; of more, half of all are even. -/
theorem card_evenPermutations (n : Nat) :
    Fintype.card (alternatingGroup (Fin n)) = if n ≤ 1 then 1 else n.factorial / 2 := by
  split
  · next few =>
    have : Subsingleton (Fin n) := Fin.subsingleton_iff_le_one.mpr few
    exact Fintype.card_unique
  · next many =>
    have : Nontrivial (Fin n) := Fin.nontrivial_iff_two_le.mpr (by omega)
    rw [card_alternatingGroup, Fintype.card_fin]

theorem counts_evenPermutations (n : Nat) :
    (evenPermutations n).Counts (Shape.Roomy n 4) (if n ≤ 1 then 1 else n.factorial / 2) := by
  rw [← card_evenPermutations]
  refine counts_of_numbering (yields_single fun _ => by decide) (fun _ => rfl)
    (Permutation.graphOf_injective.comp Subtype.val_injective) ?_
  intro t shape
  have check : (evenPermutations n).check [("perm", t)] = (do
      let p ← permutation [("perm", t)]
      let bijective ← p.isPermutation
      let even ← p.isEven
      BooleanDomain.and bijective even) := rfl
  rw [check, permutation_eq shape]
  refine (Permutation.yields_isPermutation (p := ⟨⟨t⟩⟩) shape fun room =>
    room.spacious.mono (by decide)).bind fun bijective hb => ?_
  refine (Permutation.yields_isEven (p := ⟨⟨t⟩⟩) shape Shape.Roomy.spacious).bind fun even he => .of_eq rfl ?_
  rw [Bool.and_eq_true_iff, hb]
  constructor
  · rintro ⟨⟨σ, graph⟩, found⟩
    have member := Equiv.Perm.mem_alternatingGroup.mpr ((he σ graph).mp found)
    exact ⟨⟨σ, member⟩, (Permutation.isGraph_iff shape).mp graph⟩
  · rintro ⟨⟨σ, member⟩, same⟩
    have graph := (Permutation.isGraph_iff shape).mpr same
    exact ⟨⟨σ, graph⟩, (he σ graph).mpr (Equiv.Perm.mem_alternatingGroup.mp member)⟩

theorem counts_functions (n k : Nat) :
    (functions n k).Counts (Shape.Roomy n (k + 1)) (n ^ n ^ k) := by
  have card : Fintype.card ((Fin k → Fin n) → Fin n) = n ^ n ^ k := by
    rw [Fintype.card_fun, Fintype.card_fun, Fintype.card_fin, Fintype.card_fin]
  have unknowns : Yields (Shape.Roomy n (k + 1)) (· = [("op", List.replicate (k + 1) n)])
      (functions n k).unknowns := by
    refine (Count.yields_check fun room => ?_).bind fun axes length => ?_
    · exact Nat.lt_trans room.axes_lt (by decide)
    · rw [length]
      exact yields_single Shape.Roomy.axes_lt
  rw [← card]
  refine counts_of_numbering (t := Operation.graphOf) unknowns (fun _ => rfl)
    Operation.graphOf_injective ?_
  intro t shape
  show Yields _ _ (do (← operation [("op", t)]).isOperation)
  rw [operation_eq shape]
  refine (Operation.yields_isOperation (f := ⟨t⟩) shape Shape.Roomy.spacious).mono fun b hb => hb.trans ?_
  exact Operation.functional_iff.trans (exists_congr fun g => Operation.isGraph_iff shape)

/-- The numbers of solutions of the problems of the catalog, counted by their checks: `n!` total
orders and permutations, of which half are even as soon as there are two, and `n ^ n ^ k` functions.
Only where the tensors of a check do not fit, a size is out of range. -/
theorem catalog_counts (n k : Nat) :
    (permutations n).Counts (Shape.Roomy n 2) n.factorial ∧
      (totalOrders n).Counts (Shape.Roomy n 3) n.factorial ∧
      (evenPermutations n).Counts (Shape.Roomy n 4) (if n ≤ 1 then 1 else n.factorial / 2) ∧
      (functions n k).Counts (Shape.Roomy n (k + 1)) (n ^ n ^ k) :=
  ⟨counts_permutations n, counts_totalOrders n, counts_evenPermutations n, counts_functions n k⟩

end Problem

end FiniteStructures
