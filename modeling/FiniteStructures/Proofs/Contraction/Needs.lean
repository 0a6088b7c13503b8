import FiniteStructures.Proofs.Contraction.Witnesses

/-!
What a contraction needs.  Entries are joined before their common variables are summed out, so a
contraction of two entries that gives a value could store a tensor over all their variables
(`storable_of_query`).  An entry whose last axes are summed out is reshaped before, so that a
contraction of it alone could store it once more (`storable_of_shadow`).
-/

namespace FiniteStructures

namespace Contraction

open Outcome

variable {E : Type} {n : Nat} {sizes : Sizes} {ops : SemiringOps E Outcome}

theorem reduce_vars {stay : Char → Bool} {e r : Entry E} (run : reduce ops sizes stay e = .ok r) :
    r.vars = (distinct e.vars).filter stay := by
  have finish (t : Tensor E) (run : (if (summed stay e).isEmpty
      then return ⟨t, (distinct e.vars).filter stay⟩
      else return ⟨← t.foldM (summed stay e).length ops.sum, (distinct e.vars).filter stay⟩) =
        (.ok r : Outcome (Entry E))) : r.vars = (distinct e.vars).filter stay := by
    split at run
    · cases run
      rfl
    · obtain ⟨u, -, wrapped⟩ := bind_ok run
      cases wrapped
      rfl
  unfold reduce at run
  dsimp only at run
  split at run
  · exact finish _ run
  · obtain ⟨t, -, rest⟩ := bind_ok run
    exact finish t rest

/-- The variables of a joined entry. -/
def joinedVars (a b : List Char) : List Char := a ++ (distinct b).filter fun v => !a.contains v

theorem storable_of_join {a b r : Entry E} (run : join ops sizes a b = .ok r) :
    Shape.storable (shapeOf sizes (joinedVars a.vars b.vars)) = .ok () := by
  obtain ⟨left, reshaped, -⟩ := bind_ok run
  exact Tensor.storable_of_reshape reshaped

theorem getD_singleton {α : Type} (a : α) (i : Nat) : [a].getD i a = a := by cases i <;> rfl

theorem storable_of_collapse {result : List Char} {a b last : Entry E}
    (left : (distinct a.vars).filter (stays [a, b] result) = a.vars)
    (right : (distinct b.vars).filter (stays [a, b] result) = b.vars)
    (run : collapse ops sizes result 2 [a, b] = .ok last) :
    Shape.storable (shapeOf sizes (joinedVars a.vars b.vars)) = .ok () := by
  unfold collapse at run
  obtain ⟨⟨reduced, length⟩, reductions, rest⟩ := bind_ok run
  obtain ⟨a', first, others⟩ := bind_ok reductions
  obtain ⟨b', second, whole⟩ := bind_ok others
  obtain rfl : [a', b'] = reduced := congrArg Subtype.val (Except.ok.inj whole)
  obtain ⟨joined, run, -⟩ := bind_ok rest
  have stored := storable_of_join run
  rwa [getD_singleton, reduce_vars first, reduce_vars second, left, right] at stored

/-- A contraction over variables of one size gives what its entries are evaluated to. -/
theorem evaluated_of_query {entries : List (Tensor E × List Char)} {result : List Char}
    {t : Tensor E} (shapes : ∀ e ∈ entries, e.1.shape = List.replicate e.2.length n)
    (run : query ops entries result = .ok t) :
    ∃ c : Contraction E, Filled (asEntries entries) c ∧ Alone n c.sizes ∧
      ∃ u, evaluate ops c.sizes (asEntries entries) result = .ok u := by
  obtain ⟨c, filled, alone, added⟩ := addOrEnd_alone .empty nofun shapes
  rw [List.nil_append] at filled
  rw [query_eq] at run
  obtain ⟨c', added', asked⟩ := bind_ok run
  obtain rfl := Except.ok.inj (added.symm.trans added')
  obtain ⟨answer, got, given⟩ := bind_ok asked
  obtain ⟨wellBound, same⟩ := filled.wellBound
  refine ⟨c, filled, alone, ?_⟩
  unfold Contraction.get at got
  rw [wellBound.accepts, if_neg Bool.false_ne_true] at got
  cases passed : checkResult c.sizes result [] result with
  | error e =>
    rw [passed] at got
    obtain rfl := Except.ok.inj got
    cases given
  | ok _ =>
    rw [passed] at got
    obtain ⟨u, run, -⟩ := bind_ok got
    rw [same] at run
    exact ⟨u, run⟩

/-- Where two entries keep all their variables, a contraction of them stores a tensor over these. -/
theorem storable_of_query {a b : Tensor E × List Char} {result : List Char} {t : Tensor E}
    (shapes : ∀ e ∈ [a, b], e.1.shape = List.replicate e.2.length n)
    (left : (distinct a.2).filter (stays (asEntries [a, b]) result) = a.2)
    (right : (distinct b.2).filter (stays (asEntries [a, b]) result) = b.2)
    (run : query ops [a, b] result = .ok t) :
    Shape.storable (List.replicate (joinedVars a.2 b.2).length n) = .ok () := by
  obtain ⟨c, filled, alone, u, evaluated⟩ := evaluated_of_query shapes run
  have known : ∀ v ∈ joinedVars a.2 b.2, v ∈ bound c.sizes := by
    intro v hv
    refine (mem_bound_of_filled filled).mpr ?_
    rcases List.mem_append.mp hv with hv | hv
    · exact ⟨a, List.mem_cons_self, hv⟩
    · exact ⟨b, List.mem_cons_of_mem _ List.mem_cons_self,
        mem_distinct.mp (List.mem_of_mem_filter hv)⟩
  obtain ⟨last, collapsed, -⟩ := bind_ok evaluated
  have stored := storable_of_collapse left right collapsed
  rwa [alone.shapeOf known] at stored

/-- The variables of an entry in the order in which it is summed: first those that do not stay. -/
def reducedVars (stay : Char → Bool) (vars : List Char) : List Char :=
  (distinct vars).filter (fun v => !stay v) ++ (distinct vars).filter stay

theorem storable_of_reduce {stay : Char → Bool} {e r : Entry E}
    (moved : reducedVars stay e.vars ≠ e.vars) (run : reduce ops sizes stay e = .ok r) :
    Shape.storable (shapeOf sizes (reducedVars stay e.vars)) = .ok () := by
  unfold reduce at run
  dsimp only at run
  unfold reducedVars at moved
  rw [if_neg moved] at run
  obtain ⟨t, reshaped, -⟩ := bind_ok run
  exact Tensor.storable_of_reshape reshaped

/-- Where an entry alone is reshaped, a contraction of it stores it once more. -/
theorem storable_of_shadow {e : Tensor E × List Char} {result : List Char} {t : Tensor E}
    (shape : e.1.shape = List.replicate e.2.length n) (run : query ops [e] result = .ok t)
    (moved : reducedVars (stays (asEntries [e]) result) e.2 ≠ e.2) :
    Shape.storable
      (List.replicate (reducedVars (stays (asEntries [e]) result) e.2).length n) = .ok () := by
  obtain ⟨c, filled, alone, u, evaluated⟩ :=
    evaluated_of_query (List.forall_mem_singleton.mpr shape) run
  have known : ∀ v ∈ reducedVars (stays (asEntries [e]) result) e.2, v ∈ bound c.sizes := by
    intro v hv
    refine (mem_bound_of_filled filled).mpr ⟨e, List.mem_singleton_self e, ?_⟩
    rcases List.mem_append.mp hv with hv | hv <;> exact mem_distinct.mp (List.mem_of_mem_filter hv)
  obtain ⟨last, collapsed, -⟩ := bind_ok evaluated
  obtain ⟨⟨reduced, length⟩, reductions, -⟩ := bind_ok collapsed
  obtain ⟨r, first, -⟩ := bind_ok reductions
  rw [← alone.shapeOf known]
  exact storable_of_reduce moved first

end Contraction

end FiniteStructures
