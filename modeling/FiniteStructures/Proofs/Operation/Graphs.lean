import FiniteStructures.Operation.Identities
import FiniteStructures.Proofs.Relation.Binary
import Mathlib.Data.Fintype.BigOperators
import Mathlib.Data.List.GetD

/-!
Graphs of functions.  An operation takes values at arguments,

    f.Takes args value      the cell at (value, args) is true

and is the graph of a function when it takes one value at all arguments, which is what the fold over
the values tests.  A function has one graph, `graphOf g`.  What is built from graphs is told by the
relation of values and arguments, for graphs of functions and for other ones alike (`Graph`).
-/

namespace FiniteStructures

namespace Operation

open Outcome Tensor

variable {safe : Prop} {n k : Nat} {f : Operation Bool}

/-- The operation has the value at the arguments; a graph may have none there, or several. -/
def Takes (f : Operation Bool) (args : Fin k → Fin n) (value : Fin n) : Prop :=
  f.tensor.Holds (value :: List.ofFn fun j => (args j : Nat))

instance (f : Operation Bool) (args : Fin k → Fin n) (value : Fin n) :
    Decidable (f.Takes args value) := inferInstanceAs (Decidable (f.tensor.Holds _))

/-- The operation is the graph of a function. -/
def IsGraph (f : Operation Bool) (g : (Fin k → Fin n) → Fin n) : Prop :=
  ∀ args value, f.Takes args value ↔ value = g args

/-- The indices of a graph are values with arguments. -/
theorem within_graph {index : List Nat} :
    Shape.Within (List.replicate (k + 1) n) index ↔
      ∃ (args : Fin k → Fin n) (value : Fin n),
        index = (value : Nat) :: List.ofFn fun j => (args j : Nat) := by
  rw [Shape.within_ofFn]
  constructor
  · rintro ⟨t, rfl⟩
    exact ⟨fun j => t j.succ, t 0, List.ofFn_succ⟩
  · rintro ⟨args, value, rfl⟩
    refine ⟨Fin.cons value args, ?_⟩
    rw [List.ofFn_succ]
    rfl

/-- A graph is given by the values it takes. -/
theorem tensor_eq {h : Operation Bool} (shape : f.tensor.shape = List.replicate (k + 1) n)
    (shape' : h.tensor.shape = List.replicate (k + 1) n)
    (same : ∀ (args : Fin k → Fin n) value, f.Takes args value ↔ h.Takes args value) :
    f.tensor = h.tensor := by
  refine (table_holds shape).unique ((table_holds shape').congr ?_)
  intro index within
  obtain ⟨args, value, rfl⟩ := within_graph.mp within
  exact (same args value).symm

/-! ## The graph of a relation -/

/-- The operation has `k` arguments, all below `n`, and takes a value at arguments when these are
related. -/
structure Graph (k n : Nat) (R : Nat → List Nat → Prop) (f : Operation Bool) : Prop where
  shape_eq : f.tensor.shape = List.replicate (k + 1) n
  holds : ∀ v < n, ∀ args, Shape.Within (List.replicate k n) args →
    (f.tensor.Holds (v :: args) ↔ R v args)

variable {R S : Nat → List Nat → Prop}

/-- A relation of values and arguments as a property of indices. -/
def OnGraph (R : Nat → List Nat → Prop) (index : List Nat) : Prop := R (index.headD 0) index.tail

theorem forall_graph {Q : List Nat → Prop} :
    (∀ index, Shape.Within (List.replicate (k + 1) n) index → Q index) ↔
      ∀ v < n, ∀ args, Shape.Within (List.replicate k n) args → Q (v :: args) := by
  constructor
  · intro h v lt args within
    exact h (v :: args) ⟨lt, within⟩
  · intro h index within
    match index, within with
    | v :: args, ⟨lt, within⟩ => exact h v lt args within

theorem graph_iff_table :
    Graph k n R f ↔ Table (List.replicate (k + 1) n) (OnGraph R) f.tensor :=
  ⟨fun h => ⟨h.shape_eq, forall_graph.mpr h.holds⟩,
    fun h => ⟨h.shape_eq, forall_graph.mp h.holds⟩⟩

/-- Every operation is the graph of the values that it takes. -/
theorem graph_self (shape : f.tensor.shape = List.replicate (k + 1) n) :
    Graph k n (fun v args => f.tensor.Holds (v :: args)) f := ⟨shape, fun _ _ _ _ => Iff.rfl⟩

theorem Graph.iff (h : Graph k n R f) {v : Nat} {args : List Nat} : f.tensor.Holds (v :: args) ↔
    (v < n ∧ Shape.Within (List.replicate k n) args) ∧ R v args :=
  (graph_iff_table.mp h).iff

theorem Graph.isEqualTo {h : Operation Bool} (hf : Graph k n R f) (hh : Graph k n S h) :
    Yields safe (fun b => b = true ↔ ∀ v < n, ∀ args, Shape.Within (List.replicate k n) args →
        (R v args ↔ S v args)) (f.isEqualTo h) :=
  (Relation.yields_isEqualTo (graph_iff_table.mp hf) (graph_iff_table.mp hh)).mono
    fun _ hb => hb.trans forall_graph

/-! ## The graph of a function -/

/-- The tensor that is true at the values of a function with their arguments. -/
def graphOf (g : (Fin k → Fin n) → Fin n) : Tensor Bool :=
  tabulate (List.replicate (k + 1) n) fun index =>
    ∃ args : Fin k → Fin n, index = (g args : Nat) :: List.ofFn fun j => (args j : Nat)

theorem graphOf_isGraph (g : (Fin k → Fin n) → Fin n) : IsGraph ⟨graphOf g⟩ g := by
  intro args value
  refine ((table_tabulate _ _).holds _ (within_graph.mpr ⟨args, value, rfl⟩)).trans ?_
  constructor
  · rintro ⟨args', same⟩
    obtain ⟨values, rest⟩ := List.cons_eq_cons.mp same
    have arguments : args = args' := funext fun j =>
      Fin.ext (congrFun (List.ofFn_injective rest) j)
    rw [arguments]
    exact Fin.ext values
  · rintro rfl
    exact ⟨args, rfl⟩

theorem isGraph_iff (shape : f.tensor.shape = List.replicate (k + 1) n)
    {g : (Fin k → Fin n) → Fin n} : f.IsGraph g ↔ f.tensor = graphOf g := by
  constructor
  · intro graph
    refine tensor_eq (h := ⟨graphOf g⟩) shape rfl ?_
    intro args value
    exact (graph args value).trans (graphOf_isGraph g args value).symm
  · intro same
    obtain ⟨t⟩ := f
    obtain rfl : t = graphOf g := same
    exact graphOf_isGraph g

theorem graphOf_injective :
    Function.Injective (graphOf : ((Fin k → Fin n) → Fin n) → Tensor Bool) := by
  intro g g' same
  funext args
  refine (graphOf_isGraph g' args (g args)).mp ?_
  rw [← same]
  exact (graphOf_isGraph g args (g args)).mpr rfl

/-- One value at all arguments makes a function. -/
theorem functional_iff :
    (∀ args : Fin k → Fin n, ∃! value, f.Takes args value) ↔
      ∃ g : (Fin k → Fin n) → Fin n, f.IsGraph g := by
  constructor
  · intro functional
    choose g takes unique using functional
    refine ⟨g, ?_⟩
    intro args value
    constructor
    · exact unique args value
    · rintro rfl
      exact takes args
  · rintro ⟨g, graph⟩ args
    exact ⟨g args, (graph args _).mpr rfl, fun value => (graph args value).mp⟩

/-! ## Validity -/

theorem countP_ofFn (P : Fin n → Prop) [DecidablePred P] :
    (List.ofFn fun i => decide (P i)).countP id = (Finset.univ.filter P).card := by
  rw [List.ofFn_eq_map, List.countP_map, List.countP_eq_length_filter]
  rfl

/-- The fold over the values finds exactly one at all arguments. -/
theorem yields_isOperation (shape : f.tensor.shape = List.replicate (k + 1) n)
    (room : safe → Shape.Spacious n (k + 1)) :
    Yields safe (fun b => b = true ↔ ∀ args : Fin k → Fin n, ∃! value, f.Takes args value)
      f.isOperation := by
  have table : Table ([n] ++ List.replicate k n) f.tensor.Holds f.tensor := table_holds shape
  refine (table.foldM (g := BooleanDomain.one) (f := fun l => l.countP id == 1) (fun _ => rfl)
    fun hs => (room hs).store).bind fun t ht => .of_eq rfl (ht.all.trans ?_)
  have values (args : Fin k → Fin n) : ((Shape.enumerate [n]).map fun front =>
      decide (f.tensor.Holds (front ++ List.ofFn fun j => (args j : Nat)))) =
        List.ofFn fun value : Fin n => decide (f.Takes args value) := by
    have fronts : Shape.enumerate [n] = (List.range n).map fun i => [i] :=
      List.flatMap_singleton ..
    rw [fronts, List.map_map, map_range_eq_ofFn]
    rfl
  have one (args : Fin k → Fin n) : (List.countP id ((Shape.enumerate [n]).map fun front =>
      decide (f.tensor.Holds (front ++ List.ofFn fun j => (args j : Nat)))) == 1) = true ↔
        ∃! value, f.Takes args value := by
    rw [values, countP_ofFn, beq_iff_eq, Fintype.existsUnique_iff_card_one]
  constructor
  · intro h args
    exact (one args).mp (h _ (Shape.within_ofFn.mpr ⟨args, rfl⟩))
  · intro h index within
    obtain ⟨args, rfl⟩ := Shape.within_ofFn.mp within
    exact (one args).mpr (h args)

theorem arity_of_graph (shape : f.tensor.shape = List.replicate (k + 1) n) : f.arity = k := by
  rw [Operation.arity, Tensor.order, shape, List.length_replicate, Nat.add_sub_cancel]

/-- A value is over the image of the graph exactly when it is taken. -/
theorem some_image_iff (shape : f.tensor.shape = List.replicate (k + 1) n) {vars : List Char}
    (nodup : vars.Nodup) (length : vars.length = k + 1) (value : Fin n) :
    (∃ τ : Point, (vars.take 1).map τ = [(value : Nat)] ∧ f.tensor.Holds (vars.map τ)) ↔
      ∃ args : Fin k → Fin n, f.Takes args value := by
  constructor
  · rintro ⟨τ, image, holds⟩
    -- a witness is an index of the graph that begins with the value
    have within := holds.within
    rw [shape] at within
    obtain ⟨args, value', index⟩ := within_graph.mp within
    have first : (vars.map τ).take 1 = [(value : Nat)] := by rw [← List.map_take, image]
    rw [index] at first holds
    obtain rfl : value' = value := Fin.ext (List.head_eq_of_cons_eq first)
    exact ⟨args, holds⟩
  · rintro ⟨args, takes⟩
    have coordinates : ((value : Nat) :: List.ofFn fun j => (args j : Nat)).length =
        vars.length := by
      rw [List.length_cons, List.length_ofFn, length]
    obtain ⟨τ, index⟩ := Contraction.exists_map_eq nodup coordinates
    refine ⟨τ, ?_, ?_⟩
    · rw [List.map_take, index]
      rfl
    · rw [index]
      exact takes

/-- The image of the graph has all values. -/
theorem yields_isSurjective (shape : f.tensor.shape = List.replicate (k + 1) n) (few : k < 52)
    (room : safe → Shape.Spacious n (k + 1)) :
    Yields safe (fun b => b = true ↔ ∀ value, ∃ args : Fin k → Fin n, f.Takes args value)
      f.isSurjective := by
  let vars := Contraction.namePool.take (k + 1)
  have length : vars.length = k + 1 := Contraction.length_names few
  have nodup : vars.Nodup := Contraction.nodup_names _
  have call : f.isSurjective = (do
      let image ← Contraction.query SemiringOps.logical [(f.tensor, vars)] (vars.take 1)
      BooleanDomain.all image.elems) := by
    unfold isSurjective
    rw [arity_of_graph shape, Contraction.names_eq few]
    rfl
  rw [call]
  refine (Contraction.yields_shadow (by rw [shape, length]) nodup
    (nodup.sublist (List.take_sublist _ _)) (fun _ hv => List.mem_of_mem_take hv)
    (by rw [length]; exact room)).bind fun t ht => .of_eq rfl (ht.all.trans ?_)
  have one : (vars.take 1).length = 1 := by rw [List.length_take, length]; omega
  rw [one]
  constructor
  · intro h value
    exact (some_image_iff shape nodup length value).mp (h [value] ⟨value.isLt, trivial⟩)
  · intro h index within
    match index, within with
    | [value], ⟨lt, _⟩ => exact (some_image_iff shape nodup length ⟨value, lt⟩).mpr (h ⟨value, lt⟩)

end Operation

end FiniteStructures
