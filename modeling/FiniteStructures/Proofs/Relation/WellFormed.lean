import FiniteStructures.Proofs.Operation.Values
import FiniteStructures.Proofs.Parametricity.Calls
import FiniteStructures.Proofs.Sat.Faults

/-!
The tensors of structures have at least one axis, and all their axes have one size (`Uniform`).  Most
constructions do not check this: a relation is wrapped as it is computed, and the size of the set is
read off the first axis.  What they return is well formed for one of three reasons:

    ofTensor             the tensor was checked
    complement, ...      the shape is that of a structure which is well formed
    binary, ...          the shape was filled with one size

So each of them has a lemma that needs no more than this, over any domain, and whatever calls make
out of tensors, tuples and tables is well formed (`Made.uniform`).  The relations with all tuples and
with none are the exception when they have no coordinates.
-/

namespace FiniteStructures

/-! ## Shapes -/

namespace Tensor

variable {E F G : Type} {n : Nat} {t u : Tensor E}

/-- The tensor has at least one axis, and all its axes have one size. -/
def Uniform (t : Tensor E) : Prop := ∃ k n, t.shape = List.replicate (k + 1) n

theorem Uniform.of_shape {u : Tensor F} (ht : t.Uniform) (same : u.shape = t.shape) : u.Uniform := by
  obtain ⟨k, n, shape⟩ := ht
  exact ⟨k, n, same.trans shape⟩

theorem shape_of_reshape {shape axes : List Nat} (run : t.reshape shape axes = .ok u) :
    u.shape = shape := by
  unfold reshape at run
  split at run
  · cases run
  · obtain ⟨steps, -, generated⟩ := Outcome.bind_ok run
    obtain ⟨_, -, cells⟩ := Outcome.bind_ok generated
    obtain ⟨⟨elems, length⟩, -, given⟩ := Outcome.bind_ok cells
    rw [← Except.ok.inj given]

/-- Axes of one size are put on places that are vacant or have that size already. -/
theorem place_entries {landings : List (Nat × Nat)} {shape result : List Nat}
    (same : ∀ p ∈ landings, p.1 = n) (entries : ∀ d ∈ shape, d = vacant ∨ d = n)
    (run : place landings shape = some result) :
    result.length = shape.length ∧ (∀ d ∈ result, d = vacant ∨ d = n) ∧
      (n ≠ vacant → result.count vacant + landings.length = shape.count vacant) := by
  induction landings generalizing shape with
  | nil =>
    obtain rfl := Option.some.inj run
    exact ⟨rfl, entries, fun _ => rfl⟩
  | cons p landings ih =>
    obtain ⟨first, rest⟩ := List.forall_mem_cons.mp same
    obtain ⟨d, axis⟩ := p
    obtain rfl : d = n := first
    unfold place at run
    split at run
    · next free =>
      have entries' : ∀ e ∈ shape.set axis d, e = vacant ∨ e = d := by
        intro e he
        rcases List.mem_or_eq_of_mem_set he with old | new
        · exact entries e old
        · exact .inr new
      obtain ⟨length, kept, count⟩ := ih rest entries' run
      refine ⟨length.trans (List.length_set ..), kept, fun some => ?_⟩
      obtain ⟨lt, here⟩ := List.getElem?_eq_some_iff.mp free
      have filled := count some
      rw [List.count_set lt, here] at filled
      have pos : 0 < shape.count vacant := List.count_pos_iff.mpr (here ▸ List.getElem_mem lt)
      simp only [BEq.rfl, if_true, beq_eq_false_iff_ne.mpr some, Bool.false_eq_true, if_false,
        Nat.add_zero] at filled
      rw [List.length_cons]
      omega
    · cases run

/-- Moved axes of one size leave the shape as it is. -/
theorem Uniform.shape_permute {axes : List Nat} (ht : t.Uniform) (run : t.permute axes = .ok u) :
    u.shape = t.shape := by
  obtain ⟨k, n, shape⟩ := ht
  have axes_eq : t.order = k + 1 := by rw [Tensor.order, shape, List.length_replicate]
  unfold permute at run
  by_cases order : axes.length = t.order
  · simp only [order, ne_eq, not_true_eq_false, if_false, axes_eq] at run
    cases placed : place (t.shape.zip axes) (List.replicate (k + 1) vacant) with
    | none =>
      rw [placed] at run
      cases run
    | some moved =>
      rw [placed] at run
      have landings : (t.shape.zip axes).length = k + 1 := by
        rw [List.length_zip, order, axes_eq, shape, List.length_replicate, Nat.min_self]
      have same : ∀ p ∈ t.shape.zip axes, p.1 = n := by
        intro p hp
        rw [shape] at hp
        exact List.eq_of_mem_replicate (List.of_mem_zip hp).1
      obtain ⟨length, entries, count⟩ := place_entries same
        (fun d hd => .inl (List.eq_of_mem_replicate hd)) placed
      rw [List.length_replicate] at length
      rw [List.count_replicate_self, landings] at count
      rw [shape_of_reshape run, shape]
      refine List.eq_replicate_iff.mpr ⟨length, fun d hd => ?_⟩
      rcases entries d hd with rfl | size
      · by_contra other
        -- as many axes landed as places were vacant
        have filled := count fun size => other size.symm
        exact List.count_eq_zero.mp (by omega) hd
      · exact size
  · simp only [order, ne_eq, not_false_eq_true, if_true] at run
    cases run

end Tensor

/-! ## What computations return -/

namespace Returns

variable {E F G : Type} {m : Type → Type} {σ : Type} [Monad m] [MonadLiftT Outcome m]
  [Runnable m σ] {n k : Nat}

theorem shape_uniform : Returns (· = List.replicate k n) (Shape.uniform n k) :=
  lift fun shape run => by
    have filled : Outcome.Yields False (· = List.replicate k n) (Shape.uniform n k) :=
      Shape.yields_uniform nofun
    exact filled.of_ok run

theorem shape_graph : Returns (· = List.replicate (k + 1) n) (Operation.graphShape n k) :=
  lift fun _ run => (Operation.graphShape_ok run).1

theorem constant (shape : List Nat) (e : E) :
    Returns (fun t : Tensor E => t.shape = shape) (Tensor.constant shape e) :=
  last fun _ => pure rfl

theorem generate (shape : List Nat) (cell : List Nat → m E) :
    Returns (fun t : Tensor E => t.shape = shape) (Tensor.generate shape cell) :=
  last fun _ => last fun _ => pure rfl

theorem reshape (t : Tensor E) (shape axes : List Nat) :
    Returns (fun u : Tensor E => u.shape = shape) (t.reshape shape axes) :=
  lift fun _ => Tensor.shape_of_reshape

theorem map2M (f : E → F → m G) (t : Tensor E) (u : Tensor F) :
    Returns (fun r : Tensor G => r.shape = t.shape) (t.map2M f u) := by
  unfold Tensor.map2M
  split
  · exact last fun _ => pure rfl
  · exact lift fun _ run => by cases run

theorem mapM (f : E → m F) (t : Tensor E) :
    Returns (fun r : Tensor F => r.shape = t.shape) (t.mapM f) :=
  last fun _ => pure rfl

end Returns

/-! ## Relations -/

namespace Relation

/-- The relation has coordinates, and all of them range over one set. -/
def WellFormed {E : Type} (r : Relation E) : Prop := r.tensor.Uniform

section Shapes

variable {E : Type} {n k : Nat} {r : Relation E}

theorem WellFormed.arity_pos (hr : r.WellFormed) : 0 < r.arity := by
  obtain ⟨k, n, shape⟩ := hr
  rw [arity_of_shape shape]
  exact Nat.succ_pos k

theorem returns_ofTensor (t : Tensor E) : Returns WellFormed (ofTensor t) :=
  .lift fun r run => by
    obtain ⟨rfl, uniform⟩ := uniform_of_ofTensor run
    exact uniform

theorem returns_ofTuples (size arity : Nat) (tuples : List (List Nat)) :
    Returns WellFormed (ofTuples size arity tuples) :=
  .last fun _ => .last fun _ => .last fun _ => .last fun t => returns_ofTensor t

/-- All tuples or none, if there is a coordinate. -/
theorem returns_constant (pos : 0 < k) (e : E) : Returns WellFormed
    (do return ⟨← Tensor.constant (← Shape.uniform n k) e⟩ : Outcome (Relation E)) := by
  obtain ⟨k, rfl⟩ := Nat.exists_eq_succ_of_ne_zero pos.ne'
  refine Returns.shape_uniform.bind fun shape same => ?_
  subst same
  exact (Returns.constant _ e).bind fun _ shape => .pure ⟨k, n, shape⟩

/-- Moved coordinates. -/
theorem returns_permute (hr : r.WellFormed) (axes : List Nat) :
    Returns WellFormed (do return ⟨← r.tensor.permute axes⟩ : Outcome (Relation E)) :=
  (Returns.lift fun _ => hr.shape_permute).bind fun _ shape => .pure (hr.of_shape shape)

theorem returns_diagonal : Returns WellFormed r.diagonal :=
  .last fun n => (Returns.reshape r.tensor [n] _).bind fun _ shape => .pure ⟨0, n, shape⟩

end Shapes

section Cells

variable {E : Type} {m : Type → Type} {σ : Type} [Monad m] [MonadLiftT Outcome m] [Runnable m σ]
  {r s : Relation E}

/-- The cells of two relations combined. -/
theorem returns_map2M (f : E → E → m E) (hr : r.WellFormed) (t : Tensor E) :
    Returns WellFormed (do return ⟨← r.tensor.map2M f t⟩ : m (Relation E)) :=
  (Returns.map2M f r.tensor t).bind fun _ shape => .pure (hr.of_shape shape)

theorem returns_joinWith (ops : SemiringOps E m) : Returns WellFormed (joinWith ops r s) := by
  unfold joinWith
  refine .ite (fun _ => .last fun _ => ?_) fun _ => ?_
  all_goals
    refine .last fun _ => .last fun _ => .last fun _ =>
      .ite (fun _ => .last fun _ => ?_) fun _ => ?_
  all_goals exact .last fun _ => (returns_ofTensor _).outcome

end Cells

variable {E : Type} {m : Type → Type} {σ : Type} [BooleanDomain E m] {n : Nat} {r s : Relation E}

theorem returns_binary (holds : Nat → Nat → Bool) :
    Returns WellFormed (binary n holds : Outcome (Relation E)) :=
  (Returns.generate [n, n] _).bind fun _ shape => .pure ⟨1, n, shape⟩

variable [Monad m] [MonadLiftT Outcome m] [Runnable m σ]

theorem returns_complement (hr : r.WellFormed) :
    Returns WellFormed (r.complement : m (Relation E)) :=
  (Returns.mapM _ r.tensor).bind fun _ shape => .pure (hr.of_shape shape)

theorem returns_project (coords : List Nat) :
    Returns WellFormed (r.project coords : m (Relation E)) := by
  unfold project
  refine .ite (fun _ => .last fun _ => ?_) fun _ => ?_
  all_goals exact .last fun _ => .last fun _ => .last fun _ => (returns_ofTensor _).outcome

theorem returns_product (hr : r.WellFormed) :
    Returns WellFormed (r.product s : m (Relation E)) := by
  unfold product
  refine .last fun _ => .last fun a => .last fun b => ?_
  obtain ⟨k, arity⟩ := Nat.exists_eq_succ_of_ne_zero hr.arity_pos.ne'
  rw [arity]
  have sizes : Returns (fun shape => ∃ n, shape = List.replicate (k + 1) n)
      (do Shape.uniform (← Count.mul a b) (k + 1)) :=
    .last fun n => .lift fun _ run => ⟨n, Returns.shape_uniform.of_ok run⟩
  refine sizes.outcome.bind fun shape ⟨n, same⟩ => ?_
  exact (Returns.generate shape _).bind fun _ built => .pure ⟨k, n, built.trans same⟩

theorem returns_reflexiveClosure (hr : r.WellFormed) :
    Returns WellFormed (r.reflexiveClosure : m (Relation E)) :=
  .last fun _ => .last fun _ => returns_map2M _ hr _

theorem returns_symmetricClosure (hr : r.WellFormed) :
    Returns WellFormed (r.symmetricClosure : m (Relation E)) :=
  .last fun _ => .last fun _ => returns_map2M _ hr _

theorem returns_times (hr : r.WellFormed) (j : Nat) :
    Returns WellFormed (times s j r : m (Relation E)) := by
  induction j generalizing r with
  | zero => exact .pure hr
  | succ j ih => exact (returns_product hr).bind fun u hu => ih hu

theorem returns_power (hr : r.WellFormed) (j : Nat) :
    Returns WellFormed (r.power j : m (Relation E)) :=
  (returns_constant hr.arity_pos _).outcome.bind fun _ hu => returns_times hu j

theorem returns_closeUp [DecidableEq E] (hr : r.WellFormed) (j : Nat) :
    Returns WellFormed (closeUp j r : m (Relation E)) := by
  induction j generalizing r with
  | zero => exact .pure hr
  | succ j ih =>
    unfold closeUp
    refine .last fun step => (returns_map2M _ hr _).bind fun next hn => ?_
    exact .ite (fun _ => .pure hr) fun _ => ih hn

theorem returns_transitiveClosure [DecidableEq E] (hr : r.WellFormed) :
    Returns WellFormed (r.transitiveClosure : m (Relation E)) :=
  .last fun _ => .last fun size => returns_closeUp hr (doublings size)

end Relation

/-! ## Operations -/

namespace Operation

section Graphs

variable {E : Type} {n k : Nat} {f : Operation E}

theorem returns_ofTensor (t : Tensor E) :
    Returns (fun f : Operation E => f.tensor.Uniform) (ofTensor t) :=
  (Relation.returns_ofTensor t).bind fun _ uniform => .pure uniform

theorem returns_generate (cell : List Nat → Outcome E) :
    Returns (fun f : Operation E => f.tensor.Uniform)
      (do return ⟨← Tensor.generate (← graphShape n k) cell⟩) := by
  refine Returns.shape_graph.bind fun shape same => ?_
  subst same
  exact (Returns.generate _ cell).bind fun _ shape => .pure ⟨k, n, shape⟩

theorem returns_polymer (arity : Nat) (places : List Nat) :
    Returns (fun h : Operation E => h.tensor.Uniform) (f.polymer arity places) := by
  have built : Returns (fun h : Operation E => h.tensor.Uniform) (do
      let size ← f.size
      return ⟨← f.tensor.reshape (← graphShape size arity) (0 :: places.map (· + 1))⟩) := by
    refine .last fun n => Returns.shape_graph.bind fun shape same => ?_
    subst same
    exact (Returns.reshape f.tensor _ _).bind fun _ shape => .pure ⟨arity, n, shape⟩
  unfold polymer
  refine .ite (fun _ => .last fun _ => ?_) fun _ => ?_
  all_goals
    split
    · exact .last fun _ => .last fun _ => built
    · exact built

end Graphs

variable {E : Type} {m : Type → Type} {σ : Type} [BooleanDomain E m] [Monad m]
  [MonadLiftT Outcome m] [Runnable m σ] {f g : Operation E}

theorem returns_composeWith (inner : List (Operation E)) :
    Returns (fun h : Operation E => h.tensor.Uniform) (f.composeWith inner : m (Operation E)) := by
  unfold composeWith
  refine .ite (fun _ => .last fun _ => ?_) fun _ => ?_
  all_goals
    split
    · exact .lift nofun
    · exact .last fun _ => .last fun _ => .last fun _ => (returns_ofTensor _).outcome

theorem returns_compose :
    Returns (fun h : Operation E => h.tensor.Uniform) (f.compose g : m (Operation E)) :=
  .last fun _ => .last fun _ => returns_composeWith [g]

/-- A relation on another set is refused, and so is one with too many coordinates, in this order; the
state is not touched. -/
theorem run_preserves {r : Relation E} {n d : Nat} (sized : r.size = .ok n) (size : f.size = .ok d)
    (outside : ¬ (1 ≤ r.arity ∧ r.arity ≤ maxPreservedArity)) (i : σ) :
    Runnable.run (f.preserves r : m E) i =
      (.error (.error (if n = d then .unsupported (.relationArity r.arity)
        else .shapeMismatch [d] [n])), i) := by
  have refused : requirePreservation f.arity r.arity =
      .error (.error (.unsupported (.relationArity r.arity))) := if_pos (by omega)
  unfold preserves
  rw [sized, size, Runnable.run_bind, Runnable.run_lift]
  dsimp only
  rw [Runnable.run_bind, Runnable.run_lift]
  dsimp only
  by_cases same : n = d
  · rw [if_neg (not_not.mpr same), if_pos same, refused, Runnable.run_bind, Runnable.run_lift]
  · rw [if_pos same, if_neg same, Runnable.run_bind, Runnable.run_lift]
    rfl

end Operation

/-! ## Permutations and partial orders -/

theorem Permutation.returns_ofOperation {E : Type} {f : Operation E} (hf : f.tensor.Uniform) :
    Returns (fun p : Permutation E => p.tensor.Uniform) (ofOperation f) :=
  .ite (fun _ => .lift nofun) fun _ => .pure hf

theorem Permutation.returns_invert {E : Type} {p : Permutation E} :
    Returns (fun p : Permutation E => p.tensor.Uniform) p.invert :=
  .last fun _ => (Operation.returns_ofTensor _).bind fun _ h => .pure h

namespace Poset

variable {E : Type} {m : Type → Type} {σ : Type} [BooleanDomain E m] [Monad m]
  [MonadLiftT Outcome m] [Runnable m σ] {p : Poset E}

theorem returns_ofRelation {r : Relation E} (hr : r.WellFormed) :
    Returns (fun p : Poset E => p.relation.WellFormed) (ofRelation r) :=
  .ite (fun _ => .lift nofun) fun _ => .pure hr

theorem returns_invert (hp : p.relation.WellFormed) :
    Returns (fun p : Poset E => p.relation.WellFormed) p.invert :=
  (Relation.returns_permute hp _).bind fun _ h => .pure h

theorem returns_strict (hp : p.relation.WellFormed) :
    Returns Relation.WellFormed (p.strict : m (Relation E)) :=
  .last fun _ => .last fun _ => Relation.returns_map2M _ hp _

theorem returns_covers (hp : p.relation.WellFormed) :
    Returns Relation.WellFormed (p.covers : m (Relation E)) :=
  (returns_strict hp).bind fun _ hs => .last fun _ => .last fun _ => Relation.returns_map2M _ hs _

end Poset

/-! ## Methods -/

namespace Method

variable {E : Type} {m : Type → Type} {σ : Type} [BooleanDomain E m]

/-- The constant is given by numbers alone, and has coordinates. -/
def Constant.Plain : Constant → Prop
  | full _ arity => 0 < arity
  | empty _ arity => 0 < arity
  | relation _ => False
  | operation _ => False
  | _ => True

theorem Constant.returns {c : Constant} (plain : c.Plain) :
    Returns Tensor.Uniform (c.run : Outcome (Tensor E)) := by
  cases c with
  | full size arity => exact (Relation.returns_constant plain _).bind fun _ h => .pure h
  | empty size arity => exact (Relation.returns_constant plain _).bind fun _ h => .pure h
  | equal size => exact (Relation.returns_binary _).bind fun _ h => .pure h
  | lessThan size => exact (Relation.returns_binary _).bind fun _ h => .pure h
  | lessOrEqual size => exact (Relation.returns_binary _).bind fun _ h => .pure h
  | relation r => exact plain.elim
  | projection size arity coord =>
    refine Returns.bind (P := fun f : Operation E => f.tensor.Uniform) ?_ fun _ h => .pure h
    refine .ite (fun _ => .last fun _ => .last fun _ => ?_) fun _ => ?_
    all_goals exact Operation.returns_generate _
  | const size arity value => exact (Operation.returns_generate _).bind fun _ h => .pure h
  | operation f => exact plain.elim
  | identity size =>
    exact .bind ((Relation.returns_binary _).bind fun _ h => .pure h) fun _ h => .pure h
  | chain size =>
    exact .bind ((Relation.returns_binary _).bind fun _ h => .pure h) fun _ h => .pure h
  | antichain size =>
    exact .bind ((Relation.returns_binary _).bind fun _ h => .pure h) fun _ h => .pure h

variable [Monad m] [MonadLiftT Outcome m] [Runnable m σ]

theorem Construction.returns [DecidableEq E] {t : Tensor E} (ht : t.Uniform) (f : Construction) :
    Returns Tensor.Uniform (f.run t : m (Tensor E)) := by
  have hr : (Relation.mk t).WellFormed := ht
  have hp : (Poset.mk ⟨t⟩).relation.WellFormed := ht
  cases f with
  | newRelation => exact (Relation.returns_ofTensor t).outcome.bind fun _ h => .pure h
  | newOperation => exact (Operation.returns_ofTensor t).outcome.bind fun _ h => .pure h
  | newPermutation => exact (Permutation.returns_ofOperation ht).outcome.bind fun _ h => .pure h
  | newPoset => exact (Poset.returns_ofRelation hr).outcome.bind fun _ h => .pure h
  | complement => exact (Relation.returns_complement hr).bind fun _ h => .pure h
  | revert => exact (Relation.returns_permute hr _).outcome.bind fun _ h => .pure h
  | rotate => exact (Relation.returns_permute hr _).outcome.bind fun _ h => .pure h
  | diagonal => exact Relation.returns_diagonal.outcome.bind fun _ h => .pure h
  | project coords => exact (Relation.returns_project coords).bind fun _ h => .pure h
  | power k => exact (Relation.returns_power hr k).bind fun _ h => .pure h
  | reflexiveClosure => exact (Relation.returns_reflexiveClosure hr).bind fun _ h => .pure h
  | symmetricClosure => exact (Relation.returns_symmetricClosure hr).bind fun _ h => .pure h
  | transitiveClosure => exact (Relation.returns_transitiveClosure hr).bind fun _ h => .pure h
  | graph => exact .pure ht
  | polymer arity map => exact (Operation.returns_polymer arity map).outcome.bind fun _ h => .pure h
  | invertPermutation => exact Permutation.returns_invert.outcome.bind fun _ h => .pure h
  | invertPoset => exact (Poset.returns_invert hp).outcome.bind fun _ h => .pure h
  | strict => exact (Poset.returns_strict hp).bind fun _ h => .pure h
  | covers => exact (Poset.returns_covers hp).bind fun _ h => .pure h

theorem Combination.returns {t : Tensor E} (ht : t.Uniform) (u : Tensor E) (f : Combination) :
    Returns Tensor.Uniform (f.run t u : m (Tensor E)) := by
  have hr : (Relation.mk t).WellFormed := ht
  cases f with
  | intersect => exact (Relation.returns_map2M _ hr u).bind fun _ h => .pure h
  | union => exact (Relation.returns_map2M _ hr u).bind fun _ h => .pure h
  | symmdiff => exact (Relation.returns_map2M _ hr u).bind fun _ h => .pure h
  | compose => exact (Relation.returns_joinWith _).bind fun _ h => .pure h
  | multiply => exact (Relation.returns_joinWith _).bind fun _ h => .pure h
  | product => exact (Relation.returns_product hr).bind fun _ h => .pure h
  | composeOperations => exact Operation.returns_compose.bind fun _ h => .pure h
  | composePermutations =>
    exact .bind (Operation.returns_compose.bind fun _ h => .pure h) fun _ h => .pure h
  | intersectPosets =>
    exact .bind ((Relation.returns_map2M _ hr u).bind fun _ h => .pure h) fun _ h => .pure h

end Method

/-! ## What calls make -/

/-- A boolean domain with its effects. -/
structure Domain where
  Elem : Type
  Effect : Type → Type
  State : Type
  [equality : DecidableEq Elem]
  [monad : Monad Effect]
  [outcomes : MonadLiftT Outcome Effect]
  [boolean : BooleanDomain Elem Effect]
  [runnable : Runnable Effect State]

namespace Domain

attribute [instance] equality monad outcomes boolean runnable

/-- Truth values. -/
abbrev truth : Domain := ⟨Bool, Outcome, Unit⟩

/-- Literals of a formula. -/
abbrev literals : Domain := ⟨Literal, Compile, Instance⟩

end Domain

namespace Method

/-- The tensors of the relations, operations, permutations and partial orders that calls make, from
tensors, lists of tuples, tables of functions and numbers.  The relations with all tuples and with none
are those with coordinates. -/
inductive Made : (D : Domain) → Tensor D.Elem → Prop
  | tensor {D : Domain} {t : Tensor D.Elem} {r : Relation D.Elem}
      (run : Relation.ofTensor t = .ok r) : Made D r.tensor
  | tuples {size arity : Nat} {tuples : List (List Nat)} {r : Relation Bool}
      (run : Relation.ofTuples size arity tuples = .ok r) : Made .truth r.tensor
  | table {size arity : Nat} {values : List Nat → Outcome Nat} {f : Operation Bool}
      (run : Operation.ofFunction size arity values = .ok f) : Made .truth f.tensor
  | lift {D : Domain} {r : Relation Bool} (hr : Made .truth r.tensor) :
      Made D (r.lift : Relation D.Elem).tensor
  | constant {D : Domain} {c : Constant} {t : Tensor D.Elem} (plain : c.Plain)
      (run : c.run = .ok t) : Made D t
  | construct {D : Domain} {f : Construction} {t u : Tensor D.Elem} {i j : D.State}
      (ht : Made D t) (run : Runnable.run (f.run t) i = (.ok u, j)) : Made D u
  | combine {D : Domain} {f : Combination} {t t' u : Tensor D.Elem} {i j : D.State}
      (ht : Made D t) (ht' : Made D t') (run : Runnable.run (f.run t t') i = (.ok u, j)) : Made D u
  | superpose {D : Domain} {t : Tensor D.Elem} {inner : List (Tensor D.Elem)}
      {h : Operation D.Elem} {i j : D.State} (ht : Made D t) (hi : ∀ u ∈ inner, Made D u)
      (run : Runnable.run ((Operation.mk t).composeWith (inner.map Operation.mk)) i = (.ok h, j)) :
      Made D h.tensor

theorem Made.uniform {D : Domain} {t : Tensor D.Elem} (made : Made D t) : t.Uniform := by
  induction made with
  | tensor run => exact (Relation.returns_ofTensor _).of_ok run
  | tuples run => exact (Relation.returns_ofTuples _ _ _).of_ok run
  | table run => exact (Operation.returns_generate _).of_ok run
  | lift _ ih => exact ih.of_shape rfl
  | constant plain run => exact (Constant.returns plain).of_ok run
  | construct _ run ih => exact Construction.returns ih _ _ _ _ run
  | combine _ _ run ih _ => exact Combination.returns ih _ _ _ _ _ run
  | superpose _ _ run _ _ => exact Operation.returns_composeWith _ _ _ _ run

/-- A relation that calls make has coordinates and all of them range over one set, so its size is
found.  Preservation of a relation with too many coordinates is refused with an error that tells the
sizes of the sets if they differ, and else the number of coordinates. -/
theorem made_wellFormed {D : Domain} {r : Relation D.Elem} (made : Made D r.tensor) :
    ∃ k n, r.tensor.shape = List.replicate (k + 1) n ∧ r.arity = k + 1 ∧ r.size = .ok n ∧
      ∀ f : Operation D.Elem, Made D f.tensor → ∃ d, f.size = .ok d ∧
        (¬ (1 ≤ r.arity ∧ r.arity ≤ 4) → ∀ i : D.State,
          Runnable.run (f.preserves r) i =
            (.error (.error (if n = d then .unsupported (.relationArity r.arity)
              else .shapeMismatch [d] [n])), i)) := by
  obtain ⟨k, n, shape⟩ := made.uniform
  have size : r.size = .ok n := Relation.size_of_shape shape
  refine ⟨k, n, shape, Relation.arity_of_shape shape, size, fun f hf => ?_⟩
  obtain ⟨l, d, graph⟩ := hf.uniform
  have size' : f.size = .ok d := Relation.size_of_shape (r := f.toRelation) graph
  exact ⟨d, size', fun outside i => Operation.run_preserves size size' outside i⟩

/-- The relation of all tuples of five truth values. -/
def fullFive : Relation Bool := ⟨⟨[2, 2, 2, 2, 2], List.replicate 32 true, rfl⟩⟩

/-- The projection to the first of two arguments. -/
def firstOfTwo : Operation Bool :=
  ⟨⟨[2, 2, 2], [true, false, false, true, true, false, false, true], rfl⟩⟩

/-- Five coordinates are too many, over truth values and over literals, where the formula is not
touched. -/
theorem made_wellFormed_five :
    Made .truth fullFive.tensor ∧ Made .truth firstOfTwo.tensor ∧ fullFive.size = .ok 2 ∧
      firstOfTwo.preserves fullFive = .error (.error (.unsupported (.relationArity 5))) ∧
      Compile.exec ((firstOfTwo.lift : Operation Literal).preserves fullFive.lift) Instance.initial =
        (.error (.error (.unsupported (.relationArity 5))), Instance.initial) := by
  have five : 0 < 5 := by decide
  have related : Made .truth fullFive.tensor := .constant (c := .full 2 5) five rfl
  have graph : Made .truth firstOfTwo.tensor := .constant (c := .projection 2 2 0) trivial rfl
  have lifted : Made .literals (fullFive.lift : Relation Literal).tensor := .lift related
  have lifted' : Made .literals (firstOfTwo.lift : Operation Literal).tensor :=
    .lift (r := firstOfTwo.toRelation) graph
  have outside : ¬ (1 ≤ 5 ∧ 5 ≤ 4) := by decide
  obtain ⟨_, n, -, -, size, refuses⟩ := made_wellFormed related
  obtain rfl : 2 = n := Except.ok.inj size
  obtain ⟨d, size', refused⟩ := refuses firstOfTwo graph
  obtain rfl : 2 = d := Except.ok.inj size'
  obtain ⟨_, n, -, -, sizeL, refusesL⟩ := made_wellFormed lifted
  obtain rfl : 2 = n := Except.ok.inj sizeL
  obtain ⟨d, sizeL', refusedL⟩ := refusesL firstOfTwo.lift lifted'
  obtain rfl : 2 = d := Except.ok.inj sizeL'
  refine ⟨related, graph, size, ?_, refusedL outside Instance.initial⟩
  exact congrArg Prod.fst (refused outside ())

/-- Without coordinates there is a relation with all tuples, whose size is not found; and a relation
with five coordinates on another set is refused for its set. -/
theorem not_wellFormed_without_coordinates :
    (∃ r : Relation Bool, Relation.full 2 0 = .ok r ∧ r.tensor.shape = [] ∧
      r.size = .error (.misuse .outOfBounds) ∧
      firstOfTwo.preserves r = .error (.misuse .outOfBounds)) ∧
    ∃ r : Relation Bool, Relation.full 1 5 = .ok r ∧ r.arity = 5 ∧
      firstOfTwo.preserves r = .error (.error (.shapeMismatch [2] [1])) := by
  refine ⟨⟨⟨⟨[], [true], rfl⟩⟩, by rfl, rfl, by rfl, ?_⟩,
    ⟨⟨[1, 1, 1, 1, 1], [true], rfl⟩⟩, by rfl, by rfl, ?_⟩
  all_goals rfl

end Method

end FiniteStructures
