import FiniteStructures.Proofs.Parametricity.Calls
import FiniteStructures.Proofs.Parametricity.Compiled
import FiniteStructures.Proofs.Parametricity.Predicates
import FiniteStructures.Proofs.Parametricity.Shapes
import FiniteStructures.Proofs.Tensor.Traverse

/-!
Methods over literals and over truth values.  Over the literals of a reachable formula, a method and
a problem of the catalog fail exactly as they do over truth values, and otherwise return literals
whose values in every model of the formula are those computed from the values of the operands
(`Method.compiled_as_evaluated`).
-/

namespace FiniteStructures

/-! ## Decoding -/

namespace Assignment

variable {a : Assignment} {free : List Nat} {gates : List Clause} {i : Instance}

theorem Satisfies.truth (h : a.Satisfies i.cnf) (wf : i.WellFormed free gates) :
    a.valuation 1 = true :=
  Valuation.holds_top_clause.mp (h.models _ wf.truth_mem)

/-- Minted literals have a value in every model. -/
theorem Satisfies.value (h : a.Satisfies i.cnf) (wf : i.WellFormed free gates) {l : Literal}
    (hl : i.Minted l) : a.value l = .ok (l.holds a.valuation) :=
  value_eq (Nat.lt_of_le_of_lt hl h.1) (h.truth wf)

theorem Satisfies.decode (h : a.Satisfies i.cnf) (wf : i.WellFormed free gates)
    {t : Tensor Literal} (ht : ∀ l ∈ t.elems, i.Minted l) :
    a.decode t = .ok (t.map (Literal.holds a.valuation)) :=
  Tensor.mapM_ok fun l hl => h.value wf (ht l hl)

end Assignment

namespace Tensor

variable {E F : Type}

/-- Elements with a property are related to their images. -/
theorem rel_map {P : E → Prop} {r : E → F → Prop} {f : E → F} (hf : ∀ e, P e → r e (f e))
    {t : Tensor E} (h : ∀ e ∈ t.elems, P e) : t.Rel r (t.map f) :=
  ⟨rfl, List.forall₂_map_right_iff.mpr (List.forall₂_same.mpr fun e he => hf e (h e he))⟩

/-- Tensors of one shape have the same image under a constant map. -/
theorem Rel.map_const {G : Type} {r : E → F → Prop} {t : Tensor E} {u : Tensor F}
    (h : t.Rel r u) (g : G) : t.map (fun _ => g) = u.map fun _ => g :=
  (h.map (s := Eq) fun _ _ _ => rfl).eq

end Tensor

namespace Method

variable {E F : Type}

/-- Every element of the operands has the property. -/
def Call.All (P : E → Prop) : Call E → Prop
  | .constant _ => True
  | .construct _ t => ∀ e ∈ t.elems, P e
  | .combine _ t u => (∀ e ∈ t.elems, P e) ∧ ∀ e ∈ u.elems, P e
  | .superpose t inner => (∀ e ∈ t.elems, P e) ∧ ∀ u ∈ inner, ∀ e ∈ u.elems, P e
  | .test _ t => ∀ e ∈ t.elems, P e
  | .compare _ t u => (∀ e ∈ t.elems, P e) ∧ ∀ e ∈ u.elems, P e

/-- The call with other elements in its operands. -/
def Call.map (f : E → F) : Call E → Call F
  | .constant c => .constant c
  | .construct g t => .construct g (t.map f)
  | .combine g t u => .combine g (t.map f) (u.map f)
  | .superpose t inner => .superpose (t.map f) (inner.map (Tensor.map f))
  | .test p t => .test p (t.map f)
  | .compare p t u => .compare p (t.map f) (u.map f)

/-- The call with the truth values of its operands. -/
def Call.decode (a : Assignment) : Call Literal → Outcome (Call Bool)
  | .constant c => return .constant c
  | .construct f t => return .construct f (← a.decode t)
  | .combine f t u => return .combine f (← a.decode t) (← a.decode u)
  | .superpose t inner => do
    let t ← a.decode t
    return .superpose t (← inner.mapM a.decode)
  | .test p t => return .test p (← a.decode t)
  | .compare p t u => return .compare p (← a.decode t) (← a.decode u)

/-- The result in truth values. -/
def Value.decode (a : Assignment) : Value Literal → Outcome (Value Bool)
  | .element l => return .element (← a.value l)
  | .tensor t => return .tensor (← a.decode t)

theorem Call.rel_map {P : E → Prop} {r : E → F → Prop} {f : E → F}
    (hf : ∀ e, P e → r e (f e)) {call : Call E} (h : call.All P) : call.Rel r (call.map f) := by
  cases call with
  | constant c => exact .constant c
  | construct g t => exact .construct g (Tensor.rel_map hf h)
  | combine g t u => exact .combine g (Tensor.rel_map hf h.1) (Tensor.rel_map hf h.2)
  | superpose t inner =>
    refine .superpose (Tensor.rel_map hf h.1) ?_
    exact List.forall₂_map_right_iff.mpr
      (List.forall₂_same.mpr fun u hu => Tensor.rel_map hf (h.2 u hu))
  | test p t => exact .test p (Tensor.rel_map hf h)
  | compare p t u => exact .compare p (Tensor.rel_map hf h.1) (Tensor.rel_map hf h.2)

theorem Call.Rel.map_const {G : Type} {r : E → F → Prop} {call : Call E} {call' : Call F}
    (h : call.Rel r call') (g : G) : call.map (fun _ => g) = call'.map fun _ => g := by
  cases h with
  | constant c => rfl
  | construct f h => simp only [Call.map, h.map_const g]
  | combine f h h' => simp only [Call.map, h.map_const g, h'.map_const g]
  | superpose h hi =>
    have inner : ∀ {us : List (Tensor E)} {vs : List (Tensor F)},
        List.Forall₂ (Tensor.Rel r) us vs →
        us.map (Tensor.map fun _ => g) = vs.map (Tensor.map fun _ => g) := by
      intro us vs hi
      induction hi with
      | nil => rfl
      | cons h _ ih => rw [List.map_cons, List.map_cons, h.map_const g, ih]
    simp only [Call.map, h.map_const g, inner hi]
  | test p h => simp only [Call.map, h.map_const g]
  | compare p h h' => simp only [Call.map, h.map_const g, h'.map_const g]

/-- The faults of a call over truth values are those of the shapes of its operands. -/
theorem Call.error_unit_iff (call : Call Bool) (e : Fault) :
    (call.map fun _ => ()).run = .error e ↔ call.run = .error e := by
  have shaped : Agree (Simulation.shapes.value ()) call.run (call.map fun _ => ()).run :=
    Simulation.run (S := Simulation.shapes) (w := ())
      (Call.rel_map (P := fun _ => True) (fun _ _ => trivial) (by cases call <;> simp [Call.All]))
  exact (shaped.error_iff e).symm

theorem Call.decode_eq {a : Assignment} {P : Literal → Prop} {f : Literal → Bool}
    {call : Call Literal} (h : call.All P) (hP : ∀ t : Tensor Literal, (∀ l ∈ t.elems, P l) →
      a.decode t = .ok (t.map f)) :
    call.decode a = .ok (call.map f) := by
  cases call with
  | constant c => rfl
  | construct f t => simp only [Call.decode, hP t h]; rfl
  | combine f t u => simp only [Call.decode, hP t h.1, hP u h.2]; rfl
  | superpose t inner =>
    simp only [Call.decode, hP t h.1, List.mapM_ok fun u hu => hP u (h.2 u hu)]
    rfl
  | test p t => simp only [Call.decode, hP t h]; rfl
  | compare p t u => simp only [Call.decode, hP t h.1, hP u h.2]; rfl

end Method

/-! ## Runs -/

/-- The unknowns in truth values. -/
def Named.decode (a : Assignment) (values : Named (Tensor Literal)) : Outcome Solution :=
  values.mapM fun (name, t) => do return (name, ← a.decode t)

namespace Named

variable {E F : Type}

/-- Named tensors with other cells. -/
def mapCells (f : E → F) (values : Named (Tensor E)) : Named (Tensor F) :=
  values.map fun p => (p.1, p.2.map f)

theorem rel_mapCells {P : E → Prop} {r : E → F → Prop} {f : E → F} (hf : ∀ e, P e → r e (f e))
    {values : Named (Tensor E)} (h : ∀ p ∈ values, ∀ e ∈ p.2.elems, P e) :
    values.Rel r (values.mapCells f) :=
  List.forall₂_map_right_iff.mpr
    (List.forall₂_same.mpr fun p hp => ⟨rfl, Tensor.rel_map hf (h p hp)⟩)

theorem decode_eq {a : Assignment} {values : Named (Tensor Literal)}
    (h : ∀ p ∈ values, a.decode p.2 = .ok (p.2.map (Literal.holds a.valuation))) :
    values.decode a = .ok (values.mapCells (Literal.holds a.valuation)) := by
  refine List.mapM_ok ?_
  intro p hp
  simp only [h p hp]
  rfl

end Named

namespace Compile

open Method

variable {free : List Nat} {gates : List Clause} {i : Instance}

/-- What is related to literals under the truth values of a model are their values there. -/
theorem value_of_gives {a : Assignment} (built : i.Built free gates) (h : a.Satisfies i.cnf)
    {l : Literal} {b : Bool} (hl : (stage built).Gives a.valuation l b) : a.value l = .ok b := by
  rw [h.value built.wellFormed hl.1]
  exact congrArg Except.ok (hl.2 (h.models.mono built.wellFormed.gates_mem))

theorem decode_of_gives {a : Assignment} (built : i.Built free gates) (h : a.Satisfies i.cnf)
    {t : Tensor Literal} {u : Tensor Bool} (ht : t.Rel ((stage built).Gives a.valuation) u) :
    a.decode t = .ok u := by
  have models := h.models.mono built.wellFormed.gates_mem
  have image : t.map (Literal.holds a.valuation) = u.map id :=
    (ht.map (s := Eq) fun _ _ hb => hb.2 models).eq
  have identity : u.map id = u := Tensor.ext rfl (List.map_id _)
  rw [h.decode built.wellFormed ((List.forall₂_and_left _ _).mp ht.elems).1, image, identity]

theorem value_decode_of_gives {a : Assignment} (built : i.Built free gates)
    (h : a.Satisfies i.cnf) {v : Value Literal} {u : Value Bool}
    (hv : v.Rel ((stage built).Gives a.valuation) u) : v.decode a = .ok u := by
  cases hv with
  | element hl => simp only [Value.decode, value_of_gives built h hl]; rfl
  | tensor ht => simp only [Value.decode, decode_of_gives built h ht]; rfl

/-- The models of the formula after a run are among those that the run speaks about. -/
theorem Parametric.agree_of_satisfies {α β : Type} {R : Valuation → Stage → α → β → Prop}
    {y : Valuation → Outcome β} {r : Outcome α × Instance} {new : List Clause}
    (h : Parametric free gates i R y r new) {a : Assignment} (sat : a.Satisfies r.2.cnf) :
    Agree (R a.valuation (stage h.built)) r.1 (y a.valuation) :=
  h.agree (sat.truth h.built.wellFormed) (sat.models.mono h.built.wellFormed.gates_mem)

end Compile

open Method Compile in
/-- Over the literals of a reachable formula every method fails exactly as it does over truth values
on operands of the same shapes, with the same fault, and its result decodes to the result on the
decoded operands, in every assignment that satisfies the formula after the call.  The problems of the
catalog compile to a literal that is true in such an assignment exactly when the decoded unknowns pass
the check. -/
theorem Method.compiled_as_evaluated {free : List Nat} {gates : List Clause} {i : Instance}
    (built : i.Built free gates) :
    (∀ (call : Call Literal) (concrete : Call Bool), call.All i.Minted →
      call.Rel (fun _ _ => True) concrete →
      let r := exec call.run i
      Exhausted r ∨
        (∀ e, r.1 = .error e ↔ concrete.run = .error e) ∧
        ∀ a : Assignment, a.Satisfies r.2.cnf → ∃ decoded, call.decode a = .ok decoded ∧
          ∀ v, r.1 = .ok v → ∃ u, v.decode a = .ok u ∧ decoded.run = .ok u) ∧
    ∀ (p : Problem) (values : Named (Tensor Literal)), p.InCatalog →
      (∀ v ∈ values, ∀ l ∈ v.2.elems, i.Minted l) →
      let r := exec (p.compile values) i
      Exhausted r ∨
        ∀ a : Assignment, a.Satisfies r.2.cnf → ∃ solution, values.decode a = .ok solution ∧
          (∀ e, r.1 = .error e ↔ p.check solution = .error e) ∧
          ∀ root, r.1 = .ok root → ∃ b, a.value root = .ok b ∧ p.check solution = .ok b := by
  constructor
  · intro call concrete minted shapes r
    refine Classical.or_iff_not_imp_left.mpr fun room => ⟨fun e => ?_, fun a sat => ?_⟩
    · -- the faults are those of the shapes, whether the formula has models or not
      have tracks := Simulation.run (S := Simulation.minted) (w := stage built)
        (Call.rel_map (P := i.Minted) (f := fun _ => ()) (fun _ hl => hl) minted)
      obtain ⟨w, agree⟩ := (minted_agree built tracks).resolve_left room
      rw [agree.error_iff, shapes.map_const (), Call.error_unit_iff]
    · have tracks {ρ : Valuation} (truth : ρ 1 = true) :=
        Simulation.run (S := Simulation.compiled truth) (w := stage built)
          (Call.rel_map (f := Literal.holds ρ) (fun _ hl => ⟨hl, fun _ => rfl⟩) minted)
      obtain ⟨new, h⟩ := (parametric (R := fun ρ w => Value.Rel (w.Gives ρ)) built
        tracks).resolve_left room
      have wf := h.built.wellFormed
      refine ⟨_, Call.decode_eq minted fun t ht => sat.decode wf fun l hl => Nat.le_trans (ht l hl)
        h.numVars, ?_⟩
      intro v hv
      obtain ⟨u, hu, hvu⟩ := (h.agree_of_satisfies sat).of_ok hv
      exact ⟨u, value_decode_of_gives h.built sat hvu, hu⟩
  · intro p values catalog minted r
    obtain ⟨keeps⟩ := catalog.uniform
    have tracks {ρ : Valuation} (truth : ρ 1 = true) :=
      keeps (Simulation.compiled truth) (w := stage built)
        (Named.rel_mapCells (f := Literal.holds ρ) (fun _ hl => ⟨hl, fun _ => rfl⟩) minted)
    refine (parametric (R := Stage.Gives) built tracks).imp id ?_
    rintro ⟨new, h⟩ a sat
    have wf := h.built.wellFormed
    have agree := h.agree_of_satisfies sat
    refine ⟨_, Named.decode_eq fun v hv => sat.decode wf fun l hl => Nat.le_trans (minted v hv l hl)
      h.numVars, agree.error_iff, ?_⟩
    intro root hroot
    obtain ⟨b, hb, hl⟩ := agree.of_ok hroot
    exact ⟨b, value_of_gives h.built sat hl, hb⟩

/-- The formula with two free variables. -/
def twoFree : Instance := Instance.initial.mint.mint

theorem twoFree_built : twoFree.Built [2, 3] [] := .fresh (.fresh .initial rfl) rfl

section

open Method Compile Instance Literal

/-- There are no gates yet. -/
theorem find?_twoFree (g : Gate) (key : Literal × Literal) : g.find? twoFree key = none := by
  rw [twoFree, Gate.find?_mint, Gate.find?_mint]
  cases g <;> simp [Gate.find?, Instance.initial]

/-- The first disjunction of the two variables brings a gate. -/
theorem exec_get_twoFree :
    exec (Compile.or (ofVar 1) (ofVar 2)) twoFree =
      (.ok (ofVar 3), twoFree.withGate .or (ofVar 1, ofVar 2)) :=
  Gate.exec_connect_new twoFree_built.wellFormed.marked .or (by decide) (by decide) (by decide) rfl
    (find?_twoFree _ _)

/-- The formula in which a conjunction of the two variables, by a disjunction of their opposites, was
asked for, and then a disjunction. -/
def bothAndAny : Instance :=
  (twoFree.withGate .or ((ofVar 2).opposite, (ofVar 1).opposite)).withGate .or (ofVar 1, ofVar 2)

/-- The formula that says whether exactly one of the variables holds. -/
def exactlyOne : Instance :=
  bothAndAny.withGate .or ((ofVar 4).opposite, (ofVar 3).opposite)

theorem exec_one_twoFree :
    exec (BooleanDomain.one [ofVar 1, ofVar 2] : Compile Literal) twoFree =
      (.ok (ofVar 5).opposite, exactlyOne) := by
  have marked := twoFree_built.wellFormed.marked
  have both : exec (Compile.and (ofVar 1) (ofVar 2)) twoFree = (.ok (ofVar 3).opposite,
      twoFree.withGate .or ((ofVar 2).opposite, (ofVar 1).opposite)) :=
    exec_bind_ok (Gate.exec_connect_new marked .or (a := (ofVar 1).opposite)
      (b := (ofVar 2).opposite) (by decide) (by decide) (by decide) rfl (find?_twoFree _ _))
  have any : exec (Compile.or (ofVar 1) (ofVar 2))
      (twoFree.withGate .or ((ofVar 2).opposite, (ofVar 1).opposite)) =
        (.ok (ofVar 4), bothAndAny) := by
    refine Gate.exec_connect_new (marked.withGate _ _) .or (by decide) (by decide) (by decide) rfl ?_
    rw [find?_withGate, if_neg (by decide), find?_twoFree]
  have last : exec (Compile.or (ofVar 4).opposite (ofVar 3).opposite) bothAndAny =
      (.ok (ofVar 5), exactlyOne) := by
    refine Gate.exec_connect_new ((marked.withGate _ _).withGate _ _) .or (by decide) (by decide)
      (by decide) rfl ?_
    rw [find?_withGate, if_neg (by decide), find?_withGate, if_neg (by decide),
      find?_twoFree]
  have first : exec (Derived.oneStep Compile.or Compile.and (bottom, bottom) (ofVar 1)) twoFree =
      (.ok (ofVar 1, bottom), twoFree) := rfl
  have second : exec (Derived.oneStep Compile.or Compile.and (ofVar 1, bottom) (ofVar 2)) twoFree =
      (.ok (ofVar 4, (ofVar 3).opposite), bothAndAny) :=
    (exec_bind_ok both).trans (exec_bind_ok any)
  have scan : exec ([ofVar 1, ofVar 2].foldlM (Derived.oneStep Compile.or Compile.and)
      (bottom, bottom)) twoFree = (.ok (ofVar 4, (ofVar 3).opposite), bothAndAny) :=
    (exec_bind_ok first).trans (exec_bind_ok second)
  exact (exec_bind_ok scan).trans (exec_bind_ok last)

/-- Of two variables the first holds.  The set of both is empty when neither holds, by one gate, and a
constant has one value, by three. -/
theorem Method.compiled_as_evaluated_two_free :
    let cells : Tensor Literal := ⟨[2], [ofVar 1, ofVar 2], rfl⟩
    let call : Call Literal := .test .isEmpty cells
    let values : Named (Tensor Literal) := [("op", cells)]
    let j := twoFree.withGate .or (ofVar 1, ofVar 2)
    let a : Assignment := ⟨#[false, true, true, false, true, true, false]⟩
    exec call.run twoFree = (.ok (.element (ofVar 3).opposite), j) ∧ a.Satisfies j.cnf ∧
      (∃ decoded, call.decode a = .ok decoded ∧ decoded.run = .ok (.element false)) ∧
      exec ((Problem.functions 2 0).compile values) twoFree =
        (.ok (ofVar 5).opposite, exactlyOne) ∧ a.Satisfies exactlyOne.cnf ∧
      ∃ solution, values.decode a = .ok solution ∧
        (Problem.functions 2 0).check solution = .ok true := by
  intro cells call values j a
  have sat : a.Satisfies j.cnf := ⟨by decide, by decide⟩
  have sat' : a.Satisfies exactlyOne.cnf := ⟨by decide, by decide⟩
  have any : exec (BooleanDomain.any [ofVar 1, ofVar 2] : Compile Literal) twoFree =
      (.ok (ofVar 3), j) := exec_bind_ok (exec_get_twoFree)
  have hcall : exec call.run twoFree = (.ok (.element (ofVar 3).opposite), j) :=
    exec_bind_ok (exec_bind_ok any)
  have table : exec (traverse (BooleanDomain.one : List Literal → Compile Literal)
      [[ofVar 1, ofVar 2]]) twoFree = (.ok ⟨[(ofVar 5).opposite], rfl⟩, exactlyOne) :=
    exec_bind_ok exec_one_twoFree
  have hroot : exec ((Problem.functions 2 0).compile values) twoFree =
      (.ok (ofVar 5).opposite, exactlyOne) := by
    have whole (l k : Literal) : (Problem.functions 2 0).compile [("op", ⟨[2], [l, k], rfl⟩)] =
        (traverse (BooleanDomain.one : List Literal → Compile Literal) [[l, k]] >>= fun values =>
          pure ⟨[], values.1, values.2⟩) >>= fun t : Tensor Literal => BooleanDomain.all t.elems := rfl
    have single (i : Instance) : exec (BooleanDomain.all [(ofVar 5).opposite] : Compile Literal) i =
        (.ok (ofVar 5).opposite, i) := rfl
    rw [whole, bind_assoc, exec_bind_ok table]
    exact single _
  obtain ⟨methods, problems⟩ := Method.compiled_as_evaluated twoFree_built
  refine ⟨hcall, sat, ?_, hroot, sat', ?_⟩
  · have h := methods call (.test .isEmpty ⟨[2], [true, false], rfl⟩)
      (show ∀ k ∈ [ofVar 1, ofVar 2], twoFree.Minted k by decide)
      (.test _ ⟨rfl, .cons trivial (.cons trivial .nil)⟩)
    rw [hcall] at h
    obtain ⟨-, h⟩ := h.resolve_left fun h => nomatch h.1
    obtain ⟨decoded, hd, hv⟩ := h a sat
    obtain ⟨u, hu, hrun⟩ := hv _ rfl
    cases hu
    exact ⟨decoded, hd, hrun⟩
  · have h := problems _ values (.functions 2 0) (by decide)
    rw [hroot] at h
    obtain ⟨solution, hs, -, hr⟩ := h.resolve_left (fun h => nomatch h.1) a sat'
    obtain ⟨b, hb, hcheck⟩ := hr _ rfl
    cases hb
    exact ⟨solution, hs, hcheck⟩

end

end FiniteStructures
