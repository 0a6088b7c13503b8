import FiniteStructures.Proofs.Enumeration.Preparation
import FiniteStructures.Proofs.Sat.Sharing

/-!
What an enumeration is asked for.  Solutions are told apart by their restrictions to the relevant
cells; the clause that excludes a solution holds exactly where the restriction is another one
(`holds_excluding`).
-/

namespace FiniteStructures

namespace Problem

/-- The members of a list at the places that are relevant under a mask. -/
def relevantOf {α : Type} (mask : Option (Tensor Bool)) (cells : List α) : List α :=
  match mask with
  | none => cells
  | some mask => (cells.zip mask.elems).filterMap fun (c, relevant) =>
    if relevant then some c else none

/-- The values of the relevant cells of a solution. -/
def restrict (p : Problem) (s : Solution) : Named (List Bool) :=
  s.map fun (name, t) => (name, relevantOf (p.mask name) t.elems)

/-- A solution of the shapes of the unknowns that passes the check and agrees with the pins. -/
structure Solves (p : Problem) (names : Named (List Nat)) (pins s : Solution) : Prop where
  shapes : s.map (fun u => (u.1, u.2.shape)) = names
  check : p.check s = .ok true
  pinned : ∀ pin ∈ pins, s.lookup pin.1 = some pin.2

/-- The masks have the shapes of the unknowns. -/
def MasksFit (p : Problem) (names : Named (List Nat)) : Prop :=
  ∀ u ∈ names, ∀ mask, p.mask u.1 = some mask → mask.shape = u.2

/-- What a predicate leaves when it was compiled: a reachable formula with clauses of its own, under
which the root has the value of the check and which do not restrict the variables before. -/
structure Compiled (p : Problem) (values : Named (Tensor Literal)) (i : Instance) (root : Literal)
    (j : Instance) (own : List Clause) : Prop where
  built : ∃ free gates, j.Built free gates
  numVars : i.numVars ≤ j.numVars
  clauses : j.clauses.toList = i.clauses.toList ++ own
  minted : j.Minted root
  value : ∀ ρ : Valuation, ρ 1 = true → ρ.Models own →
    p.check (values.mapCells (Literal.holds ρ)) = .ok (root.holds ρ)
  conservative : ∀ ρ : Valuation, ρ 1 = true →
    ∃ τ : Valuation, (∀ v, 1 ≤ v → v ≤ i.numVars → τ v = ρ v) ∧ τ.Models own

/-- The predicate only adds to a formula.  Whenever it was compiled for unknowns of a formula without
gates, and all variables still have literals of 32 bits, its root stands for the check. -/
structure Parametric (p : Problem) : Prop where
  adds : ∀ values : Named (Tensor Literal), Compile.Adds (p.compile values)
  compiled : ∀ (free : List Nat) (i : Instance) (values : Named (Tensor Literal)) (root : Literal)
    (j : Instance), i.Built free [] → (∀ u ∈ values, ∀ l ∈ u.2.elems, i.Minted l) →
    Compile.exec (p.compile values) i = (.ok root, j) → j.numVars < Literal.varLimit →
    ∃ own, p.Compiled values i root j own

/-- Compiling keeps to the check in all models of the formula, unless variables run out. -/
theorem Uniform.keeps_check {p : Problem} (h : p.Uniform) {free : List Nat} {i : Instance}
    (built : i.Built free []) {values : Named (Tensor Literal)}
    (minted : ∀ u ∈ values, ∀ l ∈ u.2.elems, i.Minted l) :
    Compile.Exhausted (Compile.exec (p.compile values) i) ∨
      ∃ new, Compile.Parametric free [] i Stage.Gives
        (fun ρ => p.check (values.mapCells (Literal.holds ρ)))
        (Compile.exec (p.compile values) i) new := by
  obtain ⟨keeps⟩ := h
  exact Compile.parametric built fun {ρ} truth =>
    keeps (Simulation.compiled truth) (w := Compile.stage built)
      (Named.rel_mapCells (f := Literal.holds ρ) (fun _ hl => ⟨hl, fun _ => rfl⟩) minted)

/-- Where the check never fails, the predicate compiles while there is room for variables. -/
theorem Uniform.compiles {p : Problem} (h : p.Uniform) {free : List Nat} {i : Instance}
    (built : i.Built free []) {values : Named (Tensor Literal)}
    (minted : ∀ u ∈ values, ∀ l ∈ u.2.elems, i.Minted l)
    (total : ∀ ρ : Valuation, ∃ b, p.check (values.mapCells (Literal.holds ρ)) = .ok b)
    (room : (Compile.exec (p.compile values) i).2.numVars < Literal.varLimit) :
    ∃ root j, Compile.exec (p.compile values) i = (.ok root, j) := by
  obtain ⟨new, h⟩ := (h.keeps_check built minted).resolve_left
    fun stop => absurd room (Nat.not_lt.mpr stop.2)
  obtain ⟨τ, -, truth, hτ⟩ := h.built.extends room fun _ => true
  obtain ⟨b, hb⟩ := total τ
  have agree := h.agree truth hτ
  rcases run : Compile.exec (p.compile values) i with ⟨e | root, j⟩
  · have failed := (agree.error_iff e).mp (congrArg Prod.fst run)
    cases hb.symm.trans failed
  · exact ⟨root, j, rfl⟩

/-- Predicates that are stated once for all domains are parametric. -/
theorem Uniform.parametric {p : Problem} (h : p.Uniform) : p.Parametric where
  adds values i := by
    obtain ⟨keeps⟩ := h
    exact (keeps Simulation.sharing (w := ()) (Named.rel_mapCells (P := fun _ => True)
      (f := fun _ => ()) (fun _ _ => trivial) fun _ _ _ _ => trivial) i).1
  compiled free i values root j built minted run room := by
    have ran := h.keeps_check built minted
    rw [run] at ran
    obtain ⟨new, h⟩ := ran.resolve_left fun h => nomatch h.1
    refine ⟨new, ⟨_, _, h.built⟩, h.numVars, h.clauses, ?_, ?_, ?_⟩
    · obtain ⟨τ, -, truth, hτ⟩ := h.built.extends room fun _ => true
      obtain ⟨b, -, hl⟩ := (h.agree truth hτ).of_ok rfl
      exact hl.1
    · intro ρ truth hρ
      obtain ⟨b, hb, hl⟩ := (h.agree truth hρ).of_ok rfl
      exact hb.trans (congrArg Except.ok (hl.2 hρ).symm)
    · intro ρ truth
      obtain ⟨τ, agree, htop, hτ⟩ := h.built.extends room ρ
      exact ⟨τ, built.determined (Nat.lt_of_le_of_lt h.numVars room) (Valuation.models_nil _)
        (Valuation.models_nil _) (htop.trans truth.symm) agree, hτ⟩

/-- Masks have no part in what is compiled and checked. -/
theorem Parametric.withMask {p : Problem} (h : p.Parametric)
    (mask : String → Option (Tensor Bool)) : { p with mask }.Parametric where
  adds := h.adds
  compiled free i values root j built minted run room := by
    obtain ⟨own, compiled⟩ := h.compiled free i values root j built minted run room
    exact ⟨own, { compiled with }⟩

/-! ## Relevant cells -/

theorem relevantOf_map {α β : Type} (f : α → β) (mask : Option (Tensor Bool)) (cells : List α) :
    relevantOf mask (cells.map f) = (relevantOf mask cells).map f := by
  unfold relevantOf
  cases mask with
  | none => rfl
  | some mask =>
    dsimp only
    generalize mask.elems = flags
    induction cells generalizing flags with
    | nil => rfl
    | cons c cells ih =>
      obtain _ | ⟨flag, flags⟩ := flags
      · rfl
      · cases flag <;> simp [ih]

theorem mem_of_mem_relevantOf {α : Type} {mask : Option (Tensor Bool)} {cells : List α} {c : α}
    (h : c ∈ relevantOf mask cells) : c ∈ cells := by
  unfold relevantOf at h
  cases mask with
  | none => exact h
  | some mask =>
    obtain ⟨⟨d, flag⟩, hd, hc⟩ := List.mem_filterMap.mp h
    dsimp only at hc
    split at hc
    · obtain rfl := Option.some.inj hc
      exact (List.of_mem_zip hd).1
    · cases hc

/-- The literals of all relevant cells. -/
def relevantLiterals (p : Problem) (literals : Named (Tensor Literal)) : List Literal :=
  literals.flatMap fun u => relevantOf (p.mask u.1) u.2.elems

theorem restrict_mapCells (p : Problem) (literals : Named (Tensor Literal)) (ρ : Valuation) :
    p.restrict (literals.mapCells (Literal.holds ρ)) =
      literals.map fun u => (u.1, (relevantOf (p.mask u.1) u.2.elems).map (Literal.holds ρ)) := by
  unfold restrict Named.mapCells
  rw [List.map_map]
  refine List.map_congr_left ?_
  intro u _
  exact congrArg (Prod.mk u.1) (relevantOf_map ..)

/-- Restrictions are equal when the relevant literals have the same values. -/
theorem restrict_eq_iff (p : Problem) (literals : Named (Tensor Literal)) (ρ τ : Valuation) :
    p.restrict (literals.mapCells (Literal.holds ρ)) =
        p.restrict (literals.mapCells (Literal.holds τ)) ↔
      ∀ l ∈ p.relevantLiterals literals, l.holds ρ = l.holds τ := by
  rw [restrict_mapCells, restrict_mapCells, List.map_inj_left]
  unfold relevantLiterals
  simp only [Prod.mk.injEq, true_and, List.map_inj_left, List.mem_flatMap, forall_exists_index,
    and_imp]
  exact ⟨fun h l u hu hl => h u hu l hl, fun h u hu l hl => h l u hu hl⟩

end Problem

/-! ## Exclusion -/

namespace Enumeration

open Compile Instance Problem

variable {p : Problem} {literals : Named (Tensor Literal)} {i : Instance}

/-- The unknown of a tensor of literals, its mask that of the problem. -/
def unknownOf (p : Problem) (u : String × Tensor Literal) : Unknown :=
  ⟨u.1, u.2, (p.mask u.1).getD (u.2.map fun _ => true)⟩

/-- The clause that holds where some relevant literal has another value. -/
def excluding (p : Problem) (literals : Named (Tensor Literal)) (ρ : Valuation) : Clause :=
  (p.relevantLiterals literals).map fun l => asValue l (!l.holds ρ)

theorem usable_of_mem_relevantLiterals (usable : ∀ u ∈ literals, ∀ l ∈ u.2.elems, Usable i l)
    {l : Literal} (hl : l ∈ p.relevantLiterals literals) : Usable i l := by
  obtain ⟨u, hu, hl⟩ := List.mem_flatMap.mp hl
  exact usable u hu l (mem_of_mem_relevantOf hl)

theorem holds_excluding (usable : ∀ u ∈ literals, ∀ l ∈ u.2.elems, Usable i l) {ρ τ : Valuation} :
    Clause.holds τ (excluding p literals ρ) = true ↔
      p.restrict (literals.mapCells (Literal.holds τ)) ≠
        p.restrict (literals.mapCells (Literal.holds ρ)) := by
  rw [Ne, restrict_eq_iff]
  unfold Clause.holds excluding
  simp only [List.any_map, List.any_eq_true, Function.comp_apply, Classical.not_forall, exists_prop]
  refine exists_congr fun l => and_congr_right ?_
  intro hl
  rw [holds_asValue (usable_of_mem_relevantLiterals usable hl).opposed]
  cases l.holds τ <;> cases l.holds ρ <;> decide

theorem relevantCells_unknownOf {u : String × Tensor Literal}
    (ρ : Valuation) :
    (unknownOf p u).relevantCells (u.2.map (Literal.holds ρ)) =
      (relevantOf (p.mask u.1) u.2.elems).map fun l => (l, l.holds ρ) := by
  have zipped (flags : List Bool) :
      ((u.2.elems.zip (u.2.elems.map (Literal.holds ρ))).zip flags).filterMap
        (fun x => if x.2 then some x.1 else none) =
      ((u.2.elems.zip flags).filterMap fun x => if x.2 then some x.1 else none).map
        fun l => (l, l.holds ρ) := by
    generalize u.2.elems = cells
    induction cells generalizing flags with
    | nil => rfl
    | cons c cells ih =>
      obtain _ | ⟨flag, flags⟩ := flags
      · rfl
      · cases flag <;> simp [ih]
  unfold Unknown.relevantCells unknownOf relevantOf
  refine (zipped _).trans ?_
  cases hm : p.mask u.1 with
  | some mask => rfl
  | none =>
    dsimp only [Option.getD_none, Tensor.map]
    congr 1
    generalize u.2.elems = cells
    induction cells with
    | nil => rfl
    | cons c cells ih => simpa using ih

theorem exec_differs {l : Literal} (usable : Usable i l) (value : Bool) :
    exec (differs l value) i = (.ok (asValue l !value), i) := by
  have hne {k : Literal} (hk : k.var = 1) : l ≠ k := fun h => usable.var_ne (h ▸ hk)
  cases value
  · show exec (Compile.xor l Literal.bottom) i = _
    unfold Compile.xor
    rw [if_neg (hne Literal.var_bottom), if_pos rfl]
    rfl
  · show exec (Compile.xor l Literal.top) i = _
    unfold Compile.xor
    rw [if_neg (hne Literal.var_bottom), if_neg (by decide), if_neg (hne Literal.var_top),
      if_pos rfl, Literal.neg_of_ne_least usable.opposed]
    rfl

theorem exec_mapM_ok {α β : Type} {f : α → Compile β} {g : α → β} {l : List α}
    (h : ∀ a ∈ l, exec (f a) i = (.ok (g a), i)) :
    exec (l.mapM f) i = (.ok (l.map g), i) := by
  induction l with
  | nil => rfl
  | cons a l ih =>
    rw [List.mapM_cons, exec_bind_ok (h a List.mem_cons_self),
      exec_bind_ok (ih fun b hb => h b (List.mem_cons_of_mem _ hb))]
    rfl

/-- A solution is excluded by the clause of its relevant cells; no gate is needed. -/
theorem exec_exclude (usable : ∀ u ∈ literals, ∀ l ∈ u.2.elems, Usable i l) (ρ : Valuation) :
    exec (exclude (literals.map (unknownOf p)) (literals.mapCells (Literal.holds ρ))) i =
      (.ok (excluding p literals ρ), i) := by
  have cells : ((literals.map (unknownOf p)).zip
      (literals.mapCells (Literal.holds ρ))).flatMap (fun x => x.1.relevantCells x.2.2) =
      (p.relevantLiterals literals).map fun l => (l, l.holds ρ) := by
    unfold Named.mapCells relevantLiterals
    rw [List.zip_map', List.flatMap_map, List.map_flatMap]
    exact List.flatMap_congr fun u _ => relevantCells_unknownOf ρ
  have differ : exec (((p.relevantLiterals literals).map fun l => (l, l.holds ρ)).mapM
      fun cell => differs cell.1 cell.2) i = (.ok (excluding p literals ρ), i) := by
    rw [exec_mapM_ok (g := fun cell => asValue cell.1 !cell.2)]
    · rw [List.map_map]
      rfl
    · intro cell hc
      obtain ⟨l, hl, rfl⟩ := List.mem_map.mp hc
      exact exec_differs (usable_of_mem_relevantLiterals usable hl) _
  have kept : (excluding p literals ρ).filter (· ≠ Literal.bottom) = excluding p literals ρ := by
    refine List.filter_eq_self.mpr fun k hk => decide_eq_true ?_
    intro hb
    obtain ⟨l, hl, rfl⟩ := List.mem_map.mp hk
    exact (usable_of_mem_relevantLiterals usable hl).var_ne (by rw [← var_asValue l, hb]; rfl)
  rw [← cells] at differ
  unfold exclude
  refine (exec_bind_ok differ).trans ?_
  rw [kept]
  rfl

end Enumeration

end FiniteStructures
