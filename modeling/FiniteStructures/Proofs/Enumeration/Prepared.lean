import FiniteStructures.Proofs.Enumeration.Solutions
import FiniteStructures.Proofs.Sat.Sizes

/-!
Prepared formulas.  Preparing an enumeration succeeds when pins and masks fit the unknowns and the
predicate compiles, unless there are 2³¹ variables in the end, and leaves a formula whose models are
the solutions (`exec_prepare`).
-/

namespace FiniteStructures

namespace Enumeration

open Compile Instance Problem

/-- The models of the formula are the solutions, by the truth values of the unknowns. -/
structure Prepared (p : Problem) (names : Named (List Nat)) (pins : Solution)
    (literals : Named (Tensor Literal)) (i : Instance) : Prop where
  built : ∃ free gates, i.Built free gates
  room : i.numVars < Literal.varLimit
  usable : ∀ u ∈ literals, ∀ l ∈ u.2.elems, Usable i l
  sound : ∀ ρ : Valuation, ρ.Models i.clauses.toList →
    p.Solves names pins (literals.mapCells (Literal.holds ρ))
  complete : ∀ s : Solution, p.Solves names pins s →
    ∃ ρ : Valuation, ρ.Models i.clauses.toList ∧ literals.mapCells (Literal.holds ρ) = s

/-- The first part of a preparation: the unknowns, and their pins. -/
def pinned (names : Named (List Nat)) (pins : Solution) : Compile (Named (Tensor Literal)) := do
  let literals ← mint names
  pins.forM fun (name, values) => pin literals name values
  return literals

/-- The predicate compiles for the pinned unknowns. -/
def Runs (p : Problem) (names : Named (List Nat)) (pins : Solution) : Prop :=
  ∀ literals i, exec (pinned names pins) Instance.initial = (.ok literals, i) →
    ∃ root j, exec (p.compile literals) i = (.ok root, j)

/-! ## Pinned unknowns -/

/-- The formula of the pinned unknowns. -/
def pinnedFormula (names : Named (List Nat)) (pins : Solution) : Instance :=
  (Instance.initial.mintAll (totalCells names)).recordAll (allPins (minted 1 names) pins)

variable {names : Named (List Nat)} {pins : Solution}

theorem numVars_pinnedFormula (names : Named (List Nat)) (pins : Solution) :
    (pinnedFormula names pins).numVars = 1 + totalCells names := by
  unfold pinnedFormula
  rw [numVars_recordAll, numVars_mintAll]
  rfl

theorem clauses_pinnedFormula (names : Named (List Nat)) (pins : Solution) :
    (pinnedFormula names pins).clauses.toList =
      [Literal.top] :: allPins (minted 1 names) pins := by
  unfold pinnedFormula
  rw [clauses_recordAll, clauses_mintAll]
  rfl

section

variable (small : 1 + totalCells names < Literal.varLimit)

include small

theorem usable_minted {u : String × Tensor Literal} (hu : u ∈ minted 1 names) {l : Literal}
    (hl : l ∈ u.2.elems) : Usable (Instance.initial.mintAll (totalCells names)) l := by
  obtain ⟨k, h1, hk, rfl⟩ := mem_minted hu hl
  have var : (Literal.ofVar k).var = k + 1 := Literal.var_ofVar (Nat.lt_trans hk small)
  refine ⟨?_, ?_, Literal.value_ne_least ?_⟩
  · rw [Instance.Minted, var, numVars_mintAll]
    exact hk
  · rw [var]
    omega
  · rw [var]
    exact Nat.lt_of_le_of_lt hk small

theorem minted_of_mem_allPins {c : Clause} (hc : c ∈ allPins (minted 1 names) pins) {l : Literal}
    (hl : l ∈ c) : (Instance.initial.mintAll (totalCells names)).Minted l := by
  obtain ⟨pin, -, hc⟩ := List.mem_flatMap.mp hc
  cases hlookup : (minted 1 names).lookup pin.1 with
  | none => rw [hlookup] at hc; cases hc
  | some t =>
    rw [hlookup] at hc
    obtain ⟨cell, hcell, rfl⟩ := List.mem_map.mp hc
    rw [List.mem_singleton.mp hl]
    have := (usable_minted small (mem_of_lookup hlookup) (List.of_mem_zip hcell).1).minted
    unfold Instance.Minted at this ⊢
    rwa [var_asValue]

theorem mintAll_built :
    ∃ free, (Instance.initial.mintAll (totalCells names)).Built free [] :=
  Instance.Built.initial.mintAll (Nat.lt_trans small (by decide))

theorem pinnedFormula_built (pins : Solution) :
    ∃ free, (pinnedFormula names pins).Built free [] := by
  obtain ⟨free, h⟩ := mintAll_built small
  exact ⟨free, h.recordAll fun c hc l hl => minted_of_mem_allPins small hc hl⟩

theorem usable_pinned {u : String × Tensor Literal} (hu : u ∈ minted 1 names) {l : Literal}
    (hl : l ∈ u.2.elems) : Usable (pinnedFormula names pins) l :=
  (usable_minted small hu hl).mono (Nat.le_of_eq (numVars_recordAll ..).symm)

theorem exec_minted_pins (fits : Fits names pins) :
    exec (pins.forM fun (name, values) => pin (minted 1 names) name values)
      (Instance.initial.mintAll (totalCells names)) = (.ok (), pinnedFormula names pins) := by
  obtain ⟨free, h⟩ := mintAll_built small
  exact exec_pins fits (shapes_minted 1 names) h.wellFormed.marked
    fun u hu l hl => usable_minted small hu hl

end

/-! ## Preparation -/

variable {p : Problem}

theorem exec_pinned (small : 1 + totalCells names < Literal.varLimit)
    (mint : exec (mint names) Instance.initial =
      (.ok (minted 1 names), Instance.initial.mintAll (totalCells names)))
    (fits : Fits names pins) :
    exec (pinned names pins) Instance.initial =
      (.ok (minted 1 names), pinnedFormula names pins) := by
  unfold pinned
  rw [exec_bind_ok mint, exec_bind_ok (exec_minted_pins small fits)]
  rfl

/-- The formula after the root of the predicate is required to hold. -/
def withRoot (j : Instance) (root : Literal) : Instance :=
  if root = Literal.top then j else j.record [root]

theorem models_withRoot {j : Instance} {root : Literal} {ρ : Valuation} (truth : ρ 1 = true) :
    ρ.Models (withRoot j root).clauses.toList ↔
      ρ.Models j.clauses.toList ∧ root.holds ρ = true := by
  unfold withRoot
  split
  · next h =>
    subst h
    exact ⟨fun hm => ⟨hm, Literal.holds_top truth⟩, And.left⟩
  · rw [clauses_record, Array.toList_push, Valuation.models_append]
    refine and_congr_right ?_
    intro _
    simp [Valuation.Models, Clause.holds]

theorem clauses_subset_withRoot {j : Instance} {root : Literal} :
    ∀ c ∈ j.clauses.toList, c ∈ (withRoot j root).clauses.toList := by
  intro c hc
  unfold withRoot
  split
  · exact hc
  · rw [clauses_record, Array.toList_push]
    exact List.mem_append_left _ hc

theorem numVars_withRoot (j : Instance) (root : Literal) :
    (withRoot j root).numVars = j.numVars := by
  unfold withRoot
  split <;> rfl

theorem built_withRoot {j : Instance} {root : Literal} (minted : j.Minted root)
    (h : ∃ free gates, j.Built free gates) : ∃ free gates, (withRoot j root).Built free gates := by
  obtain ⟨free, gates, built⟩ := h
  refine ⟨free, gates, ?_⟩
  unfold withRoot
  split
  · exact built
  · exact built.record (List.forall_mem_singleton.mpr minted)

/-- The formula of a compiled predicate states the pins, the gates and the root. -/
theorem models_compiled {root : Literal} {j : Instance} {own : List Clause}
    (compiled : p.Compiled (minted 1 names) (pinnedFormula names pins) root j own)
    {ρ : Valuation} :
    ρ.Models (withRoot j root).clauses.toList ↔
      ρ 1 = true ∧ ρ.Models (allPins (minted 1 names) pins) ∧ ρ.Models own ∧
        root.holds ρ = true := by
  have truth_first (c : List Clause) :
      ρ.Models ([Literal.top] :: c) ↔ ρ 1 = true ∧ ρ.Models c := by
    rw [← Valuation.holds_top_clause]
    exact List.forall_mem_cons
  have whole : ρ.Models j.clauses.toList ↔
      ρ 1 = true ∧ ρ.Models (allPins (minted 1 names) pins) ∧ ρ.Models own := by
    rw [compiled.clauses, clauses_pinnedFormula, List.cons_append, truth_first,
      Valuation.models_append]
  constructor
  · intro h
    have truth : ρ 1 = true := (whole.mp (h.mono clauses_subset_withRoot)).1
    obtain ⟨hj, hroot⟩ := (models_withRoot truth).mp h
    obtain ⟨-, hpins, hown⟩ := whole.mp hj
    exact ⟨truth, hpins, hown, hroot⟩
  · rintro ⟨truth, hpins, hown, hroot⟩
    exact (models_withRoot truth).mpr ⟨whole.mpr ⟨truth, hpins, hown⟩, hroot⟩

/-- When the predicate was compiled, the models of the formula are the solutions. -/
theorem prepared {root : Literal} {j : Instance} {own : List Clause}
    (fits : Fits names pins)
    (compiled : p.Compiled (minted 1 names) (pinnedFormula names pins) root j own)
    (room : j.numVars < Literal.varLimit) :
    Prepared p names pins (minted 1 names) (withRoot j root) := by
  have small : 1 + totalCells names < Literal.varLimit := by
    rw [← numVars_pinnedFormula names pins]
    exact Nat.lt_of_le_of_lt compiled.numVars room
  have pins_iff {ρ : Valuation} := models_allPins (ρ := ρ) fits (shapes_minted 1 names)
    fun u hu l hl => (usable_minted small hu hl).opposed
  have same : (withRoot j root).numVars = j.numVars := numVars_withRoot j root
  refine ⟨built_withRoot compiled.minted compiled.built, same ▸ room, ?_, ?_, ?_⟩
  · intro u hu l hl
    exact (usable_pinned small hu hl).mono (same ▸ compiled.numVars)
  · intro ρ hρ
    obtain ⟨truth, hpins, hown, hroot⟩ := (models_compiled compiled).mp hρ
    refine ⟨shapes_mapCells_minted 1 names _, ?_, pins_iff.mp hpins⟩
    rw [compiled.value ρ truth hown, hroot]
  · intro s hs
    have truth : solutionBits 1 s 1 = true := if_pos (Nat.le_refl 1)
    obtain ⟨τ, same, hown⟩ := compiled.conservative _ truth
    rw [numVars_pinnedFormula] at same
    have htop : τ 1 = true := by rw [same 1 (Nat.le_refl 1) (Nat.le_add_right 1 _), truth]
    have decoded : (minted 1 names).mapCells (Literal.holds τ) = s := by
      rw [mapCells_minted_congr small fun v hv hle => same v (Nat.le_of_lt hv) hle,
        mapCells_solutionBits hs.shapes small]
    refine ⟨τ, (models_compiled compiled).mpr ⟨htop, ?_, hown, ?_⟩, decoded⟩
    · rw [pins_iff, decoded]
      exact hs.pinned
    · have := compiled.value τ htop hown
      rw [decoded, hs.check] at this
      exact (Except.ok.inj this).symm

/-- Masks of the right shapes are taken. -/
theorem exec_markRelevant (masks : p.MasksFit names) (i : Instance) :
    exec ((minted 1 names).mapM fun u =>
      (markRelevant p u.1 u.2 : Outcome Unknown) : Compile (List Unknown)) i =
      (.ok ((minted 1 names).map (unknownOf p)), i) := by
  refine exec_mapM_ok ?_
  intro u hu
  have fit (mask : Tensor Bool) (hm : p.mask u.1 = some mask) : mask.shape = u.2.shape := by
    have hmem : (u.1, u.2.shape) ∈ names := by
      rw [← shapes_minted 1 names]
      exact List.mem_map_of_mem hu
    exact masks _ hmem mask hm
  have mark : markRelevant p u.1 u.2 = .ok (unknownOf p u) := by
    unfold markRelevant unknownOf
    cases hm : p.mask u.1 with
    | none => rfl
    | some mask => simp only [fit mask hm, ne_eq, not_true_eq_false, if_false]; rfl
  show exec (liftM (markRelevant p u.1 u.2)) _ = _
  rw [mark]
  rfl

/-! ## Room for the variables -/

section

variable {Q : {α : Type} → Compile α → Prop} (sequential : Sequential Q)
  (lift : ∀ {α : Type} (o : Outcome α), Q (liftM o : Compile α)) (ensures : ∀ l, Q (ensure l))

include sequential lift ensures

/-- Pins read literals and require them, or their opposites. -/
theorem closed_pins (literals : Named (Tensor Literal)) (pins : Solution) :
    Q (pins.forM fun u => pin literals u.1 u.2) := by
  refine sequential.forM (fun u => ?_) pins
  refine sequential.bind (lift _) fun t => ?_
  have cells : Q ((t.elems.zip u.2.elems).forM fun cell => do
      ensure (← if cell.2 then pure cell.1 else (cell.1.neg : Outcome Literal))) :=
    sequential.forM (fun (cell : Literal × Bool) => Sequential.ite (Q := Q)
      (sequential.bind (sequential.pure cell.1) ensures)
      (sequential.bind (lift cell.1.neg) ensures)) _
  exact Sequential.ite (Q := Q) (sequential.bind (lift _) fun _ => cells) cells

/-- The last part of a preparation: the root must hold, and masks must fit. -/
theorem closed_finish (p : Problem) (literals : Named (Tensor Literal)) (root : Literal) :
    Q (do
      ensure root
      literals.mapM fun (name, t) => (markRelevant p name t : Outcome Unknown)) :=
  sequential.bind (ensures root) fun _ => sequential.mapM (fun _ => lift _) literals

end

theorem adds_finish (p : Problem) (literals : Named (Tensor Literal)) (root : Literal) :
    Adds (do
      ensure root
      literals.mapM fun (name, t) => (markRelevant p name t : Outcome Unknown)) :=
  closed_finish sequential_adds adds_lift closed_adds.ensure p literals root

/-- When there is room for all variables in the end, there is room for the unknowns. -/
theorem exec_mint_of_room (unknowns : p.unknowns = .ok names)
    (storable : ∀ u ∈ names, Shape.storable u.2 = .ok ())
    (adds : ∀ literals, Adds (p.compile literals))
    (room : (exec (prepare p pins) Instance.initial).2.numVars < Literal.varLimit) :
    exec (mint names) Instance.initial =
        (.ok (minted 1 names), Instance.initial.mintAll (totalCells names)) ∧
      1 + totalCells names < Literal.varLimit := by
  unfold prepare at room
  rw [exec_bind_lift unknowns] at room
  rcases exec_mint storable Instance.initial with stop | run
  · exact absurd room (Nat.not_lt.mpr stop.bind.2)
  · rw [exec_bind_ok run] at room
    refine ⟨run, Nat.lt_of_le_of_lt ?_ room⟩
    have rest := adds_bind
      (closed_pins sequential_adds adds_lift closed_adds.ensure (minted 1 names) pins) fun _ =>
        adds_bind (adds (minted 1 names)) (adds_finish p (minted 1 names))
    refine Nat.le_trans (Nat.le_of_eq ?_) (rest _).numVars_le
    rw [numVars_mintAll]
    rfl

/-- Preparing succeeds, and the models of the formula are the solutions. -/
theorem exec_prepare (unknowns : p.unknowns = .ok names)
    (storable : ∀ u ∈ names, Shape.storable u.2 = .ok ()) (fits : Fits names pins)
    (masks : p.MasksFit names) (parametric : p.Parametric) (runs : Runs p names pins)
    (room : (exec (prepare p pins) Instance.initial).2.numVars < Literal.varLimit) :
    ∃ i, exec (prepare p pins) Instance.initial =
        (.ok ((minted 1 names).map (unknownOf p)), i) ∧
      Prepared p names pins (minted 1 names) i := by
  obtain ⟨mint, small⟩ := exec_mint_of_room unknowns storable parametric.adds room
  obtain ⟨root, j, run⟩ := runs _ _ (exec_pinned small mint fits)
  obtain ⟨free, built⟩ := pinnedFormula_built small pins
  unfold prepare at room ⊢
  rw [exec_bind_lift unknowns, exec_bind_ok mint, exec_bind_ok (exec_minted_pins small fits),
    exec_bind_ok run] at room ⊢
  have room : j.numVars < Literal.varLimit :=
    Nat.lt_of_le_of_lt (adds_finish p (minted 1 names) root j).numVars_le room
  obtain ⟨own, compiled⟩ := parametric.compiled free _ _ root j built
    (fun u hu l hl => (usable_pinned small hu hl).minted) run room
  have ensured : exec (ensure root) j = (.ok (), withRoot j root) := by
    obtain ⟨free, gates, built⟩ := compiled.built
    exact exec_ensure (built.lt_occurs compiled.minted)
  refine ⟨withRoot j root, ?_, prepared fits compiled room⟩
  rw [exec_bind_ok ensured]
  exact exec_markRelevant masks _

/-! ## Sizes that leave room -/

/-- One variable for each cell. -/
theorem mints_mint (names : Named (List Nat)) : Mints (totalCells names) (mint names) := by
  unfold mint
  induction names with
  | nil => exact .pure _
  | cons u names ih =>
    rw [List.mapM_cons]
    refine .bind (n := Shape.volume u.2) ?_ (fun _ => ih.bind (fun _ => .pure _) (Nat.le_refl _))
      (Nat.le_refl _)
    exact (Costs.freshTensor u.2).mints.bind (fun _ => .pure _) (Nat.le_refl _)

theorem exec_mint_of_small (storable : ∀ u ∈ names, Shape.storable u.2 = .ok ())
    (small : 1 + totalCells names < Literal.varLimit) :
    exec (mint names) Instance.initial =
      (.ok (minted 1 names), Instance.initial.mintAll (totalCells names)) := by
  refine (exec_mint storable Instance.initial).resolve_left fun stop => ?_
  have cells := mints_mint names Instance.initial
  have limit := stop.2
  have one : Instance.initial.numVars = 1 := rfl
  omega

/-- There is room for all variables if there is for the cells and for what the predicate mints. -/
theorem room_of_mints (unknowns : p.unknowns = .ok names)
    (storable : ∀ u ∈ names, Shape.storable u.2 = .ok ()) {n : Nat}
    (compile : Mints n (p.compile (minted 1 names)))
    (small : 1 + totalCells names + n < Literal.varLimit) :
    (exec (prepare p pins) Instance.initial).2.numVars < Literal.varLimit := by
  have sequential : Sequential (Mints 0) := ⟨Mints.pure, fun hx hf => hx.bind hf (Nat.le_refl 0)⟩
  have ensures (l : Literal) : Mints 0 (ensure l) := (Costs.ensure l).mints
  have rest := (closed_pins sequential .lift ensures (minted 1 names) pins).bind
    (fun _ => compile.bind (closed_finish sequential .lift ensures p (minted 1 names))
      (Nat.le_refl n)) (Nat.le_of_eq (Nat.zero_add n))
  unfold prepare
  rw [exec_bind_lift unknowns, exec_bind_ok (exec_mint_of_small storable (by omega))]
  refine Nat.lt_of_le_of_lt (rest _) ?_
  rw [numVars_mintAll]
  exact small

/-- The predicate compiles if its check never fails and there is room for what it mints. -/
theorem runs_of_mints (uniform : p.Uniform)
    (storable : ∀ u ∈ names, Shape.storable u.2 = .ok ()) (fits : Fits names pins) {n : Nat}
    (compile : Mints n (p.compile (minted 1 names)))
    (small : 1 + totalCells names + n < Literal.varLimit)
    (total : ∀ s : Solution, s.map (fun u => (u.1, u.2.shape)) = names → ∃ b, p.check s = .ok b) :
    Runs p names pins := by
  intro literals i run
  have room : 1 + totalCells names < Literal.varLimit := by omega
  rw [exec_pinned room (exec_mint_of_small storable room) fits] at run
  cases run
  obtain ⟨free, built⟩ := pinnedFormula_built room pins
  refine uniform.compiles built (fun u hu l hl => (usable_pinned room hu hl).minted)
    (fun ρ => total _ (shapes_mapCells_minted 1 names _)) ?_
  have most := compile (pinnedFormula names pins)
  rw [numVars_pinnedFormula] at most
  omega

end Enumeration

end FiniteStructures
