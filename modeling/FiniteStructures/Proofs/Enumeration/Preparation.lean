import FiniteStructures.Enumeration.Solver
import FiniteStructures.Proofs.Parametricity.Methods

/-!
Preparation of an enumeration.  Minting numbers the cells of all unknowns one after another, and a
pin adds a clause with one literal for each cell.

    minted n names       the unknowns as literals, from variable n + 1 on
    pinClauses t u       the clauses by which a tensor of literals is pinned to truth values

Truth values of the variables and solutions of the given shapes then correspond to each other
(`mapCells_minted`), as long as there are fewer than 2³¹ variables.  Minting more can end the run
(`Compile.Exhausted`).
-/

namespace FiniteStructures

/-! ## Minting -/

namespace Instance

/-- The formula with several variables more. -/
def mintAll (i : Instance) : Nat → Instance
  | 0 => i
  | n + 1 => i.mint.mintAll n

@[simp] theorem numVars_mintAll (i : Instance) (n : Nat) :
    (i.mintAll n).numVars = i.numVars + n := by
  induction n generalizing i with
  | zero => rfl
  | succ n ih =>
    show (i.mint.mintAll n).numVars = _
    rw [ih, numVars_mint]
    omega

@[simp] theorem clauses_mintAll (i : Instance) (n : Nat) : (i.mintAll n).clauses = i.clauses := by
  induction n generalizing i with
  | zero => rfl
  | succ n ih => exact (ih i.mint).trans i.clauses_mint

theorem mintAll_add (i : Instance) (n k : Nat) : i.mintAll (n + k) = (i.mintAll n).mintAll k := by
  induction n generalizing i with
  | zero => rw [Nat.zero_add]; rfl
  | succ n ih =>
    rw [Nat.succ_add]
    exact ih i.mint

theorem Built.mintAll {free : List Nat} {gates : List Clause} {i : Instance}
    (h : i.Built free gates) {n : Nat} (room : i.numVars + n < Cnf.countLimit) :
    ∃ free, (i.mintAll n).Built free gates := by
  induction n generalizing free i with
  | zero => exact ⟨free, h⟩
  | succ n ih =>
    refine ih (h.fresh (Compile.exec_fresh (by omega))) ?_
    rw [numVars_mint]
    omega

end Instance

namespace Enumeration

open Compile Instance

theorem exec_traverse_fresh {α : Type} (l : List α) (done : List Literal) (n : Nat)
    (hn : done.length + l.length = n) (i : Instance) :
    Exhausted (exec (traverse.go (fun _ => fresh) l done n hn) i) ∨
      exec (traverse.go (fun _ => fresh) l done n hn) i =
        (.ok ⟨done.reverse ++ (List.range' i.numVars l.length).map Literal.ofVar,
          by simpa using hn⟩, i.mintAll l.length) := by
  induction l generalizing done i with
  | nil =>
    refine .inr ?_
    simp only [traverse.go, List.length_nil, List.range'_zero, List.map_nil, List.append_nil]
    rfl
  | cons a l ih =>
    unfold traverse.go
    rcases exec_fresh_cases i with ⟨-, run⟩ | ⟨full, run⟩
    · rw [exec_bind_ok run]
      refine (ih _ _ _).imp id fun rest => ?_
      rw [rest]
      simp only [List.length_cons, List.range'_succ, List.map_cons, List.reverse_cons,
        List.append_assoc, List.cons_append, List.nil_append, numVars_mint]
      rfl
    · rw [exec_bind_error run]
      exact .inl ⟨rfl, Nat.le_of_succ_le_succ (Nat.le_trans (by decide) full)⟩

/-- The cells of one unknown. -/
def mintedTensor (n : Nat) (shape : List Nat) : Tensor Literal :=
  ⟨shape, (List.range' n (Shape.volume shape)).map Literal.ofVar, by simp⟩

theorem exec_freshTensor {shape : List Nat} (storable : Shape.storable shape = .ok ())
    (i : Instance) :
    Exhausted (exec (freshTensor shape) i) ∨
      exec (freshTensor shape) i =
        (.ok (mintedTensor i.numVars shape), i.mintAll (Shape.volume shape)) := by
  have run := exec_traverse_fresh (Shape.indices shape) [] _ (Nat.zero_add _) i
  unfold freshTensor Tensor.generate
  rw [exec_bind_lift storable]
  unfold traverse
  rcases run with stop | run
  · exact .inl stop.bind
  · rw [exec_bind_ok run]
    simp only [mintedTensor, Shape.length_indices]
    exact .inr rfl

/-- The unknowns, with the variables from `n + 1` on. -/
def minted : Nat → Named (List Nat) → Named (Tensor Literal)
  | _, [] => []
  | n, (name, shape) :: rest =>
    (name, mintedTensor n shape) :: minted (n + Shape.volume shape) rest

/-- Number of cells of all unknowns. -/
def totalCells (names : Named (List Nat)) : Nat :=
  names.foldr (fun u cells => Shape.volume u.2 + cells) 0

theorem exec_mint {names : Named (List Nat)}
    (storable : ∀ u ∈ names, Shape.storable u.2 = .ok ()) (i : Instance) :
    Exhausted (exec (mint names) i) ∨
      exec (mint names) i = (.ok (minted i.numVars names), i.mintAll (totalCells names)) := by
  unfold mint
  induction names generalizing i with
  | nil => exact .inr rfl
  | cons u names ih =>
    obtain ⟨name, shape⟩ := u
    rw [List.mapM_cons]
    rcases exec_freshTensor (storable _ List.mem_cons_self) i with stop | run
    · exact .inl stop.bind.bind
    · have first : exec (do return (name, ← freshTensor shape) : Compile (String × Tensor Literal))
          i = (.ok (name, mintedTensor i.numVars shape), i.mintAll (Shape.volume shape)) := by
        rw [exec_bind_ok run]
        rfl
      rw [exec_bind_ok first]
      rcases ih (fun u hu => storable u (List.mem_cons_of_mem _ hu)) (i.mintAll (Shape.volume shape))
        with stop | rest
      · exact .inl stop.bind
      · rw [exec_bind_ok rest, ← mintAll_add, numVars_mintAll]
        exact .inr rfl

theorem shapes_minted (n : Nat) (names : Named (List Nat)) :
    (minted n names).map (fun u => (u.1, u.2.shape)) = names := by
  induction names generalizing n with
  | nil => rfl
  | cons u names ih =>
    rw [minted, List.map_cons, ih]
    rfl

/-- Truth values of the unknowns have the unknowns' shapes. -/
theorem shapes_mapCells_minted (n : Nat) (names : Named (List Nat)) (f : Literal → Bool) :
    ((minted n names).mapCells f).map (fun u => (u.1, u.2.shape)) = names := by
  unfold Named.mapCells
  rw [List.map_map]
  exact shapes_minted n names

/-- The variables are those after `n`, as many as there are cells. -/
theorem mem_minted {n : Nat} {names : Named (List Nat)} {u : String × Tensor Literal}
    (hu : u ∈ minted n names) {l : Literal} (hl : l ∈ u.2.elems) :
    ∃ k, n ≤ k ∧ k < n + totalCells names ∧ l = Literal.ofVar k := by
  induction names generalizing n with
  | nil => cases hu
  | cons v names ih =>
    have total : totalCells (v :: names) = Shape.volume v.2 + totalCells names := rfl
    rcases List.mem_cons.mp hu with rfl | hu
    · obtain ⟨k, hk, rfl⟩ := List.mem_map.mp hl
      rw [List.mem_range'_1] at hk
      exact ⟨k, hk.1, by omega, rfl⟩
    · obtain ⟨k, hle, hlt, rfl⟩ := ih hu
      exact ⟨k, by omega, by omega, rfl⟩

/-- The decoded unknowns depend on their own variables only. -/
theorem mapCells_minted_congr {n : Nat} {names : Named (List Nat)} {ρ τ : Valuation}
    (small : n + totalCells names < Literal.varLimit)
    (h : ∀ v, n < v → v ≤ n + totalCells names → τ v = ρ v) :
    (minted n names).mapCells (Literal.holds τ) = (minted n names).mapCells (Literal.holds ρ) := by
  refine List.map_congr_left fun u hu => congrArg (Prod.mk u.1) (Tensor.ext rfl ?_)
  refine List.map_congr_left ?_
  intro l hl
  obtain ⟨k, hle, hlt, rfl⟩ := mem_minted hu hl
  have room : k + 1 < Literal.varLimit := Nat.lt_of_le_of_lt hlt small
  rw [Literal.holds_ofVar room, Literal.holds_ofVar room]
  exact h _ (Nat.lt_succ_of_le hle) hlt

/-- The truth values that give the cells the values of a solution. -/
def solutionBits (n : Nat) (s : Solution) : Valuation :=
  fun v => if v ≤ n then true else (s.flatMap fun u => u.2.elems).getD (v - n - 1) false

theorem map_holds_range' {ρ : Valuation} {bits : List Bool} {n : Nat}
    (small : n + bits.length < Literal.varLimit)
    (h : ∀ k (hk : k < bits.length), ρ (n + k + 1) = bits[k]) :
    ((List.range' n bits.length).map Literal.ofVar).map (Literal.holds ρ) = bits := by
  apply List.ext_getElem
  · simp
  · intro k h₁ h₂
    have room : n + k + 1 < Literal.varLimit := by omega
    simp [Literal.holds_ofVar room, h k h₂]

/-- Every solution of the given shapes is that of some truth values. -/
theorem mapCells_minted {names : Named (List Nat)} {s : Solution}
    (shapes : s.map (fun u => (u.1, u.2.shape)) = names) {n : Nat}
    (small : n + totalCells names < Literal.varLimit) {ρ : Valuation}
    (h : ∀ k (hk : k < (s.flatMap fun u => u.2.elems).length),
      ρ (n + k + 1) = (s.flatMap fun u => u.2.elems)[k]) :
    (minted n names).mapCells (Literal.holds ρ) = s := by
  subst shapes
  induction s generalizing n with
  | nil => rfl
  | cons u s ih =>
    obtain ⟨name, t⟩ := u
    simp only [List.flatMap_cons] at h
    have total : totalCells ((name, t.shape) :: s.map fun u => (u.1, u.2.shape)) =
      Shape.volume t.shape + totalCells (s.map fun u => (u.1, u.2.shape)) := rfl
    rw [List.map_cons, total] at small
    have first : (mintedTensor n t.shape).map (Literal.holds ρ) = t := by
      refine Tensor.ext rfl ?_
      show ((List.range' n (Shape.volume t.shape)).map Literal.ofVar).map (Literal.holds ρ) = _
      rw [← t.length_elems]
      refine map_holds_range' (by rw [t.length_elems]; omega) ?_
      intro k hk
      rw [h k (by rw [List.length_append]; omega), List.getElem_append_left hk]
    have rest := ih (n := n + Shape.volume t.shape) (fun k hk => by
      have := h (Shape.volume t.shape + k)
        (by rw [List.length_append, t.length_elems]; omega)
      rw [List.getElem_append_right (by rw [t.length_elems]; omega)] at this
      simpa [t.length_elems, Nat.add_assoc] using this) (by omega)
    show (name, (mintedTensor n t.shape).map (Literal.holds ρ)) ::
      (minted (n + Shape.volume t.shape) _).mapCells (Literal.holds ρ) = _
    rw [first, rest]

theorem mapCells_solutionBits {names : Named (List Nat)} {s : Solution}
    (shapes : s.map (fun u => (u.1, u.2.shape)) = names) {n : Nat}
    (small : n + totalCells names < Literal.varLimit) :
    (minted n names).mapCells (Literal.holds (solutionBits n s)) = s := by
  refine mapCells_minted shapes small ?_
  intro k hk
  unfold solutionBits
  rw [if_neg (by omega), show n + k + 1 - n - 1 = k by omega,
    List.getD_eq_getElem?_getD, List.getElem?_eq_getElem hk]
  rfl

/-! ## Pins -/

/-- The literal that holds when the cell has the truth value. -/
def asValue (l : Literal) (value : Bool) : Literal := if value then l else l.opposite

@[simp] theorem var_asValue (l : Literal) (value : Bool) : (asValue l value).var = l.var := by
  unfold asValue
  split
  · rfl
  · exact Literal.var_opposite l

theorem holds_asValue {ρ : Valuation} {l : Literal} (opposed : l.value ≠ Literal.least)
    {value : Bool} : (asValue l value).holds ρ = true ↔ l.holds ρ = value := by
  unfold asValue
  cases value <;> simp [Literal.holds_opposite opposed]

/-- The clauses by which a tensor of literals is pinned to truth values. -/
def pinClauses (t : Tensor Literal) (values : Tensor Bool) : List Clause :=
  (t.elems.zip values.elems).map fun cell => [asValue cell.1 cell.2]

theorem models_pinClauses {ρ : Valuation} {t : Tensor Literal} {values : Tensor Bool}
    (shape : t.shape = values.shape) (opposed : ∀ l ∈ t.elems, l.value ≠ Literal.least) :
    ρ.Models (pinClauses t values) ↔ t.map (Literal.holds ρ) = values := by
  have cells : ∀ {ls : List Literal} {bs : List Bool}, ls.length = bs.length →
      (∀ l ∈ ls, l.value ≠ Literal.least) →
      (ρ.Models ((ls.zip bs).map fun cell => [asValue cell.1 cell.2]) ↔
        ls.map (Literal.holds ρ) = bs) := by
    intro ls
    induction ls with
    | nil =>
      intro bs h _
      rw [List.length_eq_zero_iff.mp h.symm]
      simp
    | cons l ls ih =>
      intro bs h opposed
      obtain ⟨hl, hls⟩ := List.forall_mem_cons.mp opposed
      obtain _ | ⟨b, bs⟩ := bs
      · cases h
      · have rest := ih (Nat.succ.inj h) hls
        unfold Valuation.Models at rest ⊢
        rw [List.zip_cons_cons, List.map_cons, List.forall_mem_cons, rest, List.map_cons,
          List.cons.injEq]
        simp only [Clause.holds, List.any_cons, List.any_nil, Bool.or_false, holds_asValue hl]
  have length : t.elems.length = values.elems.length := by
    rw [t.length_elems, values.length_elems, shape]
  unfold pinClauses
  rw [cells length opposed]
  exact ⟨fun h => Tensor.ext shape h, fun h => congrArg Tensor.elems h⟩

/-- The formula accepts the literal and its opposite in clauses, and it is no constant. -/
structure Usable (i : Instance) (l : Literal) : Prop where
  minted : i.Minted l
  var_ne : l.var ≠ 1
  opposed : l.value ≠ Literal.least

theorem Usable.mono {i j : Instance} {l : Literal} (h : Usable i l)
    (hij : i.numVars ≤ j.numVars) : Usable j l :=
  { h with minted := Nat.le_trans h.minted hij }

theorem exec_pinCells {i : Instance} (marked : i.Marked) {cells : List (Literal × Bool)}
    (usable : ∀ cell ∈ cells, Usable i cell.1) :
    exec (cells.forM fun (l, value) => do
        ensure (← if value then pure l else (l.neg : Outcome Literal))) i =
      (.ok (), i.recordAll (cells.map fun cell => [asValue cell.1 cell.2])) := by
  induction cells generalizing i with
  | nil => rfl
  | cons cell cells ih =>
    obtain ⟨l, value⟩ := cell
    have hl := usable _ List.mem_cons_self
    have first : exec (do ensure (← if value then pure l else (l.neg : Outcome Literal)) :
        Compile Unit) i = (.ok (), i.record [asValue l value]) := by
      have hv : (asValue l value).var < i.occurs.size := by
        rw [var_asValue, marked]
        exact Nat.lt_succ_of_le hl.minted
      have hne : asValue l value ≠ Literal.top := fun h =>
        hl.var_ne (by rw [← var_asValue l value, h]; rfl)
      cases value
      · rw [if_neg (by decide), exec_bind_lift (Literal.neg_of_ne_least hl.opposed)]
        exact (exec_ensure hv).trans (by rw [if_neg hne])
      · rw [if_pos rfl]
        exact (exec_ensure hv).trans (by rw [if_neg hne])
    show exec (do
      (do ensure (← if value then pure l else (l.neg : Outcome Literal)) : Compile Unit)
      cells.forM _) i = _
    rw [exec_bind_ok first, ih (marked.record _)]
    · rfl
    · exact fun cell hc => (usable cell (List.mem_cons_of_mem _ hc)).mono (Nat.le_refl _)

/-- The pins fit the unknowns. -/
def Fits (names : Named (List Nat)) (pins : Solution) : Prop :=
  ∀ pin ∈ pins, names.lookup pin.1 = some pin.2.shape

/-- The clauses of all pins. -/
def allPins (literals : Named (Tensor Literal)) (pins : Solution) : List Clause :=
  pins.flatMap fun pin => ((literals.lookup pin.1).map (pinClauses · pin.2)).getD []

theorem lookup_map_snd {α β : Type} (f : α → β) (values : Named α) (name : String) :
    (values.map fun u => (u.1, f u.2)).lookup name = (values.lookup name).map f := by
  induction values with
  | nil => rfl
  | cons u values ih =>
    obtain ⟨key, a⟩ := u
    simp only [List.map_cons, List.lookup_cons, ih]
    cases name == key <;> rfl

theorem mem_of_lookup {α : Type} {values : Named α} {name : String} {a : α}
    (h : values.lookup name = some a) : (name, a) ∈ values := by
  induction values with
  | nil => cases h
  | cons u values ih =>
    obtain ⟨key, b⟩ := u
    rw [List.lookup_cons] at h
    split at h
    · next heq =>
      obtain rfl := Option.some.inj h
      rw [beq_iff_eq] at heq
      subst heq
      exact List.mem_cons_self
    · exact List.mem_cons_of_mem _ (ih h)

/-- A pin that fits has literals of its shape. -/
theorem Fits.lookup {names : Named (List Nat)} {pins : Solution} (h : Fits names pins)
    {literals : Named (Tensor Literal)}
    (shapes : literals.map (fun u => (u.1, u.2.shape)) = names) {pin : String × Tensor Bool}
    (hpin : pin ∈ pins) :
    ∃ t, literals.lookup pin.1 = some t ∧ t.shape = pin.2.shape ∧ (pin.1, t) ∈ literals := by
  have hl := h pin hpin
  rw [← shapes, lookup_map_snd (fun t : Tensor Literal => t.shape)] at hl
  obtain ⟨t, ht, hs⟩ := Option.map_eq_some_iff.mp hl
  exact ⟨t, ht, hs, mem_of_lookup ht⟩

theorem exec_pins {names : Named (List Nat)} {pins : Solution} (fits : Fits names pins)
    {literals : Named (Tensor Literal)}
    (shapes : literals.map (fun u => (u.1, u.2.shape)) = names) {i : Instance}
    (marked : i.Marked) (usable : ∀ u ∈ literals, ∀ l ∈ u.2.elems, Usable i l) :
    exec (pins.forM fun (name, values) => pin literals name values) i =
      (.ok (), i.recordAll (allPins literals pins)) := by
  induction pins generalizing i with
  | nil => rfl
  | cons p pins ih =>
    obtain ⟨name, values⟩ := p
    obtain ⟨t, ht, hs, hmem⟩ := fits.lookup shapes List.mem_cons_self
    have first : exec (pin literals name values) i =
        (.ok (), i.recordAll (pinClauses t values)) := by
      have found : literals.unknown name = .ok t := by
        unfold Named.unknown
        rw [ht]
      unfold pin
      rw [exec_bind_lift found]
      simp only [hs, ne_eq, not_true_eq_false, if_false]
      exact exec_pinCells marked fun cell hc => usable _ hmem _ (List.of_mem_zip hc).1
    show exec (do pin literals name values; pins.forM _) i = _
    rw [exec_bind_ok first,
      ih (fun p hp => fits p (List.mem_cons_of_mem _ hp)) (marked.recordAll _)]
    · have split : allPins literals ((name, values) :: pins) =
          pinClauses t values ++ allPins literals pins := by
        rw [allPins, List.flatMap_cons, ht]
        rfl
      rw [split, recordAll_append]
    · intro u hu l hl
      exact (usable u hu l hl).mono (Nat.le_of_eq (Instance.numVars_recordAll ..).symm)

/-- The clauses of the pins hold when the decoded unknowns agree with the pins. -/
theorem models_allPins {names : Named (List Nat)} {pins : Solution} (fits : Fits names pins)
    {literals : Named (Tensor Literal)}
    (shapes : literals.map (fun u => (u.1, u.2.shape)) = names)
    (opposed : ∀ u ∈ literals, ∀ l ∈ u.2.elems, l.value ≠ Literal.least) {ρ : Valuation} :
    ρ.Models (allPins literals pins) ↔
      ∀ pin ∈ pins, (literals.mapCells (Literal.holds ρ)).lookup pin.1 = some pin.2 := by
  unfold Valuation.Models allPins
  simp only [List.mem_flatMap, forall_exists_index, and_imp]
  rw [forall_comm]
  refine forall_congr' ?_
  intro pin
  rw [forall_comm]
  refine forall_congr' ?_
  intro hpin
  obtain ⟨t, ht, hs, hmem⟩ := fits.lookup shapes hpin
  unfold Named.mapCells
  rw [lookup_map_snd (Tensor.map (Literal.holds ρ)), ht, Option.map_some, Option.map_some,
    Option.some_inj, ← models_pinClauses hs (opposed _ hmem)]
  rfl

end Enumeration

end FiniteStructures
