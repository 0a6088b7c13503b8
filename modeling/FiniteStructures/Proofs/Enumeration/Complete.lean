import FiniteStructures.Proofs.Enumeration.Search
import Mathlib.Data.Fintype.Pi
import Mathlib.Data.List.MinMax
import Mathlib.Data.Set.Card
import Mathlib.Data.Set.Finite.Range

/-!
Soundness and completeness of enumerations.  With an honest backend, whichever models it picks,

    solveAll p max

lists solutions that agree with the pins, no two with the same relevant cells: all of them by their
relevant cells, or as many as the limit allows (`Solver.lists_solutions`).
-/

namespace FiniteStructures

namespace Enumeration

open Compile Instance Problem

variable {p : Problem} {names : Named (List Nat)} {pins : Solution}

/-! ## Counting -/

/-- The restrictions of the solutions that agree with the pins. -/
def restrictions (p : Problem) (names : Named (List Nat)) (pins : Solution) :
    Set (Named (List Bool)) :=
  p.restrict '' {s | p.Solves names pins s}

section

variable (small : 1 + totalCells names < Literal.varLimit)

include small

/-- Solutions are given by the truth values of their cells. -/
theorem solutions_subset_range (p : Problem) (pins : Solution) :
    {s | p.Solves names pins s} ⊆ Set.range fun bits : Fin (totalCells names) → Bool =>
      (minted 1 names).mapCells (Literal.holds fun v =>
        if h : v - 2 < totalCells names then bits ⟨v - 2, h⟩ else false) := by
  intro s hs
  refine ⟨fun k => solutionBits 1 s (k + 2), ?_⟩
  refine (mapCells_minted_congr small ?_).trans (mapCells_solutionBits hs.shapes small)
  intro v hv hle
  rw [dif_pos (show v - 2 < totalCells names by omega)]
  exact congrArg (solutionBits 1 s) (show v - 2 + 2 = v by omega)

theorem finite_solutions (p : Problem) (pins : Solution) : {s | p.Solves names pins s}.Finite :=
  (Set.finite_range _).subset (solutions_subset_range small p pins)

theorem ncard_restrictions_le (p : Problem) (pins : Solution) :
    (restrictions p names pins).ncard ≤ 2 ^ totalCells names := by
  calc (restrictions p names pins).ncard
      ≤ {s | p.Solves names pins s}.ncard := Set.ncard_image_le (finite_solutions small p pins)
    _ ≤ (Set.range fun bits : Fin (totalCells names) → Bool => _).ncard :=
        Set.ncard_le_ncard (solutions_subset_range small p pins) (Set.finite_range _)
    _ ≤ (Set.univ : Set (Fin (totalCells names) → Bool)).ncard := by
        rw [← Set.image_univ]
        exact Set.ncard_image_le
    _ = 2 ^ totalCells names := by simp [Set.ncard_univ]

end

/-- The listed restrictions, as many as there are listed solutions. -/
theorem Listing.subset_restrictions {list : List Solution} (h : Listing p names pins list) :
    (↑(list.map p.restrict).toFinset : Set (Named (List Bool))) ⊆ restrictions p names pins := by
  intro r hr
  obtain ⟨s, hs, rfl⟩ := List.mem_map.mp (List.mem_toFinset.mp hr)
  exact ⟨s, h.solves s hs, rfl⟩

theorem Listing.ncard {list : List Solution} (h : Listing p names pins list) :
    (↑(list.map p.restrict).toFinset : Set (Named (List Bool))).ncard = list.length := by
  rw [Set.ncard_coe_finset, List.toFinset_card_of_nodup h.distinct, List.length_map]

theorem Listing.length_le {list : List Solution} (h : Listing p names pins list)
    (small : 1 + totalCells names < Literal.varLimit) :
    list.length ≤ (restrictions p names pins).ncard := by
  rw [← h.ncard]
  exact Set.ncard_le_ncard h.subset_restrictions ((finite_solutions small p pins).image _)

/-- A list with fewer solutions than there are restrictions misses some of them. -/
theorem Listing.covers_iff {list : List Solution} (h : Listing p names pins list)
    (small : 1 + totalCells names < Literal.varLimit) :
    Covers p names pins list ↔ list.length = (restrictions p names pins).ncard := by
  constructor
  · intro covers
    refine Nat.le_antisymm (h.length_le small) ?_
    rw [← h.ncard]
    refine Set.ncard_le_ncard ?_ (Finset.finite_toSet _)
    rintro r ⟨s, hs, rfl⟩
    exact List.mem_toFinset.mpr (covers s hs)
  · intro length s hs
    have whole := Set.eq_of_subset_of_ncard_le h.subset_restrictions
      (Nat.le_of_eq (length.symm.trans h.ncard.symm)) ((finite_solutions small p pins).image _)
    have mem : p.restrict s ∈ restrictions p names pins := ⟨s, hs, rfl⟩
    rwa [← whole, Finset.mem_coe, List.mem_toFinset] at mem

/-- Without a limit, a search is allowed more solutions than there are. -/
theorem lt_patience (small : 1 + totalCells names < Literal.varLimit) (p : Problem)
    (pins : Solution) :
    (restrictions p names pins).ncard < patience ((minted 1 names).map (unknownOf p)) := by
  have cells (list : Named (List Nat)) (n k : Nat) :
      ((minted n list).map (unknownOf p)).foldl (fun cells u => cells + u.literals.size) k =
        k + totalCells list := by
    induction list generalizing n k with
    | nil => rfl
    | cons u list ih =>
      have total : totalCells (u :: list) = Shape.volume u.2 + totalCells list := rfl
      have size : (unknownOf p (u.1, mintedTensor n u.2)).literals.size = Shape.volume u.2 := by
        exact (mintedTensor n u.2).length_elems
      show ((minted (n + Shape.volume u.2) list).map (unknownOf p)).foldl _
        (k + (unknownOf p (u.1, mintedTensor n u.2)).literals.size) = _
      rw [ih, size, total]
      omega
  have most := ncard_restrictions_le small p pins
  unfold patience
  rw [cells, Nat.zero_add]
  have positive : 0 < Count.limit := by decide
  exact Nat.lt_of_le_of_lt most (Nat.lt_add_of_pos_left positive)

end Enumeration

/-! ## All solutions -/

open Enumeration Problem in
/-- When the backend is honest, the unknowns can be stored, pins and masks fit them, the predicate
compiles and the variables of the formula have literals of 32 bits, an enumeration lists solutions
that agree with the pins, which differ in their relevant cells; it has as many as there are, or as the
limit allows. -/
theorem Solver.lists_solutions {σ : Type} [SatBackend σ] (honest : SatBackend.Honest σ)
    (s : Solver σ) {p : Problem} {names : Named (List Nat)} (unknowns : p.unknowns = .ok names)
    (storable : ∀ u ∈ names, Shape.storable u.2 = .ok ()) (fits : Fits names s.pins)
    (masks : p.MasksFit names) (parametric : p.Parametric) (runs : Runs p names s.pins)
    (room : (Compile.exec (prepare p s.pins) Instance.initial).2.numVars < Literal.varLimit)
    (max : Option Nat) :
    let limit := max <|> s.settings.maxSolutions
    let N := (restrictions p names s.pins).ncard
    ∃ list, (s.solveAll p max).1 = .ok list ∧ (∀ t ∈ list, p.Solves names s.pins t) ∧
      (list.map p.restrict).Nodup ∧
      list.length = (match limit with | some k => min k N | none => N) ∧
      ((∀ k, limit = some k → N ≤ k) →
        ∀ t, p.Solves names s.pins t → p.restrict t ∈ list.map p.restrict) := by
  intro limit N
  obtain ⟨-, small⟩ := exec_mint_of_room unknowns storable parametric.adds room
  obtain ⟨i, run, prepared⟩ := exec_prepare unknowns storable fits masks parametric runs room
  obtain ⟨list, stats, after, found, listing, most, ends⟩ := prepared.searching.search honest
    s.settings.selfCheck (limit.getD (patience ((minted 1 names).map (unknownOf p))))
    (SatBackend.clear s.backend)
  have listed : (s.solveAll p max).1 = .ok list := by
    unfold solveAll
    dsimp only
    rw [run]
    dsimp only
    rw [found]
  have le : list.length ≤ N := listing.length_le small
  have enough : N < patience ((minted 1 names).map (unknownOf p)) := lt_patience small p s.pins
  have all : Covers p names s.pins list ↔ list.length = N := listing.covers_iff small
  rw [List.length_nil, Nat.zero_add] at most ends
  rw [all] at ends
  refine ⟨list, listed, listing.solves, listing.distinct, ?_, fun unlimited => all.mpr ?_⟩
  · cases hl : limit with
    | none =>
      rw [hl, Option.getD_none] at ends
      exact ends.resolve_left fun full => by omega
    | some k =>
      rw [hl, Option.getD_some] at ends most
      show list.length = min k N
      omega
  · cases hl : limit with
    | none =>
      rw [hl, Option.getD_none] at ends
      exact ends.resolve_left fun full => by omega
    | some k =>
      have := unlimited k hl
      rw [hl, Option.getD_some] at ends
      omega

/-- A backend that tries all truth values, one after another. -/
structure TruthTable where

namespace TruthTable

/-- The lists of truth values of a length. -/
def rows : Nat → List (List Bool)
  | 0 => [[]]
  | n + 1 => (rows n).flatMap fun bits => [false :: bits, true :: bits]

theorem mem_rows (bits : List Bool) : bits ∈ rows bits.length := by
  induction bits with
  | nil => exact List.mem_singleton.mpr rfl
  | cons b bits ih => exact List.mem_flatMap.mpr ⟨bits, ih, by cases b <;> simp⟩

instance (a : Assignment) (cnf : Cnf) : Decidable (a.Satisfies cnf) :=
  inferInstanceAs (Decidable (_ ∧ _))

/-- The last variable of a formula, minted or not. -/
def lastVar (cnf : Cnf) : Nat :=
  (cnf.clauses.toList.flatten.map Literal.var).foldr max cnf.numVars

theorem var_le_lastVar {cnf : Cnf} {c : Clause} (hc : c ∈ cnf.clauses) {l : Literal}
    (hl : l ∈ c) : l.var ≤ lastVar cnf :=
  List.le_max_of_le' _ (List.mem_map_of_mem
    (List.mem_flatten.mpr ⟨c, Array.mem_toList_iff.mpr hc, hl⟩)) (Nat.le_refl _)

theorem numVars_le_lastVar (cnf : Cnf) : cnf.numVars ≤ lastVar cnf := by
  unfold lastVar
  generalize cnf.clauses.toList.flatten.map Literal.var = vars
  induction vars with
  | nil => exact Nat.le_refl _
  | cons v vars ih => exact Nat.le_trans ih (Nat.le_max_right ..)

/-- The assignments to the variables of a formula. -/
def assignments (cnf : Cnf) : List Assignment :=
  (rows (lastVar cnf + 1)).map fun bits => ⟨bits.toArray⟩

/-- When a formula is satisfied at all, then by one of the assignments that are tried. -/
theorem exists_mem_assignments {cnf : Cnf} {m : Assignment} (sat : m.Satisfies cnf) :
    ∃ a ∈ assignments cnf, a.Satisfies cnf := by
  let bits := List.ofFn fun v : Fin (lastVar cnf + 1) => m.valuation v
  have length : bits.length = lastVar cnf + 1 := List.length_ofFn
  refine ⟨⟨bits.toArray⟩, List.mem_map.mpr ⟨bits, length ▸ mem_rows bits, rfl⟩, ?_, ?_⟩
  · rw [List.size_toArray, length]
    exact Nat.lt_succ_of_le (numVars_le_lastVar cnf)
  · intro c hc
    obtain ⟨l, hl, value⟩ := sat.2 c hc
    refine ⟨l, hl, ?_⟩
    have hv : l.var < bits.length := by
      rw [length]
      exact Nat.lt_succ_of_le (var_le_lastVar hc hl)
    have bit : bits[l.var] = m.valuation l.var := List.getElem_ofFn _
    rw [List.getElem?_toArray, List.getElem?_eq_getElem hv, bit, Assignment.valuation,
      Array.getD_eq_getD_getElem?, value]
    rfl

instance : SatBackend TruthTable where
  name _ := "truth table"
  clear := id
  solve backend cnf := (.ok ((assignments cnf).find? fun a => a.Satisfies cnf), backend)

theorem honest : SatBackend.Honest TruthTable := by
  intro backend cnf
  cases tried : (assignments cnf).find? fun a => a.Satisfies cnf with
  | some m =>
    have sat := List.find?_some tried
    exact .inl ⟨m, congrArg Except.ok tried, of_decide_eq_true sat⟩
  | none =>
    refine .inr ⟨congrArg Except.ok tried, ?_⟩
    intro m sat
    obtain ⟨a, ha, sat⟩ := exists_mem_assignments sat
    exact List.find?_eq_none.mp tried a ha (decide_eq_true sat)

end TruthTable

/-! ### Functions by one of their values -/

section

open Compile Enumeration Problem

/-- The values at 0 in the table of a function on two elements. -/
def atZero : Tensor Bool := ⟨[2, 2], [true, true, false, false], rfl⟩

/-- The functions on two elements, told apart by their value at 0. -/
def valuesAtZero : Problem := { functions 2 1 with mask := fun _ => some atZero }

/-- Six gates for each argument, to have one value, and two for both of them. -/
theorem mints_valuesAtZero (n : Nat) :
    Mints 14 (valuesAtZero.compile [("op", mintedTensor n [2, 2])]) := by
  have row (a b : Literal) : Mints 6 (BooleanDomain.one [a, b] : Compile Literal) := mints_one [a, b]
  let table : Compile { values : List Literal // values.length = 2 } :=
    traverse (BooleanDomain.one : List Literal → Compile Literal)
      (blocks 2 2 (mintedTensor n [2, 2]).elems)
  have rows : Mints 12 table :=
    (row _ _).bind (fun _ => (row _ _).bind (fun _ => .pure _) (Nat.le_refl 6)) (Nat.le_refl 12)
  have whole : valuesAtZero.compile [("op", mintedTensor n [2, 2])] =
      (table >>= fun values => pure ⟨[2], values.1, values.2⟩) >>= fun t : Tensor Literal =>
        BooleanDomain.all t.elems := rfl
  rw [whole, bind_assoc]
  refine rows.bind (m := 2) (fun ⟨values, length⟩ => ?_) (by omega)
  have conjunction := Mints.foldlM mints_and values Literal.top
  rwa [length] at conjunction

theorem exists_cells {s : Solution} (shapes : s.map (fun u => (u.1, u.2.shape)) = [("op", [2, 2])]) :
    ∃ a b c d, s = [("op", ⟨[2, 2], [a, b, c, d], rfl⟩)] := by
  obtain ⟨⟨name, ⟨shape, elems, length⟩⟩, rfl, hu⟩ := List.map_eq_singleton_iff.mp shapes
  obtain ⟨rfl, rfl⟩ := Prod.mk.inj hu
  match elems, length with
  | [a, b, c, d], _ => exact ⟨a, b, c, d, rfl⟩

theorem restrictions_valuesAtZero :
    restrictions valuesAtZero [("op", [2, 2])] [] =
      {[("op", [true, false])], [("op", [false, true])]} := by
  ext r
  constructor
  · rintro ⟨s, ⟨shapes, check, -⟩, rfl⟩
    obtain ⟨a, b, c, d, rfl⟩ := exists_cells shapes
    revert check
    cases a <;> cases b <;> cases c <;> cases d <;> decide
  · rintro (rfl | rfl)
    · exact ⟨[("op", ⟨[2, 2], [true, false, true, false], rfl⟩)], ⟨rfl, rfl, nofun⟩, rfl⟩
    · exact ⟨[("op", ⟨[2, 2], [false, true, true, false], rfl⟩)], ⟨rfl, rfl, nofun⟩, rfl⟩

/-- Two of the four functions have the value 0 at 0, the other two the value 1.  So two are listed,
and one if that is the limit. -/
theorem Solver.lists_solutions_valuesAtZero :
    let s := Solver.ofBackend TruthTable.mk {}
    (∃ list, (s.solveAll valuesAtZero none).1 = .ok list ∧ list.length = 2 ∧
        [("op", [true, false])] ∈ list.map valuesAtZero.restrict ∧
        [("op", [false, true])] ∈ list.map valuesAtZero.restrict) ∧
      ∃ list, (s.solveAll valuesAtZero (some 1)).1 = .ok list ∧ list.length = 1 := by
  intro s
  have uniform := (InCatalog.functions 2 1).uniform
  have storable : ∀ u ∈ [("op", [2, 2])], Shape.storable u.2 = .ok () := by decide
  have fits : Fits [("op", [2, 2])] s.pins := fun _ hpin => absurd hpin List.not_mem_nil
  have masks : valuesAtZero.MasksFit [("op", [2, 2])] := by
    intro u hu mask hmask
    rw [List.mem_singleton.mp hu]
    obtain rfl := Option.some.inj hmask
    rfl
  have small : 1 + totalCells [("op", [2, 2])] + 14 < Literal.varLimit := by decide
  have total (t : Solution) (shapes : t.map (fun u => (u.1, u.2.shape)) = [("op", [2, 2])]) :
      ∃ b, (functions 2 1).check t = .ok b := by
    obtain ⟨a, b, c, d, rfl⟩ := exists_cells shapes
    exact ⟨_, rfl⟩
  have unknowns : valuesAtZero.unknowns = .ok [("op", [2, 2])] := rfl
  have runs : Runs (functions 2 1) [("op", [2, 2])] s.pins :=
    runs_of_mints uniform storable fits (mints_valuesAtZero 1) small total
  have lists := Solver.lists_solutions TruthTable.honest s unknowns storable fits masks
    (uniform.parametric.withMask _) runs (room_of_mints unknowns storable (mints_valuesAtZero 1) small)
  have two : (restrictions valuesAtZero [("op", [2, 2])] s.pins).ncard = 2 := by
    rw [show s.pins = [] from rfl, restrictions_valuesAtZero, Set.ncard_pair (by decide)]
  refine ⟨?_, ?_⟩
  · obtain ⟨list, listed, -, -, length, all⟩ := lists none
    have covers := all nofun
    refine ⟨list, listed, length.trans two, ?_, ?_⟩
    · exact covers [("op", ⟨[2, 2], [true, false, true, false], rfl⟩)] ⟨rfl, rfl, nofun⟩
    · exact covers [("op", ⟨[2, 2], [false, true, true, false], rfl⟩)] ⟨rfl, rfl, nofun⟩
  · obtain ⟨list, listed, -, -, length, -⟩ := lists (some 1)
    exact ⟨list, listed, length.trans (congrArg (min 1) two)⟩

end

end FiniteStructures
