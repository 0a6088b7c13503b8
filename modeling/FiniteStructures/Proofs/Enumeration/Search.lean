import FiniteStructures.Proofs.Enumeration.Prepared

/-!
The search for solutions.  Between two questions the models of the formula are the solutions whose
restriction was not found yet; `Searching` is this invariant.  The backend may answer with any model:

    ask       one step finds a new solution, or shows that there is none     (Searching.ask)
    search    a search that ends before its limit found all restrictions     (Searching.search)
-/

namespace FiniteStructures

/-- A backend answers a formula with some assignment that satisfies it, and with none only when
there is none. -/
def SatBackend.Honest (σ : Type) [SatBackend σ] : Prop :=
  ∀ (backend : σ) (cnf : Cnf),
    (∃ m : Assignment, (SatBackend.solve backend cnf).1 = .ok (some m) ∧ m.Satisfies cnf) ∨
      ((SatBackend.solve backend cnf).1 = .ok none ∧ ∀ m : Assignment, ¬ m.Satisfies cnf)

namespace Enumeration

open Compile Instance Problem

/-! ## Models as assignments -/

/-- The truth values of the variables of a formula. -/
def tabulate (ρ : Valuation) (n : Nat) : Assignment := ⟨Array.ofFn fun v : Fin (n + 1) => ρ v⟩

/-- A formula with a model is satisfied by an assignment. -/
theorem satisfies_tabulate {i : Instance} {ρ : Valuation}
    (minted : ∀ c ∈ i.clauses.toList, ∀ l ∈ c, i.Minted l) (h : ρ.Models i.clauses.toList) :
    (tabulate ρ i.numVars).Satisfies i.cnf := by
  have size : (tabulate ρ i.numVars).values.size = i.numVars + 1 := Array.size_ofFn
  refine ⟨?_, ?_⟩
  · rw [size]
    exact Nat.lt_succ_self _
  · intro c hc
    have hc : c ∈ i.clauses.toList := Array.mem_toList_iff.mpr hc
    obtain ⟨l, hl, ht⟩ := List.any_eq_true.mp (h c hc)
    refine ⟨l, hl, ?_⟩
    have hv : l.var < (tabulate ρ i.numVars).values.size := by
      rw [size]
      exact Nat.lt_succ_of_le (minted c hc l hl)
    have value : (tabulate ρ i.numVars).values[l.var] = ρ l.var := Array.getElem_ofFn _
    rw [Array.getElem?_eq_getElem hv, value]
    unfold Literal.holds at ht
    cases hn : l.isNegated <;> simp_all

theorem holds_tautology (ρ : Valuation) {l : Literal} (h : l.value ≠ Literal.least) :
    Clause.holds ρ (tautology l) = true := by
  simp [Clause.holds, tautology, Literal.holds_opposite h]

theorem models_padded {i : Instance} (room : i.numVars < Literal.varLimit) {ρ : Valuation} :
    ρ.Models (padded i).clauses.toList ↔ ρ.Models i.clauses.toList := by
  unfold padded
  rw [clauses_recordAll, Valuation.models_append, and_iff_left_iff_imp]
  rintro - c hc
  obtain ⟨l, hl, rfl⟩ := List.mem_map.mp hc
  have minted := minted_of_mem_idle hl
  exact holds_tautology ρ (Literal.value_ne_least (Nat.lt_of_le_of_lt minted room))

/-! ## The invariant -/

/-- The listed solutions solve the problem, and no two of them have the same restriction. -/
structure Listing (p : Problem) (names : Named (List Nat)) (pins : Solution)
    (found : List Solution) : Prop where
  solves : ∀ s ∈ found, p.Solves names pins s
  distinct : (found.map p.restrict).Nodup

/-- Every solution has the restriction of a listed one. -/
def Covers (p : Problem) (names : Named (List Nat)) (pins : Solution) (found : List Solution) :
    Prop :=
  ∀ s, p.Solves names pins s → p.restrict s ∈ found.map p.restrict

theorem Listing.reverse {p : Problem} {names : Named (List Nat)} {pins : Solution}
    {found : List Solution} (h : Listing p names pins found) :
    Listing p names pins found.reverse where
  solves s hs := h.solves s (List.mem_reverse.mp hs)
  distinct := by
    rw [List.map_reverse]
    exact (List.reverse_perm _).nodup_iff.mpr h.distinct

theorem Covers.reverse {p : Problem} {names : Named (List Nat)} {pins : Solution}
    {found : List Solution} (h : Covers p names pins found) : Covers p names pins found.reverse := by
  intro s hs
  rw [List.map_reverse, List.mem_reverse]
  exact h s hs

/-- The models of the formula are the solutions whose restriction was not found. -/
structure Searching (p : Problem) (names : Named (List Nat)) (pins : Solution)
    (literals : Named (Tensor Literal)) (found : List Solution) (i : Instance) : Prop where
  built : ∃ free gates, i.Built free gates
  room : i.numVars < Literal.varLimit
  usable : ∀ u ∈ literals, ∀ l ∈ u.2.elems, Usable i l
  listing : Listing p names pins found
  sound : ∀ ρ : Valuation, ρ.Models i.clauses.toList →
    p.Solves names pins (literals.mapCells (Literal.holds ρ)) ∧
      p.restrict (literals.mapCells (Literal.holds ρ)) ∉ found.map p.restrict
  complete : ∀ s : Solution, p.Solves names pins s → p.restrict s ∉ found.map p.restrict →
    ∃ ρ : Valuation, ρ.Models i.clauses.toList ∧ literals.mapCells (Literal.holds ρ) = s

variable {p : Problem} {names : Named (List Nat)} {pins : Solution}
  {literals : Named (Tensor Literal)} {found : List Solution} {i : Instance}

/-- A prepared formula starts a search. -/
theorem Prepared.searching (h : Prepared p names pins literals i) :
    Searching p names pins literals [] i where
  built := h.built
  room := h.room
  usable := h.usable
  listing := ⟨nofun, List.nodup_nil⟩
  sound ρ hρ := ⟨h.sound ρ hρ, List.not_mem_nil⟩
  complete s hs _ := h.complete s hs

namespace Searching

/-- Reading the formula changes nothing about its models. -/
theorem padded (h : Searching p names pins literals found i) :
    Searching p names pins literals found (padded i) where
  built := by
    obtain ⟨free, gates, built⟩ := h.built
    exact ⟨free, gates, built.formula (exec_formula built.wellFormed.marked h.room)⟩
  room := Nat.lt_of_le_of_lt (Nat.le_of_eq (numVars_recordAll ..)) h.room
  usable u hu l hl := (h.usable u hu l hl).mono (Nat.le_of_eq (numVars_recordAll ..).symm)
  listing := h.listing
  sound ρ hρ := h.sound ρ ((models_padded h.room).mp hρ)
  complete s hs new := by
    obtain ⟨ρ, hρ, decoded⟩ := h.complete s hs new
    exact ⟨ρ, (models_padded h.room).mpr hρ, decoded⟩

/-- Without a model, all restrictions were found. -/
theorem covers (h : Searching p names pins literals found i)
    (none : ∀ m : Assignment, ¬ m.Satisfies i.cnf) : Covers p names pins found := by
  intro s hs
  by_contra new
  obtain ⟨free, gates, built⟩ := h.built
  obtain ⟨ρ, hρ, -⟩ := h.complete s hs new
  exact none _ (satisfies_tabulate built.wellFormed.minted hρ)

/-- A model is a new solution. -/
theorem listing_cons (h : Searching p names pins literals found i) {ρ : Valuation}
    (hρ : ρ.Models i.clauses.toList) :
    Listing p names pins (literals.mapCells (Literal.holds ρ) :: found) := by
  obtain ⟨solves, new⟩ := h.sound ρ hρ
  exact ⟨List.forall_mem_cons.mpr ⟨solves, h.listing.solves⟩,
    List.nodup_cons.mpr ⟨new, h.listing.distinct⟩⟩

/-- When nothing is left to differ in, the solution is the last one. -/
theorem covers_last (h : Searching p names pins literals found i) {ρ : Valuation}
    (last : excluding p literals ρ = []) :
    Covers p names pins (literals.mapCells (Literal.holds ρ) :: found) := by
  intro s hs
  rw [List.map_cons, List.mem_cons]
  by_contra new
  rw [not_or] at new
  obtain ⟨τ, -, rfl⟩ := h.complete s hs new.2
  have differs := (holds_excluding h.usable).mpr new.1
  rw [last] at differs
  cases differs

theorem minted_excluding (h : Searching p names pins literals found i) (ρ : Valuation)
    {k : Literal} (hk : k ∈ excluding p literals ρ) : i.Minted k := by
  obtain ⟨l, hl, rfl⟩ := List.mem_map.mp hk
  have minted := (usable_of_mem_relevantLiterals h.usable hl).minted
  unfold Instance.Minted at minted ⊢
  rwa [var_asValue]

/-- The clause of a solution takes its restriction, and no other, out of the models. -/
theorem record (h : Searching p names pins literals found i) {ρ : Valuation}
    (hρ : ρ.Models i.clauses.toList) :
    Searching p names pins literals (literals.mapCells (Literal.holds ρ) :: found)
      (i.record (excluding p literals ρ)) := by
  have models (τ : Valuation) : τ.Models (i.record (excluding p literals ρ)).clauses.toList ↔
      τ.Models i.clauses.toList ∧ p.restrict (literals.mapCells (Literal.holds τ)) ≠
        p.restrict (literals.mapCells (Literal.holds ρ)) := by
    rw [clauses_record, Array.toList_push, Valuation.models_append,
      ← holds_excluding h.usable]
    exact and_congr_right fun _ => List.forall_mem_singleton
  refine ⟨?_, h.room, ?_, h.listing_cons hρ, ?_, ?_⟩
  · obtain ⟨free, gates, built⟩ := h.built
    exact ⟨free, gates, built.record fun k hk => h.minted_excluding ρ hk⟩
  · intro u hu l hl
    exact (h.usable u hu l hl).mono (Nat.le_refl _)
  · intro τ hτ
    obtain ⟨hτ, differs⟩ := (models τ).mp hτ
    obtain ⟨solves, new⟩ := h.sound τ hτ
    exact ⟨solves, by rw [List.map_cons, List.mem_cons, not_or]; exact ⟨differs, new⟩⟩
  · intro s hs new
    rw [List.map_cons, List.mem_cons, not_or] at new
    obtain ⟨τ, hτ, rfl⟩ := h.complete s hs new.2
    exact ⟨τ, (models τ).mpr ⟨hτ, new.1⟩, rfl⟩

/-! ## One step -/

theorem decode_eq (h : Searching p names pins literals found i) {m : Assignment}
    (sat : m.Satisfies i.cnf) :
    decode (literals.map (unknownOf p)) m = .ok (literals.mapCells (Literal.holds m.valuation)) := by
  obtain ⟨free, gates, built⟩ := h.built
  have cells (u : String × Tensor Literal) (hu : u ∈ literals) :
      m.decode u.2 = .ok (u.2.map (Literal.holds m.valuation)) :=
    sat.decode built.wellFormed fun l hl => (h.usable u hu l hl).minted
  unfold decode
  rw [List.mapM_map]
  refine List.mapM_ok ?_
  intro u hu
  show (do return (u.1, ← m.decode u.2) : Outcome _) = _
  rw [cells u hu]
  rfl

/-- A model is accepted, whether or not it is checked again. -/
theorem exec_accept (h : Searching p names pins literals found i) {m : Assignment}
    (sat : m.Satisfies i.cnf) (selfCheck : Bool) (position : Nat) :
    exec (accept p selfCheck (literals.map (unknownOf p)) position m) i =
      if excluding p literals m.valuation = [] then
        (.ok (.last (literals.mapCells (Literal.holds m.valuation))), i)
      else
        (.ok (.found (literals.mapCells (Literal.holds m.valuation))),
          i.record (excluding p literals m.valuation)) := by
  have check := (h.sound _ sat.models).1.check
  have recorded : exec (addClause (excluding p literals m.valuation)) i =
      (.ok (), i.record (excluding p literals m.valuation)) := by
    obtain ⟨free, gates, built⟩ := h.built
    exact built.exec_addClause fun k hk => h.minted_excluding _ hk
  have excluded := exec_exclude (p := p) h.usable m.valuation
  unfold accept
  rw [exec_bind_lift (h.decode_eq sat)]
  cases hc : excluding p literals m.valuation with
  | nil =>
    rw [hc] at excluded
    cases selfCheck
    · exact exec_bind_ok excluded
    · exact (exec_bind_lift check).trans (exec_bind_ok excluded)
  | cons l c =>
    rw [hc] at excluded recorded
    cases selfCheck
    · exact (exec_bind_ok excluded).trans (exec_bind_ok recorded)
    · exact (exec_bind_lift check).trans ((exec_bind_ok excluded).trans (exec_bind_ok recorded))

/-- What an honest backend lets a step do. -/
inductive Advances (p : Problem) (names : Named (List Nat)) (pins : Solution)
    (literals : Named (Tensor Literal)) (found : List Solution) : Step → Instance → Prop
  | exhausted {i : Instance} (covers : Covers p names pins found) :
      Advances p names pins literals found .exhausted i
  | last {s : Solution} {i : Instance} (listing : Listing p names pins (s :: found))
      (covers : Covers p names pins (s :: found)) :
      Advances p names pins literals found (.last s) i
  | found {s : Solution} {i : Instance}
      (searching : Searching p names pins literals (s :: found) i) :
      Advances p names pins literals found (.found s) i

variable {σ : Type} [SatBackend σ]

theorem ask (h : Searching p names pins literals found i) (honest : SatBackend.Honest σ)
    (selfCheck : Bool) (backend : σ) :
    ∃ step after j,
      (Task.mk p selfCheck (literals.map (unknownOf p))).ask found.length backend i =
        (.ok step, after, j) ∧
      Advances p names pins literals found step j := by
  have read : exec formula i = (.ok (Compile.padded i).cnf, Compile.padded i) := by
    obtain ⟨free, gates, built⟩ := h.built
    exact exec_formula built.wellFormed.marked h.room
  have h := h.padded
  rcases honest backend (Compile.padded i).cnf with ⟨m, answer, sat⟩ | ⟨answer, none⟩
  · have accepted := h.exec_accept sat selfCheck (found.length + 1)
    have run : (Task.mk p selfCheck (literals.map (unknownOf p))).ask found.length backend i =
        let r := exec (accept p selfCheck (literals.map (unknownOf p)) (found.length + 1) m)
          (Compile.padded i)
        (r.1, (SatBackend.solve backend (Compile.padded i).cnf).2, r.2) := by
      unfold Task.ask
      rw [read]
      dsimp only
      rw [← Prod.eta (SatBackend.solve backend (Compile.padded i).cnf), answer]
    rw [run, accepted]
    by_cases last : excluding p literals m.valuation = []
    · rw [if_pos last]
      exact ⟨_, _, _, rfl, .last (h.listing_cons sat.models) (h.covers_last last)⟩
    · rw [if_neg last]
      exact ⟨_, _, _, rfl, .found (h.record sat.models)⟩
  · refine ⟨.exhausted, (SatBackend.solve backend (Compile.padded i).cnf).2, Compile.padded i, ?_,
      .exhausted (h.covers none)⟩
    unfold Task.ask
    rw [read]
    dsimp only
    rw [← Prod.eta (SatBackend.solve backend (Compile.padded i).cnf), answer]

/-! ## All steps -/

/-- A search lists solutions, as many as it may or else all of them. -/
theorem search (honest : SatBackend.Honest σ) (selfCheck : Bool) (n : Nat) (backend : σ)
    (h : Searching p names pins literals found i) :
    ∃ list stats after,
      (Task.mk p selfCheck (literals.map (unknownOf p))).search n found backend i =
        (.ok (list, stats), after) ∧
      Listing p names pins list ∧ list.length ≤ found.length + n ∧
      (list.length = found.length + n ∨ Covers p names pins list) := by
  induction n generalizing found i backend with
  | zero =>
    refine ⟨found.reverse, i.stats, backend, rfl, h.listing.reverse, ?_, .inl ?_⟩
    · rw [List.length_reverse]
      exact Nat.le_refl _
    · rw [List.length_reverse]
      rfl
  | succ n ih =>
    obtain ⟨step, after, j, run, advances⟩ := h.ask honest selfCheck backend
    unfold Task.search
    rw [run]
    cases advances with
    | exhausted covers =>
      refine ⟨found.reverse, j.stats, after, rfl, h.listing.reverse, ?_, .inr covers.reverse⟩
      rw [List.length_reverse]
      exact Nat.le_add_right _ _
    | @last s _ listing covers =>
      refine ⟨(s :: found).reverse, j.stats, after, rfl, listing.reverse, ?_, .inr covers.reverse⟩
      rw [List.length_reverse, List.length_cons]
      omega
    | @found s _ searching =>
      obtain ⟨list, stats, last, rest, listing, most, ends⟩ := ih after searching
      rw [List.length_cons, Nat.succ_add_eq_add_succ] at most ends
      exact ⟨list, stats, last, rest, listing, most, ends⟩

end Searching

end Enumeration

end FiniteStructures
