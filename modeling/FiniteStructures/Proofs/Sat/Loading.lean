import FiniteStructures.Sat.InProcess

/-!
Loading clauses after those that are loaded.  While the formulas that a backend decides extend each
other, its search holds the clauses of the formula decided last, as if that formula had been loaded at
once,

    b.Begins cnf  →  ((b.solve cnf).2).Holds cnf      (Incremental.solve_loads)

A `Recorder` keeps the queries of a backend from one clearing to the next.
-/

namespace FiniteStructures

namespace Incremental

variable {S : Type} [ModelSearch S] {b : Incremental S} {cnf : Cnf} {clauses : List Clause}

/-- The clauses of the search are exactly those of the formula, in order, and counted. -/
structure Holds (b : Incremental S) (cnf : Cnf) : Prop where
  formula : ⟨cnf.numVars, ModelSearch.clauses b.search⟩ = cnf
  loaded : b.loaded = cnf.clauses.size

/-- The clauses of the search are the first ones of the list, and counted. -/
structure Begins (b : Incremental S) (clauses : List Clause) : Prop where
  held : (ModelSearch.clauses b.search).toList <+: clauses
  loaded : b.loaded = (ModelSearch.clauses b.search).size

theorem begins_initial (clauses : List Clause) : (initial : Incremental S).Begins clauses := by
  have none : ModelSearch.clauses (initial : Incremental S).search = #[] :=
    ModelSearch.clauses_empty
  refine ⟨?_, ?_⟩
  · rw [none]
    exact List.nil_prefix
  · rw [none]
    rfl

theorem Begins.mono (h : b.Begins clauses) {more : List Clause} (le : clauses <+: more) :
    b.Begins more :=
  ⟨h.held.trans le, h.loaded⟩

theorem Holds.begins (h : b.Holds cnf) : b.Begins cnf.clauses.toList := by
  have same : ModelSearch.clauses b.search = cnf.clauses := congrArg Cnf.clauses h.formula
  refine ⟨⟨[], ?_⟩, ?_⟩
  · rw [List.append_nil, same]
  · rw [same, h.loaded]

/-- A search has the clauses added to it after those that it had. -/
theorem clauses_foldl_add (added : List Clause) (s : S) :
    (ModelSearch.clauses (added.foldl ModelSearch.add s)).toList =
      (ModelSearch.clauses s).toList ++ added := by
  induction added generalizing s with
  | nil => rw [List.append_nil]; rfl
  | cons c added ih =>
    rw [List.foldl_cons, ih, ModelSearch.clauses_add, Array.toList_push, List.append_assoc]
    rfl

/-- Loading the rest of a formula whose first clauses are held gives all of them. -/
theorem clauses_load (h : b.Begins cnf.clauses.toList) :
    ModelSearch.clauses (b.load cnf).search = cnf.clauses := by
  refine Array.ext' ?_
  show (ModelSearch.clauses (Array.foldl _ _ _)).toList = _
  rw [← Array.foldl_toList, clauses_foldl_add, Array.toList_extract, h.loaded, List.extract_eq_take_drop,
    ← Array.length_toList, ← Array.length_toList, List.take_of_length_le (by simp)]
  exact List.prefix_iff_eq_append.mp h.held

/-- A formula that extends the clauses held is loaded as a whole, and is not refused. -/
theorem solve_loads (h : b.Begins cnf.clauses.toList) :
    (b.solve cnf).2.Holds cnf ∧ ∀ what, (b.solve cnf).1 ≠ .error (.spent what) := by
  have enough : ¬ cnf.clauses.size < b.loaded := by
    rw [h.loaded, Nat.not_lt, ← Array.length_toList, ← Array.length_toList]
    exact h.held.length_le
  have whole := clauses_load h
  rcases loads : b.load cnf with ⟨search, loaded⟩
  obtain rfl : cnf.clauses.size = loaded := congrArg Incremental.loaded loads
  rw [loads] at whole
  rcases run : ModelSearch.run search with ⟨verdict, search'⟩
  have kept : ModelSearch.clauses search' = cnf.clauses := by
    have kept := ModelSearch.clauses_run search
    rw [run] at kept
    exact kept.trans whole
  unfold solve
  rw [if_neg enough, loads]
  simp only [run]
  refine ⟨⟨?_, rfl⟩, ?_⟩
  · rw [kept]
  · cases verdict <;> rintro what ⟨⟩

end Incremental

/-! ## Records -/

/-- A formula that a backend was asked about, with its answer and its state after the answer.  A
search changes no clauses, so these are the clauses that it was made on. -/
structure Query (σ : Type) where
  cnf : Cnf
  answer : Except Error (Option Assignment)
  backend : σ

/-- A backend with its queries, the latest first, in one list from each clearing to the next. -/
structure Recorder (σ : Type) where
  backend : σ
  rounds : List (List (Query σ))

namespace Recorder

variable {σ : Type}

/-- A query more in the current list. -/
def note (q : Query σ) : List (List (Query σ)) → List (List (Query σ))
  | [] => [[q]]
  | round :: rounds => (q :: round) :: rounds

instance [SatBackend σ] : SatBackend (Recorder σ) where
  name r := SatBackend.name r.backend
  clear r := ⟨SatBackend.clear r.backend, [] :: r.rounds⟩
  solve r cnf :=
    let (answer, backend) := SatBackend.solve r.backend cnf
    (answer, ⟨backend, note ⟨cnf, answer, backend⟩ r.rounds⟩)

theorem solve_eq [SatBackend σ] (r : Recorder σ) (cnf : Cnf) :
    SatBackend.solve r cnf =
      let (answer, backend) := SatBackend.solve r.backend cnf
      (answer, ⟨backend, note ⟨cnf, answer, backend⟩ r.rounds⟩) := rfl

end Recorder

end FiniteStructures
