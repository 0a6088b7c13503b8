import FiniteStructures.Enumeration.Catalog
import FiniteStructures.Proofs.Sat.Faults
import FiniteStructures.Proofs.Sat.Growth
import FiniteStructures.Proofs.Sat.Loading
import FiniteStructures.Proofs.Tensor.Bounds

/-!
Incremental loading in a solver.  The formula of a search only grows from one query to the next, and a
search starts with a cleared backend.  So at every query the backend holds the whole formula, and it
never refuses one (`Solver.session_loads`), whatever was called before and however it ended.
-/

namespace FiniteStructures

/-! ## Calls of a solver -/

namespace Solver

/-- What a solver can be asked. -/
inductive Call where
  | fix (name : String) (values : Tensor Bool)
  | clearFixed
  | solveAll (p : Problem) (max : Option Nat)

variable {σ : Type} [SatBackend σ]

/-- Calls of one solver in turn, with the outcomes of its searches. -/
def session : List Call → Solver σ → List (Outcome (List Solution)) × Solver σ
  | [], s => ([], s)
  | .fix name values :: calls, s => session calls (s.fix name values)
  | .clearFixed :: calls, s => session calls s.clearFixed
  | .solveAll p max :: calls, s =>
    let (outcome, s) := s.solveAll p max
    let (outcomes, s) := session calls s
    (outcome :: outcomes, s)

/-- The solver with another backend. -/
def withBackend {σ τ : Type} (s : Solver σ) (backend : τ) : Solver τ :=
  ⟨backend, s.settings, s.pins, s.lastStats⟩

/-- The solver, with a record of its queries from now on. -/
def recorded {σ : Type} (s : Solver σ) : Solver (Recorder σ) := s.withBackend ⟨s.backend, []⟩

/-- The solver without its record. -/
def unrecorded {σ : Type} (s : Solver (Recorder σ)) : Solver σ := s.withBackend s.backend.backend

end Solver

/-! ## Records change nothing -/

namespace Enumeration

variable {σ : Type} [SatBackend σ]

theorem Task.ask_unrecorded (task : Task) (found : Nat) (r : Recorder σ) (formula : Instance) :
    task.ask found r.backend formula =
      ((task.ask found r formula).1, (task.ask found r formula).2.1.backend,
        (task.ask found r formula).2.2) := by
  unfold Task.ask
  rcases Compile.formula.exec formula with ⟨e | cnf, j⟩
  · rfl
  · simp only [Recorder.solve_eq]
    rcases SatBackend.solve r.backend cnf with ⟨e | - | model, backend⟩
    · rfl
    · rfl
    · rfl

theorem Task.search_unrecorded (task : Task) (n : Nat) (found : List Solution) (r : Recorder σ)
    (formula : Instance) :
    task.search n found r.backend formula =
      ((task.search n found r formula).1, (task.search n found r formula).2.backend) := by
  induction n generalizing found r formula with
  | zero => rfl
  | succ n ih =>
    unfold Task.search
    rw [task.ask_unrecorded]
    rcases task.ask found.length r formula with ⟨e | ⟨- | s | s⟩, r', j⟩
    · rfl
    · rfl
    · exact ih (s :: found) r' j
    · rfl

end Enumeration

namespace Solver

open Enumeration

variable {σ : Type} [SatBackend σ]

/-- How a call ends, given how its search does. -/
def conclude (s : Solver σ) : Outcome (List Solution × Stats) × σ →
    Outcome (List Solution) × Solver σ
  | (.error fault, backend) => (.error fault, { s with backend })
  | (.ok (solutions, stats), backend) => (.ok solutions, { s with backend, lastStats := some stats })

/-- A call prepares the formula and then searches with a cleared backend; a formula that cannot be
prepared ends it before any query. -/
theorem solveAll_cases (s : Solver σ) (p : Problem) (max : Option Nat) :
    (∃ e i, (prepare p s.pins).exec Instance.initial = (.error e, i) ∧
      s.solveAll p max = (.error e, { s with backend := SatBackend.clear s.backend })) ∨
    ∃ unknowns formula, (prepare p s.pins).exec Instance.initial = (.ok unknowns, formula) ∧
      s.solveAll p max = s.conclude (Task.search ⟨p, s.settings.selfCheck, unknowns⟩
        ((max <|> s.settings.maxSolutions).getD (patience unknowns)) []
        (SatBackend.clear s.backend) formula) := by
  unfold solveAll
  dsimp only
  rcases (prepare p s.pins).exec Instance.initial with ⟨e | unknowns, formula⟩
  · exact .inl ⟨e, formula, rfl, rfl⟩
  · refine .inr ⟨unknowns, formula, rfl, ?_⟩
    dsimp only
    rcases Task.search _ _ [] (SatBackend.clear s.backend) formula with ⟨e | ⟨found, stats⟩, r⟩
    · rfl
    · rfl

omit [SatBackend σ] in
theorem conclude_unrecorded (s : Solver (Recorder σ)) (o : Outcome (List Solution × Stats))
    (r : Recorder σ) :
    s.unrecorded.conclude (o, r.backend) =
      ((s.conclude (o, r)).1, (s.conclude (o, r)).2.unrecorded) := by
  cases o <;> rfl

theorem solveAll_unrecorded (s : Solver (Recorder σ)) (p : Problem) (max : Option Nat) :
    s.unrecorded.solveAll p max = ((s.solveAll p max).1, (s.solveAll p max).2.unrecorded) := by
  rcases s.solveAll_cases p max with ⟨e, i, run, ends⟩ | ⟨unknowns, formula, run, ends⟩ <;>
    rcases s.unrecorded.solveAll_cases p max with ⟨e', i', run', ends'⟩ |
      ⟨unknowns', formula', run', ends'⟩
  · cases run.symm.trans run'
    rw [ends, ends']
    rfl
  · cases run.symm.trans run'
  · cases run.symm.trans run'
  · cases run.symm.trans run'
    rw [ends, ends']
    exact (congrArg s.unrecorded.conclude (Task.search_unrecorded _ _ [] (SatBackend.clear s.backend)
      formula)).trans (s.conclude_unrecorded _ _)

/-- A record changes nothing. -/
theorem session_unrecorded (calls : List Call) (s : Solver (Recorder σ)) :
    session calls s.unrecorded = ((session calls s).1, (session calls s).2.unrecorded) := by
  induction calls generalizing s with
  | nil => rfl
  | cons call calls ih =>
    cases call with
    | fix name values => exact ih (s.fix name values)
    | clearFixed => exact ih s.clearFixed
    | solveAll p max =>
      unfold session
      rw [solveAll_unrecorded]
      dsimp only
      rw [ih]

end Solver


/-! ## What the solver does itself -/

/-- The problem itself ends with the fault, in one of its parts. -/
def Problem.Reports (p : Problem) (e : Fault) : Prop :=
  p.unknowns = .error e ∨ (∃ literals i, ((p.compile literals).exec i).1 = .error e) ∨
    ∃ s, p.check s = .error e

namespace Enumeration

open Compile

/-- The fault says that something must be cleared only where the problem itself says so. -/
def Owed (p : Problem) (e : Fault) : Prop := ∀ what, e = .error (.spent what) → p.Reports e

variable {p : Problem} {e : Fault}

theorem owed_of_ne (h : ∀ what, e ≠ .error (.spent what)) : Owed p e :=
  fun what he => absurd he (h what)

theorem owed_of_reports (h : p.Reports e) : Owed p e := fun _ _ => h

theorem owed_of_broken (h : Broken e) : Owed p e := by
  rcases h with rfl | ⟨v, rfl⟩
  · exact owed_of_ne nofun
  · exact owed_of_ne nofun

theorem owed_of_storable {shape : List Nat} (h : Shape.storable shape = .error e) : Owed p e := by
  rcases Shape.storable_error h with rfl | rfl
  · exact owed_of_ne nofun
  · exact owed_of_ne nofun

/-- No call to the formula says that something must be cleared. -/
theorem closed_owed : Closed (Fails (Owed p)) := closed_fails fun _ => owed_of_broken

theorem fails_mintAll (names : Named (List Nat)) : Fails (Owed p) (mint names) := by
  refine .mapM (fun u => .bind ?_ fun t => .pure _) names
  exact closed_owed.freshTensor (.lift fun _ => owed_of_storable)

theorem owed_of_unknown {literals : Named (Tensor Literal)} {name : String}
    (h : literals.unknown name = .error e) : Owed p e := by
  unfold Named.unknown at h
  split at h
  · cases h
  · cases h
    exact owed_of_ne nofun

theorem fails_pin (literals : Named (Tensor Literal)) (name : String) (values : Tensor Bool) :
    Fails (Owed p) (pin literals name values) := by
  refine .bind (.lift fun _ => owed_of_unknown) fun t => .guard (fun _ => .lift ?_) ?_
  · rintro e ⟨⟩
    exact owed_of_ne nofun
  · refine .forM ?_ _
    rintro ⟨l, value⟩
    refine .ite (fun _ => .bind (.pure l) closed_owed.ensure) fun _ => ?_
    exact .bind (closed_owed.neg l) closed_owed.ensure

theorem owed_of_markRelevant {name : String} {t : Tensor Literal}
    (h : markRelevant p name t = .error e) : Owed p e := by
  unfold markRelevant at h
  split at h
  · cases h
  · split at h
    · cases h
      exact owed_of_ne nofun
    · cases h

theorem fails_prepare (pins : Solution) : Fails (Owed p) (prepare p pins) := by
  refine .bind (.lift fun e he => owed_of_reports (.inl he)) fun names => ?_
  refine .bind (fails_mintAll names) fun literals => ?_
  refine .bind (.forM (fun (name, values) => fails_pin literals name values) pins) fun _ => ?_
  refine .bind (fun i e he => owed_of_reports (.inr (.inl ⟨literals, i, he⟩))) fun root => ?_
  refine .bind (closed_owed.ensure root) fun _ => ?_
  exact .mapM (fun (name, t) => .lift fun _ => owed_of_markRelevant) literals

theorem owed_of_value {model : Assignment} {l : Literal} (h : model.value l = .error e) :
    Owed p e := by
  unfold Assignment.value at h
  split at h
  · cases h
  · cases found : model.values[l.var]? with
    | none =>
      rw [found] at h
      cases h
      exact owed_of_ne nofun
    | some b =>
      rw [found] at h
      cases h

theorem fails_decode (unknowns : List Unknown) (model : Assignment) :
    Fails (Owed p) (decode unknowns model) := by
  have value (l : Literal) : Fails (Owed p) (model.value l) := fun _ _ => owed_of_value
  refine .mapM (fun u => ?_) unknowns
  exact .bind (.tensor value u.literals) fun _ => .pure _

/-- What is done with a solution that passed the check. -/
def settle (unknowns : List Unknown) (s : Solution) : Compile Step := do
  match ← exclude unknowns s with
  | [] => return .last s
  | clause =>
    addClause clause
    return .found s

variable {Q : {α : Type} → Compile α → Prop}

/-- Excluding a solution takes gates and clauses only. -/
theorem closed_settle (h : Closed Q) (gates : ∀ (g : Gate) (key : Literal × Literal), Q (g.get key))
    (unknowns : List Unknown) (s : Solution) : Q (settle unknowns s) := by
  have excluded : Q (exclude unknowns s) :=
    h.bind (h.mapM (fun (l, _) => h.connect gates .xor l _) _) fun _ => h.pure _
  refine h.bind excluded fun clause => ?_
  cases clause with
  | nil => exact h.pure _
  | cons l clause => exact h.bind (h.addClause _) fun _ => h.pure _

/-- A model of the formula is read and checked before it is excluded. -/
theorem closed_accept (h : Closed Q) (gates : ∀ (g : Gate) (key : Literal × Literal), Q (g.get key))
    {selfCheck : Bool} {unknowns : List Unknown} {position : Nat} {model : Assignment}
    (decoded : Q (liftM (decode unknowns model) : Compile Solution))
    (checked : ∀ s, Q (liftM (p.check s) : Compile Bool))
    (rejected : Q (liftM (Outcome.fail (.violation (.rejectedModel position)) : Outcome Unit) :
      Compile Unit)) :
    Q (accept p selfCheck unknowns position model) := by
  refine h.bind decoded fun s => ?_
  have settled := closed_settle h gates unknowns s
  refine Sequential.ite (h.bind (checked s) fun _ => ?_) settled
  exact Sequential.ite (h.bind rejected fun _ => settled) settled

theorem adds_accept (selfCheck : Bool) (unknowns : List Unknown) (position : Nat)
    (model : Assignment) : Adds (accept p selfCheck unknowns position model) :=
  closed_accept closed_adds adds_gate (adds_lift _) (fun _ => adds_lift _) (adds_lift _)

theorem fails_accept (selfCheck : Bool) (unknowns : List Unknown) (position : Nat)
    (model : Assignment) : Fails (Owed p) (accept p selfCheck unknowns position model) := by
  refine closed_accept closed_owed (fails_gate fun _ => owed_of_broken) (.lift fun e he => ?_)
    (fun s => .lift fun e he => ?_) (.lift ?_)
  · exact fails_decode unknowns model () e he
  · exact owed_of_reports (.inr (.inr ⟨s, he⟩))
  · rintro e ⟨⟩
    exact owed_of_ne nofun

end Enumeration

/-! ## One search -/

open Compile in
theorem Compile.clauses_formula {i j : Instance} {cnf : Cnf}
    (h : formula.exec i = (.ok cnf, j)) : cnf.clauses = j.clauses := by
  unfold formula at h
  rw [exec_bind, exec_get] at h
  dsimp only at h
  rw [exec_bind] at h
  split at h
  · cases h
    rfl
  · cases h

variable {S : Type} [ModelSearch S]

/-- The queries of one search, the latest first.  The backend held the formula at each of them and
refused none, and each formula begins with the clauses of those before it. -/
structure Query.Sound (queries : List (Query (Incremental S))) : Prop where
  holds : ∀ q ∈ queries, q.backend.Holds q.cnf
  served : ∀ q ∈ queries, ∀ what, q.answer ≠ .error (.spent what)
  grows : queries.Pairwise fun later earlier =>
    earlier.cnf.clauses.toList <+: later.cnf.clauses.toList

/-- A search is under way, after other searches.  The backend and its queries have nothing that the
formula does not begin with. -/
structure Recorder.Tracks (r : Recorder (Incremental S))
    (earlier : List (List (Query (Incremental S)))) (formula : Instance) : Prop where
  begins : r.backend.Begins formula.clauses.toList
  queries : ∃ queries, r.rounds = queries :: earlier ∧ Query.Sound queries ∧
    ∀ q ∈ queries, q.cnf.clauses.toList <+: formula.clauses.toList

namespace Recorder

variable {r : Recorder (Incremental S)} {earlier : List (List (Query (Incremental S)))}
  {i j : Instance}

theorem tracks_clear (r : Recorder (Incremental S)) (i : Instance) :
    (SatBackend.clear r).Tracks r.rounds i :=
  ⟨Incremental.begins_initial _, [], rfl, ⟨nofun, nofun, .nil⟩, nofun⟩

/-- A formula that grows is still tracked. -/
theorem Tracks.mono (h : r.Tracks earlier i) (le : i.Grows j) : r.Tracks earlier j := by
  obtain ⟨queries, rounds, sound, begin⟩ := h.queries
  exact ⟨h.begins.mono le.clauses, queries, rounds, sound, fun q hq => (begin q hq).trans le.clauses⟩

/-- A query about the formula tracked. -/
theorem Tracks.solve (h : r.Tracks earlier i) {cnf : Cnf} (hc : cnf.clauses = i.clauses) :
    (SatBackend.solve r cnf).2.Tracks earlier i ∧
      ∀ what, (SatBackend.solve r cnf).1 ≠ .error (.spent what) := by
  obtain ⟨queries, rounds, sound, begin⟩ := h.queries
  have begins : r.backend.Begins cnf.clauses.toList := by
    rw [hc]
    exact h.begins
  obtain ⟨holds, served⟩ := Incremental.solve_loads begins
  refine ⟨⟨?_, ?_⟩, served⟩
  · rw [← hc]
    exact holds.begins
  · refine ⟨⟨cnf, (r.backend.solve cnf).1, (r.backend.solve cnf).2⟩ :: queries, ?_, ⟨?_, ?_, ?_⟩, ?_⟩
    · show note _ r.rounds = _
      rw [rounds]
      rfl
    · exact List.forall_mem_cons.mpr ⟨holds, sound.holds⟩
    · exact List.forall_mem_cons.mpr ⟨served, sound.served⟩
    · exact .cons (fun q hq => hc ▸ begin q hq) sound.grows
    · exact List.forall_mem_cons.mpr ⟨hc ▸ List.prefix_rfl, begin⟩

end Recorder

namespace Enumeration

variable {task : Task} {found : Nat} {r r' : Recorder (Incremental S)}
  {earlier : List (List (Query (Incremental S)))} {i i' : Instance}

/-- A step of a search keeps track of the formula. -/
theorem Task.ask_tracks {outcome : Outcome Step} (h : r.Tracks earlier i)
    (run : task.ask found r i = (outcome, r', i')) :
    r'.Tracks earlier i' ∧ ∀ e, outcome = .error e → Owed task.problem e := by
  have padded := Compile.closed_adds.formula i
  have broken := (Compile.closed_fails fun _ => id).formula i
  unfold Task.ask at run
  rcases read : Compile.formula.exec i with ⟨e | cnf, j⟩
  · rw [read] at run padded
    cases run
    refine ⟨h.mono padded, ?_⟩
    rintro e ⟨⟩
    exact owed_of_broken (broken e (congrArg Prod.fst read))
  rw [read] at run padded
  obtain ⟨tracked, served⟩ := (h.mono padded).solve (Compile.clauses_formula read)
  rcases asked : SatBackend.solve r cnf with ⟨e | - | model, b⟩
  · rw [asked] at tracked served
    simp only [asked] at run
    cases run
    refine ⟨tracked, ?_⟩
    rintro e ⟨⟩
    exact owed_of_ne fun what he => served what (by injection he with he; rw [he])
  · rw [asked] at tracked
    simp only [asked] at run
    cases run
    exact ⟨tracked, nofun⟩
  · rw [asked] at tracked
    simp only [asked] at run
    cases run
    refine ⟨tracked.mono (adds_accept _ _ _ _ j), fun e he => ?_⟩
    exact fails_accept _ _ _ _ j e he

/-- So does a whole search. -/
theorem Task.search_tracks {n : Nat} {solutions : List Solution}
    {outcome : Outcome (List Solution × Stats)} (h : r.Tracks earlier i)
    (run : task.search n solutions r i = (outcome, r')) :
    (∃ j, r'.Tracks earlier j) ∧ ∀ e, outcome = .error e → Owed task.problem e := by
  induction n generalizing solutions r i with
  | zero =>
    cases run
    exact ⟨⟨i, h⟩, nofun⟩
  | succ n ih =>
    unfold Task.search at run
    rcases step : task.ask solutions.length r i with ⟨e | ⟨- | s | s⟩, r'', j⟩ <;>
      obtain ⟨tracked, owed⟩ := task.ask_tracks h step <;>
      rw [step] at run
    · cases run
      refine ⟨⟨j, tracked⟩, ?_⟩
      rintro e ⟨⟩
      exact owed e rfl
    · cases run
      exact ⟨⟨j, tracked⟩, nofun⟩
    · exact ih tracked run
    · cases run
      exact ⟨⟨j, tracked⟩, nofun⟩

end Enumeration

/-! ## Sessions -/

namespace Solver

open Enumeration

/-- A call of a solver keeps the records of earlier calls and adds its own. -/
theorem solveAll_loads (s : Solver (Recorder (Incremental S))) (p : Problem) (max : Option Nat) :
    (∃ queries, (s.solveAll p max).2.backend.rounds = queries :: s.backend.rounds ∧
      Query.Sound queries) ∧ ∀ e, (s.solveAll p max).1 = .error e → Owed p e := by
  have cleared (i : Instance) := s.backend.tracks_clear i
  rcases s.solveAll_cases p max with ⟨e, i, run, ends⟩ | ⟨unknowns, i, run, ends⟩
  · rw [ends]
    refine ⟨⟨[], rfl, ⟨nofun, nofun, .nil⟩⟩, ?_⟩
    rintro e ⟨⟩
    exact fails_prepare s.pins _ e (congrArg Prod.fst run)
  · rw [ends]
    rcases searched : Task.search _ _ [] (SatBackend.clear s.backend) i with ⟨o, r⟩
    obtain ⟨⟨j, tracked⟩, owed⟩ := Task.search_tracks (cleared i) searched
    obtain ⟨queries, rounds, sound, -⟩ := tracked.queries
    cases o with
    | error e =>
      refine ⟨⟨queries, rounds, sound⟩, ?_⟩
      rintro e ⟨⟩
      exact owed e rfl
    | ok found => exact ⟨⟨queries, rounds, sound⟩, nofun⟩

/-- The problem that a call is about. -/
def Call.problem? : Call → Option Problem
  | .solveAll p _ => some p
  | _ => none

theorem session_sound (calls : List Call) (s : Solver (Recorder (Incremental S))) :
    (∃ searches, (session calls s).2.backend.rounds = searches ++ s.backend.rounds ∧
      searches.length = (session calls s).1.length ∧
      ∀ queries ∈ searches, Query.Sound queries) ∧
    List.Forall₂ (fun p outcome => ∀ e, outcome = .error e → Owed p e)
      (calls.filterMap Call.problem?) (session calls s).1 := by
  induction calls generalizing s with
  | nil => exact ⟨⟨[], rfl, rfl, nofun⟩, .nil⟩
  | cons call calls ih =>
    cases call with
    | fix name values => exact ih (s.fix name values)
    | clearFixed => exact ih s.clearFixed
    | solveAll p max =>
      obtain ⟨⟨queries, rounds, sound⟩, owed⟩ := s.solveAll_loads p max
      obtain ⟨⟨searches, later, same, all⟩, rest⟩ := ih (s.solveAll p max).2
      refine ⟨⟨searches ++ [queries], ?_, ?_, ?_⟩, .cons owed rest⟩
      · show (session calls (s.solveAll p max).2).2.backend.rounds = _
        rw [later, rounds, List.append_assoc]
        rfl
      · rw [List.length_append, same]
        rfl
      · exact List.forall_mem_append.mpr ⟨all, List.forall_mem_singleton.mpr sound⟩

/-- Whatever a solver is asked, and however its searches end, each search has its own list of
queries; at every query the backend holds exactly the clauses of the formula, in order, and does not
refuse it; the formula begins with the clauses of those before it in the search.  A search says that
something must be cleared only where its problem itself does. -/
theorem session_loads (s : Solver (Incremental S)) (calls : List Call) :
    let (outcomes, t) := session calls s.recorded
    session calls s = (outcomes, t.unrecorded) ∧
    t.backend.rounds.length = outcomes.length ∧
    (∀ queries ∈ t.backend.rounds, Query.Sound queries) ∧
    List.Forall₂ (fun p outcome =>
        ∀ what, outcome = .error (.error (.spent what)) → p.Reports (.error (.spent what)))
      (calls.filterMap Call.problem?) outcomes := by
  obtain ⟨⟨searches, rounds, same, sound⟩, owed⟩ := session_sound calls s.recorded
  rw [show s.recorded.backend.rounds = [] from rfl, List.append_nil] at rounds
  refine ⟨session_unrecorded calls s.recorded, ?_, ?_, ?_⟩
  · rw [rounds, same]
  · rw [rounds]
    exact sound
  · exact owed.imp fun _ _ owed what he => owed (.error (.spent what)) he what rfl

/-- Two searches, and between them one with a pin that has no unknown. -/
def oneElementCalls : List Call :=
  [.solveAll (.functions 1 1) none, .fix "rel" ⟨[1], [true], rfl⟩, .solveAll (.functions 1 1) none,
    .clearFixed, .solveAll (.functions 1 2) none]

/-- Both searches ask twice, the second time with the clause that excludes the solution.  The search
between them ends before it asks. -/
theorem session_loads_one_element :
    let s : Solver InProcess := .ofBackend .initial {}
    let r := session oneElementCalls s.recorded
    r.1.map (fun outcome => outcome.toOption.map List.length) = [some 1, none, some 1] ∧
      r.2.backend.rounds.map (List.map fun q => q.cnf.clauses.size) = [[3, 2], [], [3, 2]] ∧
      ∀ queries ∈ r.2.backend.rounds, ∀ q ∈ queries, q.backend.Holds q.cnf := by
  intro s
  refine ⟨by decide +kernel, by decide +kernel, ?_⟩
  rcases run : session oneElementCalls s.recorded with ⟨outcomes, t⟩
  obtain ⟨-, -, sound, -⟩ := run ▸ session_loads s oneElementCalls
  exact fun queries hq => (sound queries hq).holds

end Solver

end FiniteStructures
