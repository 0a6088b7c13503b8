import FiniteStructures.Sat.Backend
import FiniteStructures.Sat.Search.Run

/-!
The backend that searches in the process itself.  Its search holds the clauses of the formula decided
last; the next formula must have them at its beginning, and only the clauses after them are loaded.
What the search learned from the clauses it keeps, for more clauses leave it true.

The backend needs little of its search, and any search that has it may be used (`ModelSearch`).
-/

namespace FiniteStructures

/-- A search for models of clauses that it is given one by one.  It has the clauses that it was given,
in this order, and no others. -/
class ModelSearch (S : Type) where
  /-- The search without clauses. -/
  empty : S
  add : S → Clause → S
  run : S → Verdict × S
  /-- The truth value of a variable in the model that was found; those that the search does not know
  are false. -/
  holds : S → Nat → Bool
  clauses : S → Array Clause
  clauses_empty : clauses empty = #[]
  clauses_add : ∀ s c, clauses (add s c) = (clauses s).push c
  clauses_run : ∀ s, clauses (run s).2 = clauses s

/-- A search, and the number of clauses that were loaded into it. -/
structure Incremental (S : Type) where
  search : S
  loaded : Nat

namespace Incremental

variable {S : Type}

/-- What the backend says of itself. -/
def describe (b : Incremental S) : String := s!"Batsat \x7b loaded: {b.loaded} \x7d"

def name : String := "batsat"

variable [ModelSearch S]

/-- Nothing is loaded. -/
def initial : Incremental S := ⟨ModelSearch.empty, 0⟩

instance : Inhabited (Incremental S) := ⟨initial⟩

/-- Loads the clauses after those that are loaded. -/
def load (b : Incremental S) (cnf : Cnf) : Incremental S :=
  ⟨(cnf.clauses.extract b.loaded cnf.clauses.size).foldl ModelSearch.add b.search,
    cnf.clauses.size⟩

/-- The values of the variables of a formula. -/
def assignment (cnf : Cnf) (search : S) : Assignment :=
  ⟨(Array.range (cnf.numVars + 1)).map (ModelSearch.holds search)⟩

/-- Decides a formula that extends the one decided before. -/
def solve (b : Incremental S) (cnf : Cnf) : Except Error (Option Assignment) × Incremental S :=
  if cnf.clauses.size < b.loaded then (.error (.spent .backend), b)
  else
    let ⟨search, loaded⟩ := b.load cnf
    let (verdict, search) := ModelSearch.run search
    let answer :=
      match verdict with
      | .noModel => .ok none
      | .model => .ok (some (assignment cnf search))
      | .undecided => .error (.backend name .interrupted)
    (answer, ⟨search, loaded⟩)

instance : SatBackend (Incremental S) where
  name _ := name
  clear _ := initial
  solve := solve

end Incremental

/-! ## The search of this library -/

/-- A search together with its clauses, by which a model is looked at once more. -/
structure CheckedSearch where
  clauses : Array Clause
  search : Search

namespace CheckedSearch

/-- More steps than any search in use takes. -/
def patience : Nat := 1152921504606846976

/-- Runs the search; a model in which some clause fails is none. -/
def run (s : CheckedSearch) : Verdict × CheckedSearch :=
  let ⟨clauses, search⟩ := s
  let (verdict, search) := search.run patience
  let verdict :=
    if verdict = .model ∧ ¬ clauses.all search.satisfies then .undecided else verdict
  (verdict, ⟨clauses, search⟩)

instance : ModelSearch CheckedSearch where
  empty := ⟨#[], Search.empty⟩
  add s clause := ⟨s.clauses.push clause, s.search.add clause⟩
  run := run
  holds s := s.search.holds
  clauses := CheckedSearch.clauses
  clauses_empty := rfl
  clauses_add _ _ := rfl
  clauses_run _ := rfl

end CheckedSearch

/-- The backend with the search of this library. -/
abbrev InProcess := Incremental CheckedSearch

end FiniteStructures
