import FiniteStructures.Enumeration.Solver
import FiniteStructures.Process.Program
import FiniteStructures.Sat.InProcess

/-!
The backends that settings can name: the search of this library, and the programs of the emulation.
-/

namespace FiniteStructures

/-- A program of the emulation as a backend. -/
abbrev ExternalSolver := External Emulation

/-- A backend of either kind. -/
inductive Engine where
  | inProcess (state : InProcess)
  | external (program : ExternalSolver)

namespace Engine

instance : SatBackend Engine where
  name
    | .inProcess b => SatBackend.name b
    | .external s => SatBackend.name s
  clear
    | .inProcess b => .inProcess (SatBackend.clear b)
    | .external s => .external (SatBackend.clear s)
  solve
    | .inProcess b, cnf => (SatBackend.solve b cnf).map id .inProcess
    | .external s, cnf => (SatBackend.solve s cnf).map id .external

end Engine

/-- A backend as it was named, before any call. -/
def BackendSpec.build : BackendSpec → Engine
  | .inProcess => .inProcess .initial
  | .resultFile program => .external (.minisat program)
  | .standardOutput program args => .external ⟨program, args, .standardOutput⟩

/-- A solver as its settings ask for. -/
def Settings.solver (settings : Settings) : Solver Engine :=
  .ofBackend settings.backend.build settings

end FiniteStructures
