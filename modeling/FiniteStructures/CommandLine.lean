import FiniteStructures.Enumeration.Catalog
import FiniteStructures.Enumeration.Engine

/-!
The command line: a problem, the size of the set, and options.  The arguments are read from left
to right; the first one that is wrong, or that asks for help or for the version, decides.
-/

namespace FiniteStructures

namespace CommandLine

def version : String := "0.1.0"

/-- Why the arguments are not understood. -/
inductive UsageError where
  | maxMissing
  | maxNotACount (value : String)
  | backendMissing
  | setting (cause : SettingError)
  | unknownOption (argument : String)
  | wrongPositionals
  | sizeNotACount (value : String)
deriving DecidableEq, Repr

def UsageError.message : UsageError → String
  | .maxMissing => "--max requires a count"
  | .maxNotACount value => s!"--max expects a count, got '{value}'"
  | .backendMissing => "--backend requires a spec"
  | .setting cause => (Error.setting cause).message
  | .unknownOption argument => s!"Unknown option '{argument}'"
  | .wrongPositionals => "expected <problem> <size>"
  | .sizeNotACount value => s!"size must be a count, got '{value}'"

/-- Options given so far. -/
structure Options where
  max : Option Nat := none
  backend : Option BackendSpec := none
  print : Bool := false
deriving DecidableEq, Repr

/-- What the arguments ask for. -/
inductive Request where
  | help
  | version
  | enumerate (problem : Catalog) (size : Nat) (options : Options)
deriving DecidableEq, Repr

/-- Reads the problem and the size. -/
def readPositionals (options : Options) : List String → Except UsageError Request
  | [problem, size] => do
    let problem ← (Catalog.ofName problem).mapError .setting
    match Text.count? size.toList with
    | some n => return .enumerate problem n options
    | none => .error (.sizeNotACount size)
  | _ => .error .wrongPositionals

/-- Reads arguments; `positionals` are those before them that are no options. -/
def read (options : Options) (positionals : List String) : List String → Except UsageError Request
  | [] => readPositionals options positionals
  | ["--max"] => .error .maxMissing
  | "--max" :: value :: rest =>
    match Text.count? value.toList with
    | some n => read { options with max := some n } positionals rest
    | none => .error (.maxNotACount value)
  | ["--backend"] => .error .backendMissing
  | "--backend" :: value :: rest =>
    match BackendSpec.parse value with
    | .ok spec => read { options with backend := some spec } positionals rest
    | .error cause => .error (.setting cause)
  | argument :: rest =>
    if argument = "--print" then read { options with print := true } positionals rest
    else if argument = "-h" ∨ argument = "--help" then .ok .help
    else if argument = "-v" ∨ argument = "--version" then .ok .version
    else if argument.toList.head? = some '-' then .error (.unknownOption argument)
    else read options (positionals ++ [argument]) rest

/-- What a run leaves: an exit code, and lines for the two channels. -/
structure Report where
  code : Nat
  output : List String
  complaints : List String
deriving DecidableEq, Repr

def versionLine : String := "relsat v" ++ version

def helpLines : List String :=
  [versionLine ++ " - enumerate finite structures with a SAT solver",
    "",
    "Usage: relsat <problem> <size> [OPTIONS]",
    "",
    "Problems:"] ++
  Catalog.members.map (fun c => "  " ++ c.name) ++
  ["",
    "Options:",
    "  --max <n>          Stop after n solutions",
    "  --backend <spec>   batsat (default), minisat[:PROG], dimacs:PROG [ARGS]",
    "  --print            Print every solution",
    "  -h, --help         Show this help message",
    "  -v, --version      Show version",
    "",
    "Environment:",
    "  RELSAT_BACKEND, RELSAT_MAX_SOLUTIONS   defaults for --backend and --max",
    "  RUST_LOG                               log filter, e.g. relsat=debug"]

/-- The report on arguments or settings that are not understood. -/
def usageReport (message : String) : Report :=
  ⟨1, [], ["Error: " ++ message, "Try 'relsat --help' for usage information"]⟩

/-- The lines of all solutions, each after its number. -/
def solutionLines (solutions : List Solution) : List String :=
  solutions.zipIdx.flatMap fun (s, i) => s!"#{i + 1}" :: s.lines

def statsLine (stats : Stats) : String :=
  s!"{stats.vars} variables, {stats.clauses} clauses " ++
    s!"({stats.orGates} or, {stats.xorGates} xor gates)"

/-- The report on a fault.  Only errors are foreseen; other faults end the program like an
assertion that failed. -/
def faultReport : Fault → Report
  | .error cause => ⟨1, [], ["Error: " ++ cause.message]⟩
  | .overflow => ⟨101, [], ["number out of range"]⟩
  | .misuse what => ⟨101, [], [what.message?.getD "position out of range"]⟩

/-- Enumerates the solutions of a problem. -/
def enumerate (problem : Catalog) (size : Nat) (print : Bool) (settings : Settings) : Report :=
  match settings.solver.solveAll (problem.problem size) none with
  | (.error fault, _) => faultReport fault
  | (.ok solutions, solver) =>
    { code := 0
      output := (if print then solutionLines solutions else []) ++
        [s!"{solutions.length} {problem.name} on {size} elements"]
      complaints := (solver.lastStats.map statsLine).toList }

/-- The settings of the environment, overridden by options. -/
def configure (options : Options) (environment : String → Option String) :
    Except SettingError Settings := do
  let settings ← Settings.ofEnvironment environment
  return { settings with
    backend := options.backend.getD settings.backend
    maxSolutions := options.max <|> settings.maxSolutions }

/-- Runs the program on arguments in an environment. -/
def run (arguments : List String) (environment : String → Option String) : Report :=
  match read {} [] arguments with
  | .error cause => usageReport cause.message
  | .ok .help => ⟨0, helpLines, []⟩
  | .ok .version => ⟨0, [versionLine], []⟩
  | .ok (.enumerate problem size options) =>
    match configure options environment with
    | .error cause => usageReport (Error.setting cause).message
    | .ok settings => enumerate problem size options.print settings

end CommandLine

end FiniteStructures
