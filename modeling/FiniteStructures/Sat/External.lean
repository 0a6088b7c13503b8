import FiniteStructures.Sat.Answer
import FiniteStructures.Sat.Backend
import FiniteStructures.Text.Utf8

/-!
Backends that run a solver program.  The formula is written to a file whose path is the
program's last argument, or the one before the path of the result file.  By the convention of the
solver competitions the codes 10 and 20 are verdicts; with 0 they are the codes of a run that
went well.

The programs are no part of this library.  A backend has them run by a platform, of which it needs no
more than how a run ended and what it left (`Platform`).
-/

namespace FiniteStructures

/-- How a program ended and what it left. -/
structure Finish where
  /-- No code when the program was killed. -/
  code : Option Nat
  output : List UInt8
  complaints : List UInt8
  /-- The content of a file after the run. -/
  file? : String → Option (List UInt8)

/-- What runs programs.  A program gets arguments and files, if it can be launched at all. -/
class Platform (P : Type) where
  launch : (program : String) → (args : List String) → (files : List (String × List UInt8)) →
    Except SystemError Finish

/-- Where a program reports its answer. -/
inductive OutputStyle where
  | resultFile
  | standardOutput
deriving DecidableEq, Repr

/-- A solver program, run once for every formula by a platform. -/
structure External (P : Type) where
  program : String
  args : List String
  style : OutputStyle
deriving DecidableEq, Repr

namespace External

variable {P : Type}

/-- A program that takes the two paths only and writes a result file. -/
def minisat (program : String) : External P := ⟨program, [], .resultFile⟩

/-- The file with the formula. -/
def inputPath : String := "/tmp/formula/input.cnf"

/-- The file for the answer. -/
def resultPath : String := "/tmp/formula/result.txt"

/-- A code of a run that went well. -/
def succeeded (code : Option Nat) : Bool := code = some 0 || code = some 10 || code = some 20

/-- The answer in what a program left. -/
def readAnswer (s : External P) (numVars : Nat) (finish : Finish) :
    Except BackendFailure (Option Assignment) :=
  if ¬ succeeded finish.code then
    .error (.exit finish.code
      (String.ofList (Text.trim (Text.decodeForgiving finish.complaints))))
  else
    match s.style with
    | .resultFile =>
      match finish.file? resultPath with
      | none => .error (.system .notFound)
      | some bytes =>
        match Text.decodeStrict? bytes with
        | none => .error (.system .notUnicode)
        | some text => (Answer.ofResultFile text numVars).mapError .answer
    | .standardOutput =>
      (Answer.ofCompetition (Text.decodeForgiving finish.output) numVars).mapError .answer

variable [Platform P]

/-- Runs the program on a formula. -/
def decide (s : External P) (cnf : Cnf) : Except BackendFailure (Option Assignment) := do
  let paths := if s.style = .resultFile then [inputPath, resultPath] else [inputPath]
  let finish ← (Platform.launch (P := P) s.program (s.args ++ paths)
    [(inputPath, Text.encode cnf.toDimacs)]).mapError .system
  s.readAnswer cnf.numVars finish

instance : SatBackend (External P) where
  name s := s.program
  clear s := s
  solve s cnf := ((s.decide cnf).mapError (.backend s.program), s)

end External

end FiniteStructures
