import FiniteStructures.Sat.Literal
import FiniteStructures.Text.Blank
import FiniteStructures.Text.Numeral

/-!
The texts in which SAT solvers answer.  A result file has the line `UNSAT`, or the line `SAT` and
after it the literals that hold, up to a zero.  Competition output has one status line `s …` and
value lines `v …` that carry the literals up to a zero; all other lines are comments.  An answer
is a model, or none when the formula has none.
-/

namespace FiniteStructures

namespace Answer

/-- Literals read so far, last first, and whether the terminating zero was seen. -/
structure Reading where
  literals : List Literal
  terminated : Bool
deriving DecidableEq

/-- Reads tokens as literals up to the first zero; what stands after it is not looked at. -/
def readLiterals (numVars : Nat) : List (List Char) → List Literal → Except AnswerError Reading
  | [], read => .ok ⟨read, false⟩
  | token :: rest, read =>
    match number : Text.integer? token with
    | none => .error (.notALiteral (String.ofList token))
    | some n =>
      if zero : n = 0 then .ok ⟨read, true⟩
      else if n.natAbs > numVars then .error (.literalOutOfRange n numVars)
      else readLiterals numVars rest (⟨n, zero, Text.integer?_mem number⟩ :: read)

/-- The model in which the literals read hold. -/
def Reading.model (r : Reading) (numVars : Nat) : Assignment :=
  Assignment.ofLiterals numVars r.literals.reverse

/-- Reads a result file. -/
def ofResultFile (text : List Char) (numVars : Nat) : Except AnswerError (Option Assignment) :=
  match ((Text.lines text).map Text.trim).filter (!·.isEmpty) with
  | [] => .error .emptyResult
  | first :: rest =>
    if first = "UNSAT".toList then .ok none
    else if first = "SAT".toList then do
      let reading ← readLiterals numVars (rest.flatMap Text.words) []
      return some (reading.model numVars)
    else .error (.unexpectedResult (String.ofList first))

/-- What the lines of competition output have said. -/
structure Progress where
  status : Option (List Char)
  reading : Reading
deriving DecidableEq

/-- Takes a trimmed line of competition output into account. -/
def Progress.line (numVars : Nat) (p : Progress) (line : List Char) :
    Except AnswerError Progress :=
  match Text.after? "s ".toList line with
  | some status =>
    if p.status.isSome then .error .repeatedStatus
    else .ok { p with status := some (Text.trim status) }
  | none =>
    match Text.after? "v".toList line with
    | some values =>
      if p.reading.terminated then .error .valuesAfterEnd
      else do
        let reading ← readLiterals numVars (Text.words values) p.reading.literals
        return { p with reading }
    | none => .ok p

/-- Reads competition output. -/
def ofCompetition (text : List Char) (numVars : Nat) :
    Except AnswerError (Option Assignment) := do
  let p ← ((Text.lines text).map Text.trim).foldlM (Progress.line numVars) ⟨none, ⟨[], false⟩⟩
  match p.status with
  | none => .error .noStatus
  | some status =>
    if status = "UNSATISFIABLE".toList then return none
    else if status = "SATISFIABLE".toList then return some (p.reading.model numVars)
    else .error (.undecided (String.ofList status))

end Answer

end FiniteStructures
