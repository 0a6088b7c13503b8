/-!
What can go wrong.  An `Error` is a cause that the caller can be told about: a misuse of the
algebra, a failing SAT backend, an unreadable setting.  A `Fault` is any way for a computation
to stop without a value: an error, a number that leaves its range, or a broken promise of the
caller (`Misuse`).

    Error.message    the one place where errors are put into words
    Misuse.message?  the same for broken promises; some have no words
-/

namespace FiniteStructures

/-- A list in brackets with a comma and a blank between its members: `[2, 3]`. -/
def showList (numbers : List Nat) : String :=
  "[" ++ ", ".intercalate (numbers.map toString) ++ "]"

/-- A character in quotes; those that a source text escapes are escaped. -/
def quote (c : Char) : String :=
  match c with
  | '\'' => "'\\''"
  | '\\' => "'\\\\'"
  | '\n' => "'\\n'"
  | '\r' => "'\\r'"
  | '\t' => "'\\t'"
  | '\x00' => "'\\0'"
  | c => "'" ++ c.toString ++ "'"

/-- Characters in brackets, as `showList` has numbers: `['i', 'k']`. -/
def showVars (vars : List Char) : String :=
  "[" ++ ", ".intercalate (vars.map quote) ++ "]"

/-! ## Errors -/

/-- Why the text a SAT solver wrote is not an answer. -/
inductive AnswerError where
  | notALiteral (token : String)
  | literalOutOfRange (literal : Int) (numVars : Nat)
  | emptyResult
  | unexpectedResult (line : String)
  | repeatedStatus
  | valuesAfterEnd
  | noStatus
  | undecided (status : String)
deriving DecidableEq, Repr

def AnswerError.message : AnswerError → String
  | .notALiteral token => s!"expected a literal, found '{token}'"
  | .literalOutOfRange literal numVars =>
    s!"literal {literal} outside the {numVars} declared variables"
  | .emptyResult => "empty result file"
  | .unexpectedResult line => s!"unexpected result '{line}'"
  | .repeatedStatus => "more than one status line"
  | .valuesAfterEnd => "values after the terminating 0"
  | .noStatus => "no status line"
  | .undecided status => s!"solver answered '{status}'"

/-- Why the system could not start a program or read a file. -/
inductive SystemError where
  | notFound
  | permissionDenied
  | notADirectory
  | nameTooLong
  | nulByte
  | notUnicode
deriving DecidableEq, Repr

def SystemError.message : SystemError → String
  | .notFound => "No such file or directory (os error 2)"
  | .permissionDenied => "Permission denied (os error 13)"
  | .notADirectory => "Not a directory (os error 20)"
  | .nameTooLong => "File name too long (os error 36)"
  | .nulByte => "nul byte found in provided data"
  | .notUnicode => "stream did not contain valid UTF-8"

/-- Why a SAT backend gave no answer. -/
inductive BackendFailure where
  | answer (cause : AnswerError)
  | system (cause : SystemError)
  /-- The program ended with a status that is no verdict; no code means it was killed. -/
  | exit (code : Option Nat) (complaint : String)
  | interrupted
deriving DecidableEq, Repr

def BackendFailure.message : BackendFailure → String
  | .answer cause => cause.message
  | .system cause => cause.message
  | .exit (some code) complaint => s!"exited with Some({code}): {complaint}"
  | .exit none complaint => s!"exited with None: {complaint}"
  | .interrupted => "solver was interrupted"

/-- Why a setting or a name could not be read. -/
inductive SettingError where
  | unknownBackend (spec : String)
  | programMissing
  | notACount (name : String) (value : String)
  | unknownProblem (name : String)
  | other (reason : String)
deriving DecidableEq, Repr

def SettingError.message : SettingError → String
  | .unknownBackend spec => s!"unknown backend '{spec}'"
  | .programMissing => "dimacs backend needs a program"
  | .notACount name value => s!"{name} must be a count, got '{value}'"
  | .unknownProblem name => s!"unknown problem '{name}'"
  | .other reason => reason

/-- Combinations of arities that are not implemented. -/
inductive Unsupported where
  | contraction (needed available : Nat)
  | relationArity (arity : Nat)
  | operationArity (arity : Nat)
deriving DecidableEq, Repr

def Unsupported.message : Unsupported → String
  | .contraction needed available =>
    s!"contraction needs {needed} variables, at most {available} available"
  | .relationArity arity => s!"preservation of relations of arity {arity}"
  | .operationArity arity => s!"preservation by operations of arity {arity}"

/-- Objects that must be cleared before they are used again. -/
inductive Spent where
  | contraction
  | backend
deriving DecidableEq, Repr

def Spent.message : Spent → String
  | .contraction => "contract used after a failed query without clear()"
  | .backend => "backend received a shorter formula than it already holds"

/-- Concrete values that do not have the property their wrapper promises. -/
inductive Invalid where
  | axisOrder (axes : List Nat)
  | operationGraph
  | permutationImages (images : List Nat)
  | permutationGraph
  | partialOrder
  | unknownName (name : String)
deriving DecidableEq, Repr

def Invalid.message : Invalid → String
  | .axisOrder axes =>
    s!"axis permutation: {showList axes} is not a permutation of 0..{axes.length}"
  | .operationGraph => "operation: some argument tuple does not have exactly one value"
  | .permutationImages images =>
    s!"permutation: {showList images} is not a bijection of 0..{images.length}"
  | .permutationGraph => "permutation: graph is not a bijection"
  | .partialOrder => "partial order: relation is not reflexive, antisymmetric and transitive"
  | .unknownName name => s!"unknown: no unknown named '{name}'"

/-- Internal checks.  Only a wrong answer of a backend can make the first one fail, and nothing the
others. -/
inductive Violation where
  /-- The model found at this position does not satisfy the predicate. -/
  | rejectedModel (position : Nat)
  | lostEntries
  /-- The last entry of a contraction has another number of variables than the result. -/
  | leftOver (vars result : List Char)
  /-- A variable of the last entry is none of the result. -/
  | survivor (var : Char) (result : List Char)
  /-- The variables of the last entry are not brought into the order of the result. -/
  | misplaced (vars result : List Char)
deriving DecidableEq, Repr

def Violation.message : Violation → String
  | .rejectedModel position => s!"model #{position} does not satisfy the predicate"
  | .lostEntries => "contraction lost all entries"
  | .leftOver vars result =>
    s!"contraction ended with variables {showVars vars}, requested {showVars result}"
  | .survivor var result => s!"variable '{var}' survived contraction to {showVars result}"
  | .misplaced vars result =>
    s!"contraction produced {showVars vars}, requested {showVars result}"

/-- The errors of the library, by cause. -/
inductive Error where
  /-- Two tensors, or a tensor and a requested layout, disagree on axis sizes. -/
  | shapeMismatch (expected found : List Nat)
  /-- A list of variables, coordinates, axes or cells has the wrong length. -/
  | arityMismatch (expected found : Nat)
  /-- One contraction variable was bound to two axis sizes. -/
  | sizeConflict (var : Char) (first second : Nat)
  /-- A requested variable occurs in no entry of the contraction. -/
  | unboundVariable (var : Char)
  | unsupported (what : Unsupported)
  | spent (what : Spent)
  | violation (what : Violation)
  | invalid (what : Invalid)
  | backend (name : String) (failure : BackendFailure)
  | setting (cause : SettingError)
deriving DecidableEq, Repr

def Error.message : Error → String
  | .shapeMismatch expected found =>
    s!"shape mismatch: expected {showList expected}, found {showList found}"
  | .arityMismatch expected found => s!"arity mismatch: expected {expected}, found {found}"
  | .sizeConflict var first second =>
    s!"variable '{var}' bound to size {first} and to size {second}"
  | .unboundVariable var => s!"variable '{var}' is not bound by any entry"
  | .unsupported what => "unsupported: " ++ what.message
  | .spent what => "state reuse: " ++ what.message
  | .violation what => "internal invariant violated: " ++ what.message
  | .invalid what => "invalid " ++ what.message
  | .backend name failure => s!"SAT backend '{name}' failed: " ++ failure.message
  | .setting cause => "configuration error: " ++ cause.message

/-! ## Faults -/

/-- Promises of the caller whose breach ends a computation. -/
inductive Misuse where
  | indexArity
  | indexOutOfRange (index size : Nat)
  | foldTooDeep (axes order : Nat)
  | unmintedVariable (var : Nat)
  | zeroLiteral
  | valueOutsideSet (value size : Nat)
  /-- A list was read past its end. -/
  | outOfBounds
  /-- A list too long to be stored was asked for. -/
  | capacity
deriving DecidableEq, Repr

def Misuse.message? : Misuse → Option String
  | .indexArity => some "index has wrong arity"
  | .indexOutOfRange index size => some s!"index {index} out of range for axis of size {size}"
  | .foldTooDeep axes order => some s!"cannot fold {axes} axes of a tensor of order {order}"
  | .unmintedVariable var => some s!"variable {var} was never minted"
  | .zeroLiteral => some "literal 0 is not a variable"
  | .valueOutsideSet value size => some s!"value {value} outside the {size}-element set"
  | .outOfBounds => none
  | .capacity => none

/-- The ways in which a computation ends without a value. -/
inductive Fault where
  | error (cause : Error)
  | overflow
  | misuse (what : Misuse)
deriving DecidableEq, Repr

/-- The outcome of a computation that touches nothing but its arguments. -/
abbrev Outcome := Except Fault

namespace Outcome

/-- Ends with a library error. -/
def fail {α : Type} (cause : Error) : Outcome α := .error (.error cause)

/-- Ends with the breach of a promise. -/
def breach {α : Type} (what : Misuse) : Outcome α := .error (.misuse what)

/-- Ends because two lengths differ. -/
def arity {α : Type} (expected found : Nat) : Outcome α := fail (.arityMismatch expected found)

/-- Ends because two shapes differ. -/
def shapes {α : Type} (expected found : List Nat) : Outcome α :=
  fail (.shapeMismatch expected found)

end Outcome

end FiniteStructures
