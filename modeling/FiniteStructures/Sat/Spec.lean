import FiniteStructures.Fault
import FiniteStructures.Text.Blank

/-!
Backends named by short texts:

    batsat                 the search of this library
    minisat  minisat:PROG  a program that writes a result file
    dimacs:PROG ARGS…      a program that writes to its standard output

Blanks around the text and after the first colon are dropped.  A program with a result file may
have blanks in its name; a program with arguments ends at the first blank.
-/

namespace FiniteStructures

/-- Which backend to use. -/
inductive BackendSpec where
  | inProcess
  | resultFile (program : String)
  | standardOutput (program : String) (args : List String)
deriving DecidableEq, Repr

namespace BackendSpec

/-- The part before the first colon, and the part after it if there is a colon. -/
def cutAtColon : List Char → List Char × Option (List Char)
  | [] => ([], none)
  | c :: rest =>
    if c = ':' then ([], some rest)
    else
      let (kind, command) := cutAtColon rest
      (c :: kind, command)

/-- Reads a kind and what follows its colon, without blanks at the ends; other texts name no
backend. -/
def ofParts? (kind : String) (command : Option (List Char)) :
    Option (Except SettingError BackendSpec) :=
  match kind, command with
  | "batsat", none => some (.ok .inProcess)
  | "minisat", none => some (.ok (.resultFile "minisat"))
  | "minisat", some (c :: rest) => some (.ok (.resultFile (String.ofList (c :: rest))))
  | "dimacs", some command =>
    match (Text.words command).map String.ofList with
    | [] => some (.error .programMissing)
    | program :: args => some (.ok (.standardOutput program args))
  | _, _ => none

/-- Reads the text of a backend. -/
def parse (text : String) : Except SettingError BackendSpec :=
  let text := Text.trim text.toList
  let (kind, command) := cutAtColon text
  (ofParts? (String.ofList kind) (command.map Text.trim)).getD
    (.error (.unknownBackend (String.ofList text)))

/-- The text of a backend. -/
def render : BackendSpec → String
  | .inProcess => "batsat"
  | .resultFile program => "minisat:" ++ program
  | .standardOutput program args => "dimacs:" ++ " ".intercalate (program :: args)

end BackendSpec

end FiniteStructures
