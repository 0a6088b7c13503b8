import FiniteStructures.Proofs.Sat.Layouts
import Mathlib.Data.Option.Basic

/-!
Formulas that are written can be read.  After the header the words of the text are the numerals of the
literals with a zero after each clause,

    p cnf 2 3
    1 -2 0          1 -2 0 0 2 0     cut at the zeros     [1, -2] [] [2] []
    0
    2 0

and as no literal is zero, each zero ends a clause, an empty one too, and nothing is left after the last
one (`splitOn_integers`).  So the text determines the formula (`toDimacs_faithful`).
-/

namespace FiniteStructures

namespace Cnf

/-- The words of a text, read as integers; those that are no decimal numerals have none. -/
def readIntegers (text : List Char) : List (Option Int) := (Text.words text).map Text.decimal?

/-- The integers of the clauses, with a zero after each clause. -/
def integers (clauses : List Clause) : List Int :=
  clauses.flatMap fun clause => clause.map Literal.value ++ [0]

/-- The first line of the text, without its end. -/
def header (cnf : Cnf) : List Char :=
  "p cnf".toList ++ ' ' :: (cnf.numVars.repr.toList ++ ' ' :: cnf.clauses.size.repr.toList)

/-- The lines of the clauses. -/
def body (clauses : List Clause) : List Char := clauses.flatMap fun c => (clauseText c).toList

theorem toList_toDimacs (cnf : Cnf) :
    cnf.toDimacs.toList = cnf.header ++ '\n' :: body cnf.clauses.toList := by
  unfold toDimacs header body
  simp only [String.toList_append, String.toList_join, List.flatMap_map, List.append_assoc,
    List.cons_append]
  rfl

/-! ## Words -/

/-- A decimal numeral is one word. -/
theorem words_repr (n : Nat) : Text.words n.repr.toList = [n.repr.toList] :=
  Text.words_solid (Text.toString_solid (Int.ofNat n)).1 (Text.toString_solid (Int.ofNat n)).2

theorem words_header (cnf : Cnf) : Text.words cnf.header =
    ["p".toList, "cnf".toList, cnf.numVars.repr.toList, cnf.clauses.size.repr.toList] := by
  unfold header
  rw [Text.words_append_blank rfl, Text.words_append_blank rfl, words_repr, words_repr]
  rfl

/-- The header is one line. -/
theorem header_row (cnf : Cnf) : '\n' ∉ cnf.header := by
  have digits (n : Nat) : '\n' ∉ n.repr.toList := fun h =>
    (Text.toString_solid (Int.ofNat n)).2 _ h rfl
  unfold header
  simp only [List.mem_append, List.mem_cons, digits]
  decide

theorem words_body (clauses : List Clause) :
    Text.words (body clauses) = clauses.flatMap Answer.written := by
  induction clauses with
  | nil => rfl
  | cons c clauses ih =>
    obtain ⟨row, line⟩ : ∃ row, (clauseText c).toList = row ++ ['\n'] := by
      refine ⟨(String.join (c.map fun l => toString l.value ++ " ")).toList ++ ['0'], ?_⟩
      rw [clauseText, String.toList_append, List.append_assoc]
      rfl
    have tokens : Text.words row = Answer.written c := by
      rw [← (Answer.spaced_clauseText c).words_eq, line, Text.words_append_blank rfl]
      exact (List.append_nil _).symm
    rw [body, List.flatMap_cons, line, List.append_assoc, List.flatMap_cons, ← ih, ← tokens]
    exact Text.words_append_blank rfl row _

/-! ## Integers -/

theorem readIntegers_body (clauses : List Clause) :
    readIntegers (body clauses) = (integers clauses).map some := by
  have read (l : Literal) : Text.decimal? (Answer.numeral l) = some l.value :=
    Text.decimal?_toString l.value
  unfold readIntegers integers
  rw [words_body, List.map_flatMap, List.map_flatMap]
  refine List.flatMap_congr fun c _ => ?_
  simp only [Answer.written, List.map_append, List.map_map, Function.comp_def, read]
  rfl

theorem readIntegers_toDimacs (cnf : Cnf) : readIntegers cnf.toDimacs.toList =
    [none, none, some (Int.ofNat cnf.numVars), some (Int.ofNat cnf.clauses.size)] ++
      (integers cnf.clauses.toList).map some := by
  have count (n : Nat) : Text.decimal? n.repr.toList = some (Int.ofNat n) :=
    Text.decimal?_toString (Int.ofNat n)
  rw [← readIntegers_body]
  unfold readIntegers
  rw [toList_toDimacs, Text.words_append_blank rfl, words_header, List.map_append]
  simp only [List.map_cons, List.map_nil, count]
  rfl

/-- Each zero ends a clause, and nothing is left after the last one. -/
theorem splitOn_integers (clauses : List Clause) :
    (integers clauses).splitOn 0 = clauses.map (·.map Literal.value) ++ [[]] := by
  induction clauses with
  | nil => rfl
  | cons c clauses ih =>
    have noZero : (0 : Int) ∉ c.map Literal.value := by
      rw [List.mem_map]
      rintro ⟨l, -, zero⟩
      exact l.value_ne_zero zero
    rw [integers, List.flatMap_cons, List.append_assoc, List.singleton_append,
      List.splitOn_append_cons_self, List.splitOn_eq_singleton noZero]
    exact congrArg (c.map Literal.value :: ·) ih

theorem integers_injective : Function.Injective integers := by
  intro cs ds same
  have pieces := congrArg (List.splitOn 0) same
  rw [splitOn_integers, splitOn_integers] at pieces
  have values : Function.Injective Literal.value := fun _ _ => Literal.ext
  exact values.list_map.list_map (List.append_cancel_right pieces)

/-! ## Formulas -/

/-- The header of a formula shows the numbers of variables and clauses, and the integers after it are
cut into the clauses at the zeros; and formulas with the same text are equal. -/
theorem toDimacs_faithful :
    (∀ cnf : Cnf, ∃ (header body : List Char) (integers : List Int),
      cnf.toDimacs.toList = header ++ '\n' :: body ∧ '\n' ∉ header ∧
      Text.words header =
        ["p".toList, "cnf".toList, cnf.numVars.repr.toList, cnf.clauses.size.repr.toList] ∧
      readIntegers body = integers.map some ∧
      integers.splitOn 0 = cnf.clauses.toList.map (·.map Literal.value) ++ [[]]) ∧
    Function.Injective toDimacs := by
  constructor
  · intro cnf
    exact ⟨cnf.header, body cnf.clauses.toList, integers cnf.clauses.toList, toList_toDimacs cnf,
      header_row cnf, words_header cnf, readIntegers_body _, splitOn_integers _⟩
  · rintro ⟨vars, clauses⟩ ⟨vars', clauses'⟩ same
    have read := congrArg (fun text : String => readIntegers text.toList) same
    simp only [readIntegers_toDimacs, List.cons_append, List.nil_append, List.cons.injEq,
      Option.some.injEq, Int.ofNat.injEq, true_and] at read
    obtain ⟨rfl, -, tokens⟩ := read
    have lists := integers_injective ((Option.some_injective Int).list_map tokens)
    rw [Array.toList_inj.mp lists]

/-- An empty clause is a line with a zero, and no clause is no line. -/
example : toDimacs ⟨2, #[[⟨1, by decide, by decide⟩, ⟨-2, by decide, by decide⟩], []]⟩ = "p cnf 2 2\n1 -2 0\n0\n" ∧
    toDimacs ⟨2, #[]⟩ = "p cnf 2 0\n" := by decide

end Cnf

end FiniteStructures
