import FiniteStructures.Proofs.Sat.Answers
import FiniteStructures.Proofs.Text.Numerals

/-!
Models that are written are read.  A model is written as the numerals of its literals and a zero
(`written`); in a result file they are the words after the line SAT, in competition output those of the
value lines, however these tokens are cut into lines and spaced (`layouts_recovered`).

What stands after the zero is not read.  In competition output no value line may follow it, but the line
of the zero may have more words, and a result file any (`accepted_iff`).
-/

namespace FiniteStructures

/-- The truth values of the variables up to `numVars`. -/
def Assignment.ofValuation (numVars : Nat) (ρ : Valuation) : Assignment :=
  ⟨Array.ofFn fun v : Fin (numVars + 1) => v.val ≠ 0 && ρ v⟩

namespace Answer

open Literal

/-! ## Tokens -/

/-- The literals of the variables up to `numVars` that hold, in any order. -/
def Lists (numVars : Nat) (ρ : Valuation) (literals : List Literal) : Prop :=
  ∀ l, l ∈ literals ↔ l.var ≤ numVars ∧ l.isNegated = !ρ l.var

/-- The decimal numeral of a literal. -/
def numeral (l : Literal) : List Char := (toString l.value).toList

/-- The numerals of the literals and a zero. -/
def written (literals : List Literal) : List (List Char) := literals.map numeral ++ [['0']]

variable {numVars : Nat} {ρ : Valuation} {literals : List Literal}

/-- The literal of the variable `n + 1` that holds if this one has the truth value. -/
def literalOf (n : Nat) (truth : Bool) : Literal := if truth then ofVar n else (ofVar n).opposite

theorem var_literalOf {n : Nat} (h : n + 1 < varLimit) (truth : Bool) :
    (literalOf n truth).var = n + 1 := by
  cases truth <;> simp [literalOf, var_ofVar (Nat.lt_of_succ_lt h)]

theorem isNegated_literalOf {n : Nat} (h : n + 1 < varLimit) (truth : Bool) :
    (literalOf n truth).isNegated = !truth := by
  have opposed : (ofVar n).value ≠ least :=
    value_ne_least (by rwa [var_ofVar (Nat.lt_of_succ_lt h)])
  cases truth with
  | true => exact isNegated_ofVar h
  | false => exact (isNegated_opposite opposed).trans (by rw [isNegated_ofVar h])

/-- A literal is its variable and its sign. -/
theorem ext_var {l k : Literal} (var : l.var = k.var) (sign : l.isNegated = k.isNegated) : l = k := by
  have signs := decide_eq_decide.mp sign
  unfold Literal.var at var
  exact Literal.ext (by omega)

/-- All truth values can be listed. -/
theorem lists_range (small : numVars < varLimit) (ρ : Valuation) :
    Lists numVars ρ ((List.range numVars).map fun n => literalOf n (ρ (n + 1))) := by
  intro l
  rw [List.mem_map]
  constructor
  · rintro ⟨n, hn, rfl⟩
    have hn := List.mem_range.mp hn
    have room : n + 1 < varLimit := Nat.lt_of_le_of_lt hn small
    rw [var_literalOf room, isNegated_literalOf room]
    exact ⟨hn, rfl⟩
  · rintro ⟨le, sign⟩
    obtain ⟨n, var⟩ : ∃ n, l.var = n + 1 := ⟨l.var - 1, by have := l.var_pos; omega⟩
    rw [var] at le sign
    have room : n + 1 < varLimit := Nat.lt_of_le_of_lt le small
    refine ⟨n, List.mem_range.mpr le, ext_var ?_ ?_⟩
    · rw [var_literalOf room, var]
    · rw [isNegated_literalOf room, sign]

theorem Lists.ofLiterals (small : numVars < varLimit) (lists : Lists numVars ρ literals) :
    Assignment.ofLiterals numVars literals = Assignment.ofValuation numVars ρ := by
  suffices h : (Assignment.ofLiterals numVars literals).values =
      (Assignment.ofValuation numVars ρ).values from congrArg Assignment.mk h
  refine Array.ext_getElem? fun v => ?_
  by_cases hv : v ≤ numVars
  · have value : (Assignment.ofValuation numVars ρ).values[v]? = some (v ≠ 0 && ρ v) := by
      unfold Assignment.ofValuation
      rw [Array.getElem?_ofFn, dif_pos (Nat.lt_succ_of_le hv)]
    rw [Assignment.ofLiterals_values literals hv, value, Option.some.injEq]
    cases last : (literals.filter fun l => l.var = v).getLast? with
    | none =>
      have absent : ∀ l ∈ literals, l.var ≠ v := by
        simpa [List.getLast?_eq_none_iff, List.filter_eq_nil_iff] using last
      have zero : v = 0 := by
        by_contra h
        obtain ⟨n, rfl⟩ := Nat.exists_eq_succ_of_ne_zero h
        have room : n + 1 < varLimit := Nat.lt_of_le_of_lt hv small
        have var : (literalOf n (ρ (n + 1))).var = n + 1 := var_literalOf room _
        refine absent _ ((lists _).mpr ?_) var
        rw [var, isNegated_literalOf room]
        exact ⟨hv, rfl⟩
      simp [zero]
    | some l =>
      obtain ⟨member, hl⟩ := List.mem_filter.mp (List.mem_of_getLast? last)
      obtain rfl := of_decide_eq_true hl
      simp [((lists l).mp member).2, Nat.ne_of_gt l.var_pos]
  · rw [Array.getElem?_eq_none, Array.getElem?_eq_none]
    · simp [Assignment.ofValuation]
      omega
    · rw [Assignment.size_ofLiterals]
      omega

theorem Lists.bounded (lists : Lists numVars ρ literals) : ∀ l ∈ literals, l.var ≤ numVars :=
  fun l hl => ((lists l).mp hl).1

theorem integer?_numeral (small : numVars < varLimit) {l : Literal} (hl : l.var ≤ numVars) :
    Text.integer? (numeral l) = some l.value := by
  unfold varLimit at small
  unfold var at hl
  exact Text.integer?_toString (by omega) (by omega)

theorem no_zero_numerals (small : numVars < varLimit) (bounded : ∀ l ∈ literals, l.var ≤ numVars) :
    (literals.map numeral).any isZero = false := by
  refine List.any_eq_false.mpr fun token ht zero => ?_
  obtain ⟨l, hl, rfl⟩ := List.mem_map.mp ht
  rw [isZero_iff, integer?_numeral small (bounded l hl), Option.some.injEq] at zero
  exact l.value_ne_zero zero

theorem names_written (small : numVars < varLimit) (bounded : ∀ l ∈ literals, l.var ≤ numVars) :
    Names numVars (beforeZero (written literals)) literals := by
  have front : beforeZero (written literals) = literals.map numeral :=
    (beforeZero_append (no_zero_numerals small bounded) _).trans (List.append_nil _)
  rw [front]
  refine List.forall₂_map_left_iff.mpr (List.forall₂_same.mpr fun l hl => ?_)
  exact ⟨integer?_numeral small (bounded l hl), bounded l hl⟩

theorem spaced_numerals (literals : List Literal) {tokens : List (List Char)} {text : List Char}
    (rest : Text.Spaced tokens text) :
    Text.Spaced (literals.map numeral ++ tokens)
      ((literals.flatMap fun l => numeral l ++ [' ']) ++ text) := by
  induction literals with
  | nil => exact rest
  | cons l literals ih =>
    obtain ⟨visible, solid⟩ := Text.toString_solid l.value
    rw [List.flatMap_cons, List.append_assoc, List.append_assoc]
    refine .token visible solid (.blank rfl ih) ?_
    rintro c ⟨⟩
    rfl

/-- A clause as it is written in a formula is a layout of these tokens. -/
theorem spaced_clauseText (clause : Clause) :
    Text.Spaced (written clause) (Cnf.clauseText clause).toList := by
  have text : (Cnf.clauseText clause).toList =
      (clause.flatMap fun l => numeral l ++ [' ']) ++ ['0', '\n'] := by
    rw [Cnf.clauseText, String.toList_append, String.toList_join, List.flatMap_map]
    simp only [String.toList_append]
    rfl
  rw [text]
  exact spaced_numerals clause (Text.words_eq_iff.mp rfl)

/-! ## Result files -/

theorem filled_sat {after : List Char} (blanks : ∀ c ∈ after, Text.isBlank c) (row : '\n' ∉ after) :
    Text.filled ("SAT".toList ++ after) = ["SAT".toList] := by
  have one : ("SAT".toList ++ after).splitOn '\n' = ["SAT".toList ++ after] := by
    refine List.splitOn_eq_singleton fun feed => ?_
    exact (List.mem_append.mp feed).elim (by decide) row
  have trimmed : Text.trim ("SAT".toList ++ after) = "SAT".toList :=
    (Text.trim_append_blanks _ blanks).trans (by decide)
  rw [Text.filled_eq, one, List.map_singleton, trimmed]
  rfl

/-- The tokens of a model are read wherever they stand after the line SAT. -/
theorem ofResultFile_written (small : numVars < varLimit) (lists : Lists numVars ρ literals)
    {before after body : List Char} (hb : ∀ c ∈ before, Text.isBlank c)
    (ha : ∀ c ∈ after, Text.isBlank c) (row : '\n' ∉ after)
    (spaced : Text.Spaced (written literals) body) :
    ofResultFile (before ++ ("SAT".toList ++ after ++ '\n' :: body)) numVars =
      .ok (some (Assignment.ofValuation numVars ρ)) := by
  refine ofResultFile_iff.mpr ⟨Text.filled body, ?_, literals, ?_, (lists.ofLiterals small).symm⟩
  · rw [Text.filled_blanks_append hb, Text.filled_append_line, filled_sat ha row]
    rfl
  · rw [Text.words_filled, spaced.words_eq]
    exact names_written small lists.bounded

/-! ## Competition output -/

/-- What a line of competition output is for. -/
inductive Entry
  | status
  | values (tokens : List (List Char))
  | comment
deriving DecidableEq

namespace Entry

/-- The tokens of a value line. -/
def tokens? : Entry → Option (List (List Char))
  | values tokens => some tokens
  | _ => none

/-- The answer of the status line. -/
def answer? : Entry → Option (List Char)
  | status => some "SATISFIABLE".toList
  | _ => none

/-- A line for the entry, with any blanks around it and between its tokens. -/
def Writes : Entry → List Char → Prop
  | status, line => Text.trim line = "s SATISFIABLE".toList
  | values tokens, line => ∃ before body, (∀ c ∈ before, Text.isBlank c) ∧
      line = before ++ 'v' :: body ∧ Text.Spaced tokens body
  | comment, line => ¬ "v".toList <+: Text.trim line ∧ ¬ "s ".toList <+: Text.trim line

/-- What is read of a line is what it was written for. -/
theorem Writes.reads {entry : Entry} {line : List Char} (h : entry.Writes line) :
    (Text.after? "s ".toList (Text.trim line)).map Text.trim = entry.answer? ∧
      (Text.after? "v".toList (Text.trim line)).map Text.words = entry.tokens? := by
  cases entry with
  | status =>
    rw [show Text.trim line = "s SATISFIABLE".toList from h]
    exact ⟨by decide, by decide⟩
  | values tokens =>
    obtain ⟨before, body, blanks, rfl, spaced⟩ := h
    have trimmed : Text.trim (before ++ 'v' :: body) = 'v' :: body.rdropWhile Text.isBlank := by
      rw [Text.trim_blanks_append blanks, Text.trim_eq, List.dropWhile_cons_of_neg (by decide)]
      exact Text.rdropWhile_cons (by decide) body
    rw [trimmed]
    refine ⟨rfl, ?_⟩
    show some (Text.words (body.rdropWhile Text.isBlank)) = some tokens
    rw [Text.words_rdropWhile, spaced.words_eq]
  | comment =>
    have other (beginning : List Char) (h : ¬ beginning <+: Text.trim line) :
        Text.after? beginning (Text.trim line) = none :=
      if_neg (by rwa [List.isPrefixOf_iff_prefix])
    rw [other _ h.1, other _ h.2]
    exact ⟨rfl, rfl⟩

theorem reads_lines {entries : List Entry} {lines : List (List Char)}
    (h : List.Forall₂ Writes entries lines) :
    statuses (lines.map Text.trim) = entries.filterMap answer? ∧
      Answer.values (lines.map Text.trim) = entries.filterMap tokens? := by
  unfold statuses Answer.values
  simp only [List.filterMap_map, List.map_filterMap, Function.comp_apply]
  induction h with
  | nil => exact ⟨rfl, rfl⟩
  | cons first _ ih =>
    obtain ⟨answer, tokens⟩ := first.reads
    simp only [List.filterMap_cons, answer, tokens, ih, and_self]

theorem answers_eq (entries : List Entry) : entries.filterMap answer? =
    List.replicate (entries.count status) "SATISFIABLE".toList := by
  induction entries with
  | nil => rfl
  | cons entry entries ih =>
    cases entry with
    | status =>
      rw [List.count_cons_self, List.replicate_succ, ← ih]
      rfl
    | values tokens =>
      rw [List.filterMap_cons_none rfl, ih, List.count_cons_of_ne (by simp)]
    | comment =>
      rw [List.filterMap_cons_none rfl, ih, List.count_cons_of_ne (by simp)]

end Entry

/-- Where only the last token of all is a zero, it is on the last line. -/
theorem no_zero_before {chunks : List (List (List Char))} {front : List (List Char)}
    {zero : List Char} (nonempty : ∀ chunk ∈ chunks, chunk ≠ []) (cut : chunks.flatten = front ++ [zero])
    (noZero : front.any isZero = false) : ∀ chunk ∈ chunks.dropLast, chunk.any isZero = false := by
  rcases List.eq_nil_or_concat' chunks with rfl | ⟨lines, last, rfl⟩
  · exact nofun
  · rcases List.eq_nil_or_concat' last with rfl | ⟨tokens, token, rfl⟩
    · exact absurd rfl (nonempty [] (by simp))
    · have same : lines.flatten ++ tokens = front := by
        rw [List.flatten_concat, ← List.append_assoc] at cut
        exact (List.append_inj' cut rfl).1
      intro chunk hc
      rw [List.dropLast_concat] at hc
      refine List.any_eq_false.mpr fun t ht => List.any_eq_false.mp noZero t ?_
      rw [← same]
      exact List.mem_append_left _ (List.mem_flatten_of_mem hc ht)

/-- The tokens of a model are read however they are cut into value lines, wherever the status line
stands, and whatever other lines there are. -/
theorem ofCompetition_written (small : numVars < varLimit) (lists : Lists numVars ρ literals)
    {entries : List Entry} {lines : List (List Char)}
    (writes : List.Forall₂ Entry.Writes entries lines)
    (rows : ∀ line ∈ lines, '\n' ∉ line) (status : entries.count .status = 1)
    (nonempty : ∀ tokens ∈ entries.filterMap Entry.tokens?, tokens ≠ [])
    (cut : (entries.filterMap Entry.tokens?).flatten = written literals) :
    ofCompetition (['\n'].intercalate lines) numVars =
      .ok (some (Assignment.ofValuation numVars ρ)) := by
  have lines_ne : lines ≠ [] := by
    rintro rfl
    obtain rfl : entries = [] := List.forall₂_nil_right_iff.mp writes
    cases status
  have split := List.splitOn_intercalate '\n' rows lines_ne
  obtain ⟨said, read⟩ := Entry.reads_lines writes
  refine ofCompetition_iff.mpr ⟨?_, ?_, literals, ?_, (lists.ofLiterals small).symm⟩
  · rw [statuses_rows, split, said, Entry.answers_eq, status]
    rfl
  · rw [values_rows, split, read]
    exact no_zero_before nonempty cut (no_zero_numerals small lists.bounded)
  · rw [values_rows, split, read, cut]
    exact names_written small lists.bounded

/-! ## All texts -/

/-- The model covers the variables, and one is true if the last literal of it among the tokens before
the first zero is positive. -/
def Follows (numVars : Nat) (tokens : List (List Char)) (m : Assignment) : Prop :=
  m.numVars = numVars ∧ ∃ literals, Names numVars (beforeZero tokens) literals ∧
    ∀ v, 1 ≤ v → v ≤ numVars → m.values[v]? =
      some (((literals.filter fun l => l.var = v).getLast?).any fun l => !l.isNegated)

theorem Names.follows {tokens : List (List Char)}
    (names : Names numVars (beforeZero tokens) literals) :
    Follows numVars tokens (Assignment.ofLiterals numVars literals) := by
  refine ⟨?_, literals, names, fun v _ hv => Assignment.ofLiterals_values literals hv⟩
  rw [Assignment.numVars, Assignment.size_ofLiterals, Nat.add_sub_cancel]

/-- The first word of a file with a model is that of its first line. -/
theorem words_of_filled {text : List Char} {rest : List (List Char)}
    (h : Text.filled text = "SAT".toList :: rest) :
    Text.words text = "SAT".toList :: rest.flatMap Text.words := by
  rw [← Text.words_filled, h]
  rfl

theorem ofResultFile_follows {text : List Char} {m : Assignment}
    (h : ofResultFile text numVars = .ok (some m)) :
    ∃ tokens, Text.words text = "SAT".toList :: tokens ∧ Follows numVars tokens m := by
  obtain ⟨rest, sat, literals, names, rfl⟩ := ofResultFile_iff.mp h
  exact ⟨_, words_of_filled sat, names.follows⟩

theorem ofCompetition_follows {text : List Char} {m : Assignment}
    (h : ofCompetition text numVars = .ok (some m)) :
    Follows numVars (values (rows text)).flatten m := by
  obtain ⟨-, -, literals, names, rfl⟩ := ofCompetition_iff.mp h
  exact names.follows

/-- Every layout of the tokens of a model is read as the model; and whatever a text is, it is read as
an error, as no model, or as the model that its tokens before the first zero name. -/
theorem layouts_recovered :
    (∀ (numVars : Nat) (ρ : Valuation) (literals : List Literal), numVars < varLimit →
      Lists numVars ρ literals →
      (∀ before after body : List Char, (∀ c ∈ before, Text.isBlank c) →
        (∀ c ∈ after, Text.isBlank c) → '\n' ∉ after → Text.Spaced (written literals) body →
        ofResultFile (before ++ ("SAT".toList ++ after ++ '\n' :: body)) numVars =
          .ok (some (Assignment.ofValuation numVars ρ))) ∧
      ∀ (entries : List Entry) (lines : List (List Char)), List.Forall₂ Entry.Writes entries lines →
        (∀ line ∈ lines, '\n' ∉ line) → entries.count .status = 1 →
        (∀ tokens ∈ entries.filterMap Entry.tokens?, tokens ≠ []) →
        (entries.filterMap Entry.tokens?).flatten = written literals →
        ofCompetition (['\n'].intercalate lines) numVars =
          .ok (some (Assignment.ofValuation numVars ρ))) ∧
    ∀ (text : List Char) (numVars : Nat),
      ((∃ e, ofResultFile text numVars = .error e) ∨ ofResultFile text numVars = .ok none ∨
        ∃ m tokens, ofResultFile text numVars = .ok (some m) ∧
          Text.words text = "SAT".toList :: tokens ∧ Follows numVars tokens m) ∧
      ((∃ e, ofCompetition text numVars = .error e) ∨ ofCompetition text numVars = .ok none ∨
        ∃ m, ofCompetition text numVars = .ok (some m) ∧
          Follows numVars (values (rows text)).flatten m) := by
  refine ⟨fun numVars ρ literals small lists => ⟨?_, ?_⟩, fun text numVars => ⟨?_, ?_⟩⟩
  · intro before after body hb ha row spaced
    exact ofResultFile_written small lists hb ha row spaced
  · intro entries lines writes rows status nonempty cut
    exact ofCompetition_written small lists writes rows status nonempty cut
  · rcases h : ofResultFile text numVars with e | none | m
    · exact .inl ⟨e, rfl⟩
    · exact .inr (.inl rfl)
    · obtain ⟨tokens, words, follows⟩ := ofResultFile_follows h
      exact .inr (.inr ⟨m, tokens, rfl, words, follows⟩)
  · rcases h : ofCompetition text numVars with e | none | m
    · exact .inl ⟨e, rfl⟩
    · exact .inr (.inl rfl)
    · exact .inr (.inr ⟨m, rfl, ofCompetition_follows h⟩)

/-- One variable that is true and one that is false, on lines of their own or on one. -/
theorem layouts_recovered_two :
    ofResultFile "SAT\n\n1 -2\n 0".toList 2 = .ok (some ⟨#[false, true, false]⟩) ∧
    ofCompetition "v 1\nc a comment\n s SATISFIABLE\nv-2 0\n".toList 2 =
      .ok (some ⟨#[false, true, false]⟩) := by
  obtain ⟨file, output⟩ := layouts_recovered.1 2 (· == 1) _ (by decide) (lists_range (by decide) _)
  constructor
  · exact file [] [] "\n1 -2\n 0".toList nofun nofun nofun (Text.words_eq_iff.mp (by decide))
  · refine output
      [.values ["1".toList], .comment, .status, .values ["-2".toList, "0".toList], .comment]
      ["v 1".toList, "c a comment".toList, " s SATISFIABLE".toList, "v-2 0".toList, []] ?_
      (by decide) (by decide) (by decide) (by decide)
    refine .cons ⟨[], " 1".toList, nofun, rfl, Text.words_eq_iff.mp (by decide)⟩ (.cons ?_
      (.cons ?_ (.cons ⟨[], "-2 0".toList, nofun, rfl, Text.words_eq_iff.mp (by decide)⟩
        (.cons ?_ .nil))))
    · exact ⟨by decide, by decide⟩
    · show Text.trim " s SATISFIABLE".toList = "s SATISFIABLE".toList
      decide
    · exact ⟨by decide, by decide⟩

/-! ## After the zero -/

/-- What stands after a zero changes nothing. -/
theorem readLiterals_append {tokens : List (List Char)} (zero : tokens.any isZero)
    (more : List (List Char)) (read : List Literal) :
    readLiterals numVars (tokens ++ more) read = readLiterals numVars tokens read := by
  induction tokens generalizing read with
  | nil => cases zero
  | cons token tokens ih =>
    by_cases first : isZero token
    · rw [List.cons_append, readLiterals_zero first, readLiterals_zero first]
    · have rest : tokens.any isZero := by simpa [first] using zero
      rw [List.cons_append, readLiterals, readLiterals]
      simp only [ih rest]

theorem ofResultFile_append {text : List Char} {rest : List (List Char)}
    (sat : Text.filled text = "SAT".toList :: rest) (zero : (rest.flatMap Text.words).any isZero)
    (more : List Char) :
    ofResultFile (text ++ '\n' :: more) numVars = ofResultFile text numVars := by
  unfold ofResultFile
  rw [← Text.filled, ← Text.filled, Text.filled_append_line, sat, List.cons_append]
  simp only [List.flatMap_append, readLiterals_append zero]

theorem ofCompetition_after {text : List Char} {tokens : List (List Char)}
    (early : tokens ∈ (values (rows text)).dropLast) (zero : tokens.any isZero) :
    ∃ e, ofCompetition text numVars = .error e := by
  rcases fold : (rows text).foldlM (Progress.line numVars) ⟨none, ⟨[], false⟩⟩ with e | p
  · refine ⟨e, ?_⟩
    unfold ofCompetition
    rw [← rows, fold]
    rfl
  · obtain ⟨front, -⟩ := foldlM_readLine.mp (foldlM_line.mp fold).2
    cases zero.symm.trans (front tokens early)

/-- A result file is accepted if its first line is SAT and the tokens up to a zero are literals;
whatever is added to it after the zero, it is read as before.  Competition output is accepted if it
has the status SATISFIABLE once and the tokens up to a zero are literals, and a value line after that
of the zero is an error; but what stands on the line of the zero after it is not looked at either. -/
theorem accepted_iff (text : List Char) (numVars : Nat) :
    ((∃ m, ofResultFile text numVars = .ok (some m)) ↔
      (Text.filled text).head? = some "SAT".toList ∧
      ∃ literals, Names numVars (beforeZero (Text.words text).tail) literals) ∧
    ((Text.filled text).head? = some "SAT".toList → (Text.words text).tail.any isZero →
      ∀ more, ofResultFile (text ++ '\n' :: more) numVars = ofResultFile text numVars) ∧
    ((∃ m, ofCompetition text numVars = .ok (some m)) ↔
      statuses (rows text) = ["SATISFIABLE".toList] ∧
      (∃ literals, Names numVars (beforeZero (values (rows text)).flatten) literals) ∧
      ∀ tokens ∈ (values (rows text)).dropLast, tokens.any isZero = false) ∧
    ((∃ tokens ∈ (values (rows text)).dropLast, tokens.any isZero) →
      ∃ e, ofCompetition text numVars = .error e) := by
  refine ⟨⟨?_, ?_⟩, ?_, ⟨?_, ?_⟩, ?_⟩
  · rintro ⟨m, h⟩
    obtain ⟨rest, sat, literals, names, -⟩ := ofResultFile_iff.mp h
    rw [words_of_filled sat, sat]
    exact ⟨rfl, literals, names⟩
  · rintro ⟨sat, literals, names⟩
    obtain ⟨rest, sat⟩ := List.head?_eq_some_iff.mp sat
    rw [words_of_filled sat] at names
    exact ⟨_, ofResultFile_iff.mpr ⟨rest, sat, literals, names, rfl⟩⟩
  · intro sat zero more
    obtain ⟨rest, sat⟩ := List.head?_eq_some_iff.mp sat
    rw [words_of_filled sat] at zero
    exact ofResultFile_append sat zero more
  · rintro ⟨m, h⟩
    obtain ⟨said, front, literals, names, -⟩ := ofCompetition_iff.mp h
    exact ⟨said, ⟨literals, names⟩, front⟩
  · rintro ⟨said, ⟨literals, names⟩, front⟩
    exact ⟨_, ofCompetition_iff.mpr ⟨said, front, literals, names, rfl⟩⟩
  · rintro ⟨tokens, early, zero⟩
    exact ofCompetition_after early zero

/-- Further lines of a result file are not read, further value lines are an error. -/
theorem accepted_further :
    ofResultFile "SAT\n1 0\n2 x\n".toList 2 = ofResultFile "SAT\n1 0".toList 2 ∧
    ∃ e, ofCompetition "s SATISFIABLE\nv 1 0\nv 2 0\n".toList 2 = .error e :=
  ⟨(accepted_iff "SAT\n1 0".toList 2).2.1 (by decide) (by decide) "2 x\n".toList,
    (accepted_iff _ 2).2.2.2 ⟨["1".toList, "0".toList], by decide, by decide⟩⟩

/-- A literal after the zero, on its line, is dropped by both readers. -/
theorem dropped_after_zero :
    ofResultFile "SAT\n1 0 2\n".toList 2 = .ok (some ⟨#[false, true, false]⟩) ∧
    ofCompetition "s SATISFIABLE\nv 1 0 2\n".toList 2 = .ok (some ⟨#[false, true, false]⟩) :=
  ⟨rfl, rfl⟩

end Answer

end FiniteStructures
