import FiniteStructures.Sat.Spec
import FiniteStructures.Proofs.Text.Words

/-!
Names of backends that are read and written.  The specs that are read from texts are those whose
program has a name without blanks at its ends, and for a program with arguments without any blank
(`WellFormed`).  The text of such a spec is cut at the first colon, which is the one that was written,

    minisat:PROG        trim PROG = PROG                             PROG may have colons and blanks
    dimacs:PROG ARGS…   words (PROG ARGS…) = [PROG, ARGS…]           PROG may have colons

so it is read as the spec that it was written for (`parse_render`), and the texts tell the specs apart.
-/

namespace FiniteStructures

namespace BackendSpec

variable {spec spec' : BackendSpec} {text kind program : String} {args : List String}

/-- The words are those of some text. -/
def AreWords (words : List String) : Prop :=
  ∀ word ∈ words, word ≠ "" ∧ ∀ c ∈ word.toList, ¬ Text.isBlank c

/-- The program has a name that can be read: with no blanks at its ends, or with no blanks and none in
the arguments. -/
def WellFormed : BackendSpec → Prop
  | inProcess => True
  | resultFile program => program ≠ "" ∧ Text.trim program.toList = program.toList
  | standardOutput program args => AreWords (program :: args)

/-! ## Texts that are read -/

/-- The specs that the parts of a text name are well formed. -/
theorem wellFormed_of_ofParts? {command : Option (List Char)}
    (trimmed : ∀ text ∈ command, Text.trim text = text)
    (run : ofParts? kind command = some (.ok spec)) : spec.WellFormed := by
  unfold ofParts? at run
  split at run
  · cases run
    trivial
  · cases run
    exact ⟨by decide, by decide⟩
  · next c rest =>
    cases run
    refine ⟨String.ofList_eq_empty_iff.not.mpr (List.cons_ne_nil c rest), ?_⟩
    rw [String.toList_ofList]
    exact trimmed _ rfl
  · next command =>
    split at run
    · cases run
    · next program args words =>
      cases run
      intro word member
      rw [← words] at member
      obtain ⟨token, known, rfl⟩ := List.mem_map.mp member
      obtain ⟨visible, solid⟩ := (Text.spaced_words command).solid token known
      rw [String.toList_ofList]
      exact ⟨String.ofList_eq_empty_iff.not.mpr visible, solid⟩
  · cases run

theorem parse_eq {before : List Char} {command : Option (List Char)}
    (cut : cutAtColon (Text.trim text.toList) = (before, command)) :
    parse text = (ofParts? (String.ofList before) (command.map Text.trim)).getD
      (.error (.unknownBackend (String.ofList (Text.trim text.toList)))) := by
  unfold parse
  simp only [cut]

theorem wellFormed_of_parse (run : parse text = .ok spec) : spec.WellFormed := by
  obtain ⟨⟨before, command⟩, cut⟩ : ∃ parts, cutAtColon (Text.trim text.toList) = parts := ⟨_, rfl⟩
  rw [parse_eq cut] at run
  cases parts : ofParts? (String.ofList before) (command.map Text.trim) with
  | none =>
    rw [parts] at run
    cases run
  | some read =>
    rw [parts] at run
    obtain rfl : read = .ok spec := run
    refine wellFormed_of_ofParts? (fun text member => ?_) parts
    obtain ⟨text, -, rfl⟩ := Option.map_eq_some_iff.mp member
    exact Text.trim_trim text

/-! ## Texts that are written -/

theorem cutAtColon_append {kind : List Char} (noColon : ':' ∉ kind) (command : List Char) :
    cutAtColon (kind ++ ':' :: command) = (kind, some command) := by
  induction kind with
  | nil => rfl
  | cons c kind ih =>
    rw [List.mem_cons, not_or] at noColon
    rw [List.cons_append, cutAtColon, if_neg (Ne.symm noColon.1), ih noColon.2]

/-- A text with a kind and a colon is cut there, and what follows is trimmed. -/
theorem parse_colon {command : String} (solid : kind.toList.any Text.isBlank = false)
    (noColon : ':' ∉ kind.toList)
    (names : ofParts? kind (some (Text.trim command.toList)) = some (.ok spec)) :
    parse (kind ++ ":" ++ command) = .ok spec := by
  have visible : ∀ c ∈ kind.toList ++ [':'], ¬ Text.isBlank c :=
    List.forall_mem_append.mpr
      ⟨List.any_eq_false.mp solid, List.forall_mem_singleton.mpr (by decide)⟩
  have trimmed : Text.trim (kind ++ ":" ++ command).toList =
      kind.toList ++ ':' :: command.toList.rdropWhile Text.isBlank := by
    rw [String.toList_append, String.toList_append]
    refine (Text.trim_solid_append (by simp) visible command.toList).trans ?_
    rw [List.append_assoc]
    rfl
  have cut : cutAtColon (Text.trim (kind ++ ":" ++ command).toList) =
      (kind.toList, some (command.toList.rdropWhile Text.isBlank)) := by
    rw [trimmed, cutAtColon_append noColon]
  rw [parse_eq cut, String.ofList_toList, Option.map_some, Text.trim_rdropWhile, names]
  rfl

theorem parse_resultFile (visible : program ≠ "")
    (trimmed : Text.trim program.toList = program.toList) :
    parse ("minisat:" ++ program) = .ok (.resultFile program) := by
  show parse ("minisat" ++ ":" ++ program) = _
  refine parse_colon rfl (by decide) ?_
  obtain ⟨c, rest, chars⟩ := List.exists_cons_of_ne_nil (String.toList_eq_nil_iff.not.mpr visible)
  have name : String.ofList (c :: rest) = program := by rw [← chars, String.ofList_toList]
  rw [trimmed, chars, ← name]
  rfl

/-- Words with a blank between any two of them are the words of the text. -/
theorem words_spaced {words : List String} (known : AreWords words) :
    Text.words (" ".intercalate words).toList = words.map String.toList := by
  have alone : ∀ word ∈ words, Text.words word.toList = [word.toList] := by
    intro word member
    obtain ⟨visible, solid⟩ := known word member
    exact Text.words_solid (String.toList_eq_nil_iff.not.mpr visible) solid
  rw [String.toList_intercalate]
  refine (Text.words_intercalate rfl _).trans ?_
  rw [List.flatMap_map, List.flatMap_congr alone, List.map_eq_flatMap]

theorem parse_standardOutput (known : AreWords (program :: args)) :
    parse ("dimacs:" ++ " ".intercalate (program :: args)) = .ok (.standardOutput program args) := by
  show parse ("dimacs" ++ ":" ++ " ".intercalate (program :: args)) = _
  refine parse_colon rfl (by decide) ?_
  have words : (Text.words (Text.trim (" ".intercalate (program :: args)).toList)).map
      String.ofList = program :: args := by
    rw [Text.words_trim, words_spaced known, List.map_map]
    simp
  unfold ofParts?
  simp only [words]

/-- A spec that can be read is read from its text. -/
theorem parse_render (known : spec.WellFormed) : parse spec.render = .ok spec := by
  cases spec with
  | inProcess => decide
  | resultFile program => exact parse_resultFile known.1 known.2
  | standardOutput program args => exact parse_standardOutput known

theorem WellFormed.program_ne (known : spec.WellFormed)
    (named : spec = .resultFile program ∨ spec = .standardOutput program args) : program ≠ "" := by
  rcases named with rfl | rfl
  · exact known.1
  · exact (known program List.mem_cons_self).1

/-- A spec that is read from any text is read again from the text that it is written as, which is
written for it again, and its program has a name; two texts name the same spec exactly if what they name
is written as the same text; and the specs that can be read are the well formed ones. -/
theorem specs_round_trip :
    (∀ (text : String) (spec : BackendSpec), parse text = .ok spec →
      parse spec.render = .ok spec ∧ (parse spec.render).map render = .ok spec.render ∧
      ∀ program args, spec = .resultFile program ∨ spec = .standardOutput program args →
        program ≠ "") ∧
    (∀ (text text' : String) (spec spec' : BackendSpec), parse text = .ok spec →
      parse text' = .ok spec' → (spec = spec' ↔ spec.render = spec'.render)) ∧
    ∀ spec : BackendSpec, (∃ text, parse text = .ok spec) ↔ spec.WellFormed := by
  refine ⟨fun text spec run => ?_, fun text text' spec spec' run run' => ?_, fun spec => ?_⟩
  · have known := wellFormed_of_parse run
    have read := parse_render known
    exact ⟨read, by rw [read]; rfl, fun program args => known.program_ne⟩
  · refine ⟨congrArg render, fun same => ?_⟩
    have read := parse_render (wellFormed_of_parse run)
    rw [same, parse_render (wellFormed_of_parse run')] at read
    exact (Except.ok.inj read).symm
  · exact ⟨fun ⟨_, run⟩ => wellFormed_of_parse run, fun known => ⟨_, parse_render known⟩⟩

/-- A program with colons and blanks in its name, and one with a colon and arguments. -/
theorem specs_round_trip_colons :
    parse " minisat: /opt/my solver:2\n" = .ok (.resultFile "/opt/my solver:2") ∧
      parse "minisat:/opt/my solver:2" = .ok (.resultFile "/opt/my solver:2") ∧
      parse "dimacs:  c:sat\t-q" = .ok (.standardOutput "c:sat" ["-q"]) ∧
      parse "dimacs:c:sat -q" = .ok (.standardOutput "c:sat" ["-q"]) := by
  obtain ⟨again, -⟩ := specs_round_trip
  have file : parse " minisat: /opt/my solver:2\n" = .ok (.resultFile "/opt/my solver:2") := by decide
  have output : parse "dimacs:  c:sat\t-q" = .ok (.standardOutput "c:sat" ["-q"]) := by decide
  exact ⟨file, (again _ _ file).1, output, (again _ _ output).1⟩

end BackendSpec

end FiniteStructures
