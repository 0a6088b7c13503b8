import Mathlib.Data.List.Basic
import Mathlib.Data.List.DropRight
import FiniteStructures.Text.Blank

/-!
Words and lines.  The words of a text are what it is made of besides blanks, whatever the blanks are,

    words text = tokens  ↔  Spaced tokens text        (words_eq_iff)

and line ends are blanks as well.  Cut at line feeds and trimmed, a text has the same rows as by its
lines, but for an empty one at its end (`trim_lines`); the rows have the words of the text.
-/

namespace FiniteStructures

namespace Text

/-- The text is made of the tokens in this order and of blanks, with a blank between two tokens at
least. -/
inductive Spaced : List (List Char) → List Char → Prop
  | nil : Spaced [] []
  | blank {tokens : List (List Char)} {text : List Char} {c : Char} (hc : isBlank c)
      (rest : Spaced tokens text) : Spaced tokens (c :: text)
  | token {tokens : List (List Char)} {text token : List Char} (visible : token ≠ [])
      (solid : ∀ c ∈ token, ¬ isBlank c) (rest : Spaced tokens text)
      (apart : ∀ c ∈ text.head?, isBlank c) : Spaced (token :: tokens) (token ++ text)

variable {text x y token : List Char} {tokens : List (List Char)} {c : Char}

/-- Cutting at separators is cutting a list at the members with a property. -/
theorem pieces_eq (separates : Char → Bool) (text : List Char) :
    pieces separates text = text.splitOnP separates := by
  have go (piece : List Char) :
      pieces.go separates text piece = text.splitOnPPrepend separates piece := by
    induction text generalizing piece with
    | nil => rfl
    | cons c text ih =>
      rw [pieces.go, List.splitOnPPrepend_cons_eq_if, ih, ih]
      rfl
  exact (go []).trans List.splitOnP_eq_splitOnPPrepend.symm

/-! ## Words -/

/-- Blanks belong to no word and end words. -/
theorem words_append_blank (hc : isBlank c) (x y : List Char) :
    words (x ++ c :: y) = words x ++ words y := by
  unfold words
  rw [pieces_eq, pieces_eq, pieces_eq, List.splitOnP_append_cons x y hc, List.filter_append]

theorem words_cons_blank (hc : isBlank c) (text : List Char) : words (c :: text) = words text :=
  words_append_blank hc [] text

theorem words_blanks_append (hx : ∀ c ∈ x, isBlank c) (y : List Char) :
    words (x ++ y) = words y := by
  induction x with
  | nil => rfl
  | cons c x ih =>
    rw [List.forall_mem_cons] at hx
    rw [List.cons_append, words_cons_blank hx.1, ih hx.2]

theorem words_append_blanks (x : List Char) (hy : ∀ c ∈ y, isBlank c) :
    words (x ++ y) = words x := by
  cases y with
  | nil => rw [List.append_nil]
  | cons c y =>
    rw [List.forall_mem_cons] at hy
    have none : words y = [] := by
      rw [← List.append_nil y, words_blanks_append hy.2]
      rfl
    rw [words_append_blank hy.1, none, List.append_nil]

/-- The words of texts with a blank between any two of them. -/
theorem words_intercalate (hc : isBlank c) (texts : List (List Char)) :
    words ([c].intercalate texts) = texts.flatMap words := by
  induction texts with
  | nil => rfl
  | cons text texts ih =>
    cases texts with
    | nil => simp
    | cons next texts =>
      rw [List.intercalate_cons_cons, List.append_assoc, List.flatMap_cons, ← ih]
      exact words_append_blank hc text _

theorem words_solid (visible : token ≠ []) (solid : ∀ c ∈ token, ¬ isBlank c) :
    words token = [token] := by
  unfold words
  rw [pieces_eq, List.splitOnP_eq_singleton fun c hc => Bool.eq_false_iff.mpr (solid c hc)]
  simp [visible]

theorem Spaced.words_eq (h : Spaced tokens text) : words text = tokens := by
  induction h with
  | nil => rfl
  | blank hc _ ih => rw [words_cons_blank hc, ih]
  | @token tokens text token visible solid _ apart ih =>
    have first := words_solid visible solid
    cases text with
    | nil =>
      obtain rfl : [] = tokens := ih
      rw [List.append_nil, first]
    | cons c text =>
      have hc := apart c rfl
      rw [words_append_blank hc, first, ← ih, words_cons_blank hc]
      rfl

/-- A character that is no blank begins the first token or is one. -/
theorem Spaced.cons (h : Spaced tokens text) (hc : ¬ isBlank c) :
    ∃ tokens, Spaced tokens (c :: text) := by
  have alone : ∀ b ∈ [c], ¬ isBlank b := List.forall_mem_singleton.mpr hc
  cases h with
  | nil => exact ⟨_, .token (List.cons_ne_nil c []) alone .nil nofun⟩
  | blank hb rest =>
    refine ⟨_, .token (List.cons_ne_nil c []) alone (.blank hb rest) ?_⟩
    rintro b ⟨⟩
    exact hb
  | token _ solid rest apart =>
    exact ⟨_, .token (List.cons_ne_nil c _) (List.forall_mem_cons.mpr ⟨hc, solid⟩) rest apart⟩

theorem spaced_words (text : List Char) : Spaced (words text) text := by
  have some : ∃ tokens, Spaced tokens text := by
    induction text with
    | nil => exact ⟨[], .nil⟩
    | cons c text ih =>
      obtain ⟨tokens, h⟩ := ih
      by_cases hc : isBlank c
      · exact ⟨tokens, .blank hc h⟩
      · exact h.cons hc
  obtain ⟨tokens, h⟩ := some
  rwa [h.words_eq]

/-- A word has a character, and no blank. -/
theorem Spaced.solid (h : Spaced tokens text) :
    ∀ token ∈ tokens, token ≠ [] ∧ ∀ c ∈ token, ¬ isBlank c := by
  induction h with
  | nil => exact nofun
  | blank _ _ ih => exact ih
  | token visible solid _ _ ih => exact List.forall_mem_cons.mpr ⟨⟨visible, solid⟩, ih⟩

theorem words_eq_iff : words text = tokens ↔ Spaced tokens text :=
  ⟨fun h => h ▸ spaced_words text, Spaced.words_eq⟩

/-! ## Trimmed texts -/

theorem trim_eq (text : List Char) : trim text = (text.dropWhile isBlank).rdropWhile isBlank := rfl

theorem trim_blanks_append (hx : ∀ c ∈ x, isBlank c) (y : List Char) : trim (x ++ y) = trim y := by
  rw [trim_eq, List.dropWhile_append_of_pos hx, trim_eq]

theorem rdropWhile_append_blanks (x : List Char) (hy : ∀ c ∈ y, isBlank c) :
    (x ++ y).rdropWhile isBlank = x.rdropWhile isBlank := by
  unfold List.rdropWhile
  rw [List.reverse_append, List.dropWhile_append_of_pos fun c hc => hy c (List.mem_reverse.mp hc)]

/-- The first visible character stays. -/
theorem rdropWhile_cons (hc : ¬ isBlank c) (x : List Char) :
    (c :: x).rdropWhile isBlank = c :: x.rdropWhile isBlank := by
  unfold List.rdropWhile
  rw [List.reverse_cons, List.dropWhile_append]
  split
  · next none =>
    rw [List.isEmpty_iff.mp none, List.dropWhile_cons_of_neg hc]
    rfl
  · rw [List.reverse_append]
    rfl

theorem trim_append_blanks (x : List Char) (hy : ∀ c ∈ y, isBlank c) : trim (x ++ y) = trim x := by
  rw [trim_eq, trim_eq, List.dropWhile_append]
  split
  · next none =>
    rw [List.isEmpty_iff] at none
    rw [none, List.dropWhile_eq_nil_iff.mpr hy]
  · exact rdropWhile_append_blanks _ hy

/-- What begins with visible characters is trimmed at its end only. -/
theorem trim_solid_append (visible : x ≠ []) (solid : ∀ c ∈ x, ¬ isBlank c) (y : List Char) :
    trim (x ++ y) = x ++ y.rdropWhile isBlank := by
  have front : (x ++ y).dropWhile isBlank = x ++ y := by
    obtain ⟨c, x, rfl⟩ := List.exists_cons_of_ne_nil visible
    exact List.dropWhile_cons_of_neg (solid c List.mem_cons_self)
  rw [trim_eq, front]
  clear visible front
  induction x with
  | nil => rfl
  | cons c x ih =>
    rw [List.forall_mem_cons] at solid
    rw [List.cons_append, rdropWhile_cons solid.1, ih solid.2, List.cons_append]

/-- A text is what is left of it when it is trimmed, between blanks. -/
theorem rdropWhile_blanks (text : List Char) :
    ∃ after, (∀ c ∈ after, isBlank c) ∧ text = text.rdropWhile isBlank ++ after :=
  ⟨text.rtakeWhile isBlank, fun _ hc => List.mem_rtakeWhile_imp hc,
    List.rdropWhile_append_rtakeWhile.symm⟩

theorem trim_rdropWhile (text : List Char) : trim (text.rdropWhile isBlank) = trim text := by
  obtain ⟨after, blanks, split⟩ := rdropWhile_blanks text
  conv_rhs => rw [split]
  exact (trim_append_blanks _ blanks).symm

/-- A trimmed text is not trimmed further. -/
theorem trim_trim (text : List Char) : trim (trim text) = trim text := by
  rw [trim_eq text, trim_rdropWhile]
  conv_rhs => rw [← trim_eq, ← List.takeWhile_append_dropWhile (p := isBlank) (l := text)]
  exact (trim_blanks_append (fun c hc => List.mem_takeWhile_imp hc) _).symm

theorem words_rdropWhile (text : List Char) : words (text.rdropWhile isBlank) = words text := by
  obtain ⟨after, blanks, split⟩ := rdropWhile_blanks text
  conv_rhs => rw [split]
  exact (words_append_blanks _ blanks).symm

theorem words_trim (text : List Char) : words (trim text) = words text := by
  rw [trim_eq, words_rdropWhile]
  conv_rhs => rw [← List.takeWhile_append_dropWhile (p := isBlank) (l := text)]
  exact (words_blanks_append (fun c hc => List.mem_takeWhile_imp hc) _).symm

/-! ## Lines -/

theorem trim_endLine (line : List Char) : trim (endLine line) = trim line := by
  unfold endLine
  split
  · next h =>
    obtain ⟨front, rfl⟩ := List.getLast?_eq_some_iff.mp h
    rw [List.dropLast_concat, trim_append_blanks front (List.forall_mem_singleton.mpr rfl)]
  · rfl

/-- The rows between line feeds are the lines, trimmed, but for an empty one after the last line
feed. -/
theorem trim_lines (text : List Char) :
    (text.splitOn '\n').map trim = (lines text).map trim ∨
      (text.splitOn '\n').map trim = (lines text).map trim ++ [[]] := by
  have cut : pieces (· == '\n') text = text.splitOn '\n' := by
    rw [pieces_eq, List.splitOn_eq_splitOnP]
  have some : text.splitOn '\n' ≠ [] := List.splitOn_ne_nil _ _
  obtain ⟨front, last, split⟩ : ∃ front last, text.splitOn '\n' = front ++ [last] :=
    ⟨_, _, (List.dropLast_concat_getLast some).symm⟩
  have ends : (front.map endLine).map trim = front.map trim := by
    rw [List.map_map]
    exact List.map_congr_left fun line _ => trim_endLine line
  unfold lines
  simp only [cut, split, List.dropLast_concat, List.getLastD_concat, List.map_append, ends]
  cases last with
  | nil => exact .inr (by simp; rfl)
  | cons c last => exact .inl (by simp)

/-- The words of the rows are those of the text. -/
theorem words_rows (text : List Char) : (text.splitOn '\n').flatMap words = words text := by
  rw [← words_intercalate (c := '\n') rfl, List.intercalate_splitOn]

/-! ## Rows that are not empty -/

/-- The trimmed lines that have words. -/
def filled (text : List Char) : List (List Char) := ((lines text).map trim).filter (!·.isEmpty)

theorem filled_eq (text : List Char) :
    filled text = ((text.splitOn '\n').map trim).filter (!·.isEmpty) := by
  rcases trim_lines text with same | same
  · rw [same]
    rfl
  · rw [same, List.filter_append]
    exact (List.append_nil _).symm

theorem words_filled (text : List Char) : (filled text).flatMap words = words text := by
  have skip (rows : List (List Char)) :
      (rows.filter (!·.isEmpty)).flatMap words = rows.flatMap words := by
    induction rows with
    | nil => rfl
    | cons row rows ih =>
      cases row with
      | nil => exact ih
      | cons c row => exact congrArg (words (c :: row) ++ ·) ih
  rw [filled_eq, skip, List.flatMap_map, ← words_rows text]
  exact List.flatMap_congr fun row _ => words_trim row

theorem filled_append_line (x y : List Char) : filled (x ++ '\n' :: y) = filled x ++ filled y := by
  simp only [filled_eq, List.splitOn_append_cons_self, List.map_append, List.filter_append]

theorem filled_blanks_append (hx : ∀ c ∈ x, isBlank c) (y : List Char) :
    filled (x ++ y) = filled y := by
  induction x with
  | nil => rfl
  | cons c x ih =>
    rw [List.forall_mem_cons] at hx
    rw [← ih hx.2, List.cons_append]
    generalize x ++ y = z
    by_cases feed : c = '\n'
    · rw [feed]
      exact filled_append_line [] z
    · obtain ⟨row, rows, cut⟩ := List.exists_cons_of_ne_nil (List.splitOn_ne_nil '\n' z)
      have same : trim (c :: row) = trim row :=
        trim_blanks_append (List.forall_mem_singleton.mpr hx.1) row
      simp only [filled_eq, List.splitOn_cons_eq_if_modifyHead, beq_iff_eq, feed, if_false, cut,
        List.modifyHead_cons, List.map_cons, same]

end Text

end FiniteStructures
