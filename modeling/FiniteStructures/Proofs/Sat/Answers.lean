import Mathlib.Data.List.Forall2
import FiniteStructures.Proofs.Sat.Truth
import FiniteStructures.Proofs.Text.Words
import FiniteStructures.Sat.Answer

/-!
What the texts of solvers are read as.  An answer with a model is one whose tokens before the first zero
are literals, and the model is that of these literals (`readLiterals_iff`); a later literal overrides an
earlier one (`ofLiterals_values`).

    ofResultFile text n = .ok (some m)  ↔  the first line is SAT, and the words after it are such tokens
    ofCompetition text n = .ok (some m) ↔  the status is SATISFIABLE, the words of the value lines are
                                           such tokens, and a zero is in the last one only
-/

namespace FiniteStructures

/-! ## Literals -/

namespace Assignment

theorem size_ofLiterals (numVars : Nat) (literals : List Literal) :
    (ofLiterals numVars literals).values.size = numVars + 1 := by
  have kept (values : Array Bool) : (literals.foldl record values).size = values.size := by
    induction literals generalizing values with
    | nil => rfl
    | cons l literals ih => rw [List.foldl_cons, ih, record, Array.size_setIfInBounds]
  rw [ofLiterals, kept, Array.size_replicate]

/-- A variable is true if the last literal of it is positive. -/
theorem ofLiterals_values {numVars v : Nat} (literals : List Literal) (hv : v ≤ numVars) :
    (ofLiterals numVars literals).values[v]? =
      some (((literals.filter fun l => l.var = v).getLast?).any fun l => !l.isNegated) := by
  induction literals using List.reverseRecOn with
  | nil => exact Array.getElem?_replicate.trans (if_pos (Nat.lt_succ_of_le hv))
  | append_singleton literals l ih =>
    have covers : v < (ofLiterals numVars literals).values.size := by
      rw [size_ofLiterals]
      exact Nat.lt_succ_of_le hv
    have last : (ofLiterals numVars (literals ++ [l])).values =
        (ofLiterals numVars literals).values.setIfInBounds l.var (!l.isNegated) := by
      unfold ofLiterals
      rw [List.foldl_concat]
      rfl
    rw [last, List.filter_append]
    by_cases h : l.var = v
    · subst h
      simp [covers]
    · simp [h, ih]

end Assignment

namespace Answer

/-! ## Tokens -/

/-- The token is a numeral of zero. -/
def isZero (token : List Char) : Bool := Text.integer? token = some 0

/-- The tokens before the first zero. -/
def beforeZero (tokens : List (List Char)) : List (List Char) := tokens.takeWhile (!isZero ·)

/-- The tokens are numerals of literals, whose variables are among those of the formula. -/
def Names (numVars : Nat) (tokens : List (List Char)) (literals : List Literal) : Prop :=
  List.Forall₂ (fun token l => Text.integer? token = some l.value ∧ l.var ≤ numVars) tokens literals

variable {numVars : Nat} {token : List Char} {tokens : List (List Char)}
  {literals read : List Literal}

theorem isZero_iff : isZero token ↔ Text.integer? token = some 0 := decide_eq_true_iff

theorem beforeZero_zero (h : isZero token) : beforeZero (token :: tokens) = [] := by
  simp [beforeZero, h]

theorem beforeZero_cons (h : ¬ isZero token) :
    beforeZero (token :: tokens) = token :: beforeZero tokens := by
  simp [beforeZero, h]

theorem readLiterals_zero (zero : isZero token) :
    readLiterals numVars (token :: tokens) read = .ok ⟨read, true⟩ := by
  rw [readLiterals]
  split
  · next other => cases other.symm.trans (isZero_iff.mp zero)
  · next k number =>
    obtain rfl := Option.some.inj (number.symm.trans (isZero_iff.mp zero))
    exact dif_pos rfl

/-- A token that is no zero has to be a literal of the formula. -/
theorem readLiterals_cons (other : ¬ isZero token) {r : Reading} :
    readLiterals numVars (token :: tokens) read = .ok r ↔ ∃ l : Literal,
      (Text.integer? token = some l.value ∧ l.var ≤ numVars) ∧
        readLiterals numVars tokens (l :: read) = .ok r := by
  constructor
  · intro h
    rw [readLiterals] at h
    split at h
    · cases h
    · next k number =>
      have hk : k ≠ 0 := fun hk => other (isZero_iff.mpr (hk ▸ number))
      rw [dif_neg hk] at h
      split at h
      · cases h
      · next small => exact ⟨⟨k, hk, _⟩, ⟨number, Nat.le_of_not_lt small⟩, h⟩
  · rintro ⟨l, ⟨number, small⟩, h⟩
    rw [readLiterals]
    split
    · next none => cases none.symm.trans number
    · next k same =>
      obtain rfl := Option.some.inj (same.symm.trans number)
      exact (dif_neg l.value_ne_zero).trans ((if_neg (Nat.not_lt.mpr small)).trans h)

/-- No tokens name no literals. -/
theorem exists_names_nil {r : Reading} {ended : Bool} :
    (∃ literals, Names numVars [] literals ∧ r = ⟨literals.reverse ++ read, ended⟩) ↔
      .ok ⟨read, ended⟩ = (.ok r : Except AnswerError Reading) := by
  constructor
  · rintro ⟨literals, names, rfl⟩
    obtain rfl : literals = [] := List.forall₂_nil_left_iff.mp names
    rfl
  · rintro ⟨⟩
    exact ⟨[], .nil, rfl⟩

/-- Reading ends with literals if the tokens before the first zero are some; what stands after it
does not count. -/
theorem readLiterals_iff {r : Reading} : readLiterals numVars tokens read = .ok r ↔
    ∃ literals, Names numVars (beforeZero tokens) literals ∧
      r = ⟨literals.reverse ++ read, tokens.any isZero⟩ := by
  induction tokens generalizing read with
  | nil => exact exists_names_nil.symm
  | cons token tokens ih =>
    by_cases zero : isZero token
    · rw [readLiterals_zero zero, beforeZero_zero zero, List.any_cons, zero]
      exact exists_names_nil.symm
    · rw [readLiterals_cons zero, beforeZero_cons zero, List.any_cons, Bool.eq_false_iff.mpr zero,
        Bool.false_or]
      constructor
      · rintro ⟨l, named, h⟩
        obtain ⟨literals, names, rfl⟩ := ih.mp h
        exact ⟨l :: literals, .cons named names, by simp⟩
      · rintro ⟨_, names, rfl⟩
        obtain ⟨l, literals, named, rest, rfl⟩ := List.forall₂_cons_left_iff.mp names
        exact ⟨l, named, ih.mpr ⟨literals, rest, by simp⟩⟩

/-! ## Lines -/

theorem bind_eq_ok {α β : Type} {x : Except AnswerError α} {f : α → Except AnswerError β} {b : β} :
    x >>= f = .ok b ↔ ∃ a, x = .ok a ∧ f a = .ok b := by
  cases x with
  | error e => exact iff_of_false nofun nofun
  | ok a => exact ⟨fun h => ⟨a, rfl, h⟩, fun ⟨_, same, h⟩ => Except.ok.inj same ▸ h⟩

/-- The words of a value line are read after those of the lines before it, unless these had a zero. -/
def readLine (numVars : Nat) (r : Reading) (tokens : List (List Char)) :
    Except AnswerError Reading :=
  if r.terminated then .error .valuesAfterEnd else readLiterals numVars tokens r.literals

theorem names_append {x y : List (List Char)} : Names numVars (x ++ y) literals ↔
    ∃ k l, Names numVars x k ∧ Names numVars y l ∧ literals = k ++ l := by
  constructor
  · intro h
    induction x generalizing literals with
    | nil => exact ⟨[], literals, .nil, h, rfl⟩
    | cons token x ih =>
      obtain ⟨l, literals, first, rest, rfl⟩ := List.forall₂_cons_left_iff.mp h
      obtain ⟨k, l, hk, hl, rfl⟩ := ih rest
      exact ⟨_, l, .cons first hk, hl, rfl⟩
  · rintro ⟨k, l, hk, hl, rfl⟩
    exact List.rel_append hk hl

theorem beforeZero_append {x : List (List Char)} (h : x.any isZero = false) (y : List (List Char)) :
    beforeZero (x ++ y) = x ++ beforeZero y := by
  refine List.takeWhile_append_of_pos fun token ht => ?_
  rw [Bool.not_eq_true']
  exact Bool.eq_false_iff.mpr fun zero => List.any_eq_false.mp h token ht zero

theorem beforeZero_of_no_zero (h : tokens.any isZero = false) : beforeZero tokens = tokens := by
  rw [← List.append_nil tokens, beforeZero_append h]
  rfl

/-- Value lines are read if all their words are, as those of one line, and no line follows the one with
a zero. -/
theorem foldlM_readLine {chunks : List (List (List Char))} {r : Reading} :
    chunks.foldlM (readLine numVars) ⟨read, false⟩ = .ok r ↔
      (∀ chunk ∈ chunks.dropLast, chunk.any isZero = false) ∧
      ∃ literals, Names numVars (beforeZero chunks.flatten) literals ∧
        r = ⟨literals.reverse ++ read, chunks.flatten.any isZero⟩ := by
  induction chunks generalizing read with
  | nil => exact exists_names_nil.symm.trans (and_iff_right nofun).symm
  | cons chunk chunks ih =>
    have first : readLine numVars ⟨read, false⟩ chunk = readLiterals numVars chunk read := rfl
    rw [List.foldlM_cons, first, List.flatten_cons, List.any_append]
    cases zero : chunk.any isZero with
    | true =>
      cases chunks with
      | nil =>
        have last : (do let r ← readLiterals numVars chunk read; [].foldlM (readLine numVars) r) =
            readLiterals numVars chunk read := bind_pure _
        rw [last, readLiterals_iff, List.flatten_nil, List.append_nil, zero]
        exact (and_iff_right nofun).symm
      | cons next chunks =>
        refine iff_of_false (fun h => ?_) fun ⟨front, _⟩ => ?_
        · obtain ⟨_, line, h⟩ := bind_eq_ok.mp h
          obtain ⟨literals, -, rfl⟩ := readLiterals_iff.mp line
          rw [zero] at h
          cases h
        · cases zero.symm.trans (front chunk List.mem_cons_self)
    | false =>
      have rest : (∀ c ∈ (chunk :: chunks).dropLast, c.any isZero = false) ↔
          ∀ c ∈ chunks.dropLast, c.any isZero = false := by
        cases chunks with
        | nil => exact Iff.rfl
        | cons next chunks => rw [List.dropLast_cons_cons, List.forall_mem_cons, and_iff_right zero]
      have all : beforeZero chunk = chunk := beforeZero_of_no_zero zero
      rw [beforeZero_append zero, Bool.false_or, rest]
      constructor
      · intro h
        obtain ⟨_, line, h⟩ := bind_eq_ok.mp h
        obtain ⟨k, hk, rfl⟩ := readLiterals_iff.mp line
        rw [zero] at h
        obtain ⟨front, l, hl, rfl⟩ := ih.mp h
        rw [all] at hk
        exact ⟨front, k ++ l, names_append.mpr ⟨k, l, hk, hl, rfl⟩, by simp⟩
      · rintro ⟨front, literals, names, rfl⟩
        obtain ⟨k, l, hk, hl, rfl⟩ := names_append.mp names
        have line : readLiterals numVars chunk read = .ok ⟨k.reverse ++ read, false⟩ :=
          readLiterals_iff.mpr ⟨k, by rwa [all], by rw [zero]⟩
        rw [line]
        exact ih.mpr ⟨front, l, hl, by simp⟩

/-- What the status lines say. -/
def statuses (rows : List (List Char)) : List (List Char) :=
  (rows.filterMap (Text.after? "s ".toList)).map Text.trim

/-- The words of each value line. -/
def values (rows : List (List Char)) : List (List (List Char)) :=
  (rows.filterMap (Text.after? "v".toList)).map Text.words

theorem statuses_append (x y : List (List Char)) :
    statuses (x ++ y) = statuses x ++ statuses y := by
  unfold statuses
  rw [List.filterMap_append, List.map_append]

theorem values_append (x y : List (List Char)) : values (x ++ y) = values x ++ values y := by
  unfold values
  rw [List.filterMap_append, List.map_append]

theorem statuses_singleton (row : List Char) :
    statuses [row] = ((Text.after? "s ".toList row).map Text.trim).toList := by
  unfold statuses
  rw [List.filterMap_cons]
  cases Text.after? "s ".toList row <;> rfl

theorem values_singleton (row : List Char) :
    values [row] = ((Text.after? "v".toList row).map Text.words).toList := by
  unfold values
  rw [List.filterMap_cons]
  cases Text.after? "v".toList row <;> rfl

theorem after?_eq_some {beginning text rest : List Char} :
    Text.after? beginning text = some rest ↔ text = beginning ++ rest := by
  unfold Text.after?
  split
  · next h =>
    obtain ⟨t, rfl⟩ := List.isPrefixOf_iff_prefix.mp h
    rw [List.drop_left, Option.some.injEq, List.append_cancel_left_eq]
  · next h =>
    refine iff_of_false nofun fun same => h ?_
    rw [same]
    exact List.isPrefixOf_iff_prefix.mpr (List.prefix_append _ _)

/-- What a list of one element at most begins with has one at most. -/
theorem eq_toList_of_append {α : Type} {x y : List α} {o : Option α} (h : x ++ y = o.toList) :
    ∃ o' : Option α, x = o'.toList := by
  cases x with
  | nil => exact ⟨none, rfl⟩
  | cons a x =>
    cases o with
    | none => cases h
    | some b =>
      obtain ⟨-, rest⟩ := List.cons.inj h
      obtain ⟨rfl, -⟩ := List.append_eq_nil_iff.mp rest
      exact ⟨some a, rfl⟩

theorem toList_eq_iff {α : Type} {o o' : Option α} : o.toList = o'.toList ↔ o = o' := by
  cases o <;> cases o' <;> simp

/-- A line adds to what the status lines say, or to the value lines, or to neither. -/
theorem line_iff {row : List Char} {p q : Progress} :
    Progress.line numVars p row = .ok q ↔
      p.status.toList ++ statuses [row] = q.status.toList ∧
      (values [row]).foldlM (readLine numVars) p.reading = .ok q.reading := by
  obtain ⟨status, reading⟩ := p
  obtain ⟨status', reading'⟩ := q
  rw [statuses_singleton, values_singleton, Progress.line]
  cases answer : Text.after? "s ".toList row with
  | some said =>
    rw [after?_eq_some.mp answer]
    cases status with
    | some old => exact iff_of_false nofun fun ⟨two, _⟩ => by cases status' <;> cases two
    | none =>
      constructor
      · rintro ⟨⟩
        exact ⟨rfl, rfl⟩
      · rintro ⟨same, ⟨⟩⟩
        obtain rfl : some (Text.trim said) = status' := toList_eq_iff.mp same
        rfl
  | none =>
    rw [Option.map_none, Option.toList_none, List.append_nil, toList_eq_iff]
    cases value : Text.after? "v".toList row with
    | some words =>
      have line : (if reading.terminated then .error .valuesAfterEnd else do
            let reading ← readLiterals numVars (Text.words words) reading.literals
            return ⟨status, reading⟩ : Except AnswerError Progress) = do
          let reading ← readLine numVars reading (Text.words words)
          return ⟨status, reading⟩ := by
        unfold readLine
        split <;> rfl
      refine Iff.trans (Eq.congr_left line) ?_
      rw [Option.map_some, Option.toList_some, List.foldlM_cons]
      cases readLine numVars reading (Text.words words) with
      | error e => exact iff_of_false nofun nofun
      | ok reading =>
        constructor
        · rintro ⟨⟩
          exact ⟨rfl, rfl⟩
        · rintro ⟨rfl, ⟨⟩⟩
          rfl
    | none =>
      constructor
      · rintro ⟨⟩
        exact ⟨rfl, rfl⟩
      · rintro ⟨rfl, ⟨⟩⟩
        rfl

/-- Status lines and value lines do not touch each other: there is one status at most, and the value
lines are read in order. -/
theorem foldlM_line {rows : List (List Char)} {p q : Progress} :
    rows.foldlM (Progress.line numVars) p = .ok q ↔
      p.status.toList ++ statuses rows = q.status.toList ∧
      (values rows).foldlM (readLine numVars) p.reading = .ok q.reading := by
  induction rows generalizing p with
  | nil =>
    rw [show statuses [] = [] from rfl, List.append_nil, toList_eq_iff]
    constructor
    · rintro ⟨⟩
      exact ⟨rfl, rfl⟩
    · obtain ⟨status, reading⟩ := p
      obtain ⟨status', reading'⟩ := q
      rintro ⟨⟨⟩, ⟨⟩⟩
      rfl
  | cons row rows ih =>
    rw [List.foldlM_cons, bind_eq_ok, ← List.singleton_append, statuses_append, values_append,
      List.foldlM_append, bind_eq_ok, ← List.append_assoc]
    simp only [line_iff, ih]
    constructor
    · rintro ⟨p', ⟨said, read⟩, said', read'⟩
      exact ⟨by rw [said, said'], p'.reading, read, read'⟩
    · rintro ⟨said, reading, read, read'⟩
      obtain ⟨status, one⟩ := eq_toList_of_append said
      exact ⟨⟨status, reading⟩, ⟨one, read⟩, one ▸ said, read'⟩

/-! ## Texts -/

theorem model_reading (literals : List Literal) (ended : Bool) :
    (⟨literals.reverse ++ [], ended⟩ : Reading).model numVars =
      Assignment.ofLiterals numVars literals := by
  rw [Reading.model, List.append_nil, List.reverse_reverse]

/-- The lines of competition output, trimmed. -/
def rows (text : List Char) : List (List Char) := (Text.lines text).map Text.trim

/-- An empty row says nothing, so cutting a text at line feeds gives the same. -/
theorem statuses_rows (text : List Char) :
    statuses (rows text) = statuses ((text.splitOn '\n').map Text.trim) := by
  rcases Text.trim_lines text with same | same
  · rw [same]
    rfl
  · rw [same, statuses_append]
    exact (List.append_nil _).symm

theorem values_rows (text : List Char) :
    values (rows text) = values ((text.splitOn '\n').map Text.trim) := by
  rcases Text.trim_lines text with same | same
  · rw [same]
    rfl
  · rw [same, values_append]
    exact (List.append_nil _).symm

theorem ofCompetition_iff {text : List Char} {m : Assignment} :
    ofCompetition text numVars = .ok (some m) ↔
      statuses (rows text) = ["SATISFIABLE".toList] ∧
      (∀ chunk ∈ (values (rows text)).dropLast, chunk.any isZero = false) ∧
      ∃ literals, Names numVars (beforeZero (values (rows text)).flatten) literals ∧
        m = Assignment.ofLiterals numVars literals := by
  unfold ofCompetition
  rw [bind_eq_ok]
  constructor
  · rintro ⟨⟨status, reading⟩, fold, answer⟩
    obtain ⟨said, read⟩ := foldlM_line.mp fold
    obtain ⟨front, literals, names, rfl⟩ := foldlM_readLine.mp read
    cases status with
    | none => cases answer
    | some status =>
      dsimp only at answer
      split at answer
      · cases answer
      · split at answer
        · next sat =>
          subst sat
          refine ⟨said, front, literals, names, ?_⟩
          rw [← model_reading]
          exact (Option.some.inj (Except.ok.inj answer)).symm
        · cases answer
  · rintro ⟨said, front, literals, names, rfl⟩
    have read : (values (rows text)).foldlM (readLine numVars) ⟨[], false⟩ =
        .ok ⟨literals.reverse ++ [], (values (rows text)).flatten.any isZero⟩ :=
      foldlM_readLine.mpr ⟨front, literals, names, rfl⟩
    refine ⟨⟨some "SATISFIABLE".toList, _⟩, foldlM_line.mpr ⟨said, read⟩, ?_⟩
    rw [← model_reading]
    rfl

theorem ofResultFile_iff {text : List Char} {m : Assignment} :
    ofResultFile text numVars = .ok (some m) ↔
      ∃ rest, Text.filled text = "SAT".toList :: rest ∧
      ∃ literals, Names numVars (beforeZero (rest.flatMap Text.words)) literals ∧
        m = Assignment.ofLiterals numVars literals := by
  unfold ofResultFile
  rw [← Text.filled]
  cases Text.filled text with
  | nil => exact iff_of_false nofun nofun
  | cons first rest =>
    constructor
    · intro h
      dsimp only at h
      split at h
      · cases h
      · split at h
        · next sat =>
          subst sat
          obtain ⟨_, read, answer⟩ := bind_eq_ok.mp h
          obtain ⟨literals, names, rfl⟩ := readLiterals_iff.mp read
          refine ⟨rest, rfl, literals, names, ?_⟩
          rw [← model_reading]
          exact (Option.some.inj (Except.ok.inj answer)).symm
        · cases h
    · rintro ⟨_, ⟨rfl, rfl⟩, literals, names, rfl⟩
      have read : readLiterals numVars (rest.flatMap Text.words) [] =
          .ok ⟨literals.reverse ++ [], (rest.flatMap Text.words).any isZero⟩ :=
        readLiterals_iff.mpr ⟨literals, names, rfl⟩
      rw [← model_reading]
      exact bind_eq_ok.mpr ⟨_, read, rfl⟩

end Answer

end FiniteStructures
