import Mathlib.Data.List.Basic
import FiniteStructures.Proofs.Sat.Growth

/-!
Marks of occurrence.  In a tidy formula the marked variables are exactly those of its clauses, so
reading it pads the variables that occur nowhere.  Every call keeps a formula tidy, however it ends,
except for a clause that is refused: it leaves the marks of its first literals.

    i.Tidy  →  (exec x i).2 = k  ∨  (exec x i).2 = k.marking before      (Compile.Keeps)

for a tidy formula k.  A variable that has such a mark and no clause is not padded (`Tidy.lacks`);
that the others are needs 32 bits, which a formula has left that refused a variable.
-/

namespace FiniteStructures

/-- The variable occurs in a clause of the formula. -/
def Cnf.Mentions (cnf : Cnf) (v : Nat) : Prop := ∃ c ∈ cnf.clauses.toList, ∃ l ∈ c, l.var = v

instance (cnf : Cnf) (v : Nat) : Decidable (cnf.Mentions v) :=
  inferInstanceAs (Decidable (∃ c ∈ cnf.clauses.toList, ∃ l ∈ c, l.var = v))

namespace Instance

open Compile Literal

variable {i j : Instance}

/-- Clauses are made of minted variables, and those that occur in one are marked. -/
structure Tidy (i : Instance) : Prop where
  marked : i.Marked
  minted : ∀ c ∈ i.clauses.toList, ∀ l ∈ c, i.Minted l
  occurs : ∀ v, i.occurs[v]? = some true ↔ i.cnf.Mentions v

theorem mentions_recordAll (i : Instance) (cs : List Clause) (v : Nat) :
    (i.recordAll cs).cnf.Mentions v ↔ i.cnf.Mentions v ∨ ∃ c ∈ cs, ∃ l ∈ c, l.var = v := by
  unfold Cnf.Mentions cnf
  simp only [clauses_recordAll, List.mem_append, or_and_right, exists_or]

/-- A clause marks its variables, as far as there is a place for their marks. -/
theorem getElem?_mark (occurs : Array Bool) (c : Clause) (v : Nat) :
    (mark occurs c)[v]? = some true ↔
      occurs[v]? = some true ∨ (v < occurs.size ∧ ∃ l ∈ c, l.var = v) := by
  induction c generalizing occurs with
  | nil => simp [mark]
  | cons l c ih =>
    show (mark (occurs.setIfInBounds l.var true) c)[v]? = some true ↔ _
    rw [ih, Array.getElem?_setIfInBounds, Array.size_setIfInBounds]
    by_cases hv : l.var = v
    · by_cases small : v < occurs.size
      · simp [hv, small]
      · simp [hv, small]
    · simp [hv]

theorem Marked.marking (h : i.Marked) (c : Clause) : (i.marking c).Marked := by
  show (mark i.occurs c).size = i.numVars + 1
  rw [size_mark, h]

/-- A variable with a place for its mark is one of the formula. -/
theorem Marked.lt_iff (h : i.Marked) {v : Nat} : v < i.occurs.size ↔ v ≤ i.numVars := by
  rw [h]
  exact Nat.lt_succ_iff

/-! ## Steps -/

theorem Tidy.initial : Instance.initial.Tidy where
  marked := rfl
  minted := minted_initial
  occurs v := by
    match v with
    | 0 => decide
    | 1 => decide
    | v + 2 => simp [Instance.initial, cnf, Cnf.Mentions]

theorem Tidy.mint (h : i.Tidy) : i.mint.Tidy where
  marked := h.marked.mint
  minted c hc l hl := Nat.le_succ_of_le (h.minted c hc l hl)
  occurs v := by
    refine Iff.trans ?_ (h.occurs v)
    show (i.occurs.push false)[v]? = some true ↔ _
    rw [Array.getElem?_push]
    split
    · next hv => simp [hv]
    · exact Iff.rfl

theorem Tidy.record (h : i.Tidy) {c : Clause} (minted : ∀ l ∈ c, i.Minted l) :
    (i.record c).Tidy where
  marked := h.marked.record c
  minted d hd l hl := by
    rw [clauses_record, Array.toList_push] at hd
    rcases List.mem_append.mp hd with hd | hd
    · exact h.minted d hd l hl
    · rw [List.mem_singleton.mp hd] at hl
      exact minted l hl
  occurs v := by
    have places : (v < i.occurs.size ∧ ∃ l ∈ c, l.var = v) ↔ ∃ l ∈ c, l.var = v := by
      refine and_iff_right_of_imp ?_
      rintro ⟨l, hl, rfl⟩
      exact h.marked.lt_iff.mpr (minted l hl)
    show (mark i.occurs c)[v]? = some true ↔ (i.recordAll [c]).cnf.Mentions v
    rw [getElem?_mark, h.occurs, places, mentions_recordAll]
    simp

/-- The gates in the memo have no marks. -/
theorem Tidy.keep (h : i.Tidy) (g : Gate) (key : Literal × Literal) (c : Literal) :
    (g.keep key c i).Tidy := by
  obtain ⟨marked, minted, occurs⟩ := h
  cases g
  · exact ⟨marked, minted, occurs⟩
  · exact ⟨marked, minted, occurs⟩

/-! ## Reading -/

/-- A variable of the formula is idle unless it is marked. -/
theorem Marked.idle_eq (h : i.Marked) :
    idle i = ((List.range i.numVars).filter fun n => ¬ i.occurs[n + 1]? = some true).map ofVar := by
  unfold idle
  rw [← List.filterMap_eq_map, ← List.filterMap_eq_filter, List.filterMap_filterMap]
  refine List.filterMap_congr fun n hn => ?_
  have hn : n + 1 < i.occurs.size := h.lt_iff.mpr (List.mem_range.mp hn)
  obtain ⟨mark, place⟩ : ∃ mark, i.occurs[n + 1]? = some mark := ⟨_, Array.getElem?_eq_getElem hn⟩
  cases mark <;> simp [place, Option.guard]

/-- In a tidy formula the idle variables are those that occur in no clause. -/
theorem Tidy.idle_eq (h : i.Tidy) :
    idle i = ((List.range i.numVars).filter fun n => ¬ i.cnf.Mentions (n + 1)).map ofVar := by
  simp only [h.marked.idle_eq, h.occurs]

/-- Padding is a clause for each variable that has no mark. -/
theorem Marked.mentions_padded (h : i.Marked) (room : i.numVars < varLimit) {v : Nat} (one : 1 ≤ v)
    (le : v ≤ i.numVars) :
    (padded i).cnf.Mentions v ↔ i.cnf.Mentions v ∨ ¬ i.occurs[v]? = some true := by
  obtain ⟨n, rfl⟩ : ∃ n, v = n + 1 := ⟨v - 1, by omega⟩
  rw [padded, mentions_recordAll, h.idle_eq]
  refine or_congr_right ⟨?_, fun unmarked => ?_⟩
  · rintro ⟨c, hc, l, hl, hv⟩
    simp only [List.map_map, List.mem_map, List.mem_filter, List.mem_range, decide_eq_true_eq] at hc
    obtain ⟨k, ⟨hk, unmarked⟩, rfl⟩ := hc
    have var : l.var = k + 1 := by
      simp only [Function.comp_apply, tautology, List.mem_cons, List.not_mem_nil, or_false] at hl
      rcases hl with rfl | rfl
      · exact var_ofVar (Nat.lt_trans hk room)
      · rw [var_opposite, var_ofVar (Nat.lt_trans hk room)]
    rwa [← hv, var]
  · refine ⟨tautology (ofVar n), List.mem_map_of_mem (List.mem_map_of_mem ?_), ofVar n,
      List.mem_cons_self, var_ofVar (Nat.lt_trans le room)⟩
    exact List.mem_filter.mpr ⟨List.mem_range.mpr le, decide_eq_true unmarked⟩

/-- When the formula is read, the variables with the property, and no others of those declared,
occur in no clause. -/
def Lacks (i : Instance) (lost : Nat → Prop) : Prop :=
  ∃ cnf j, exec formula i = (.ok cnf, j) ∧
    ∀ v, 1 ≤ v → v ≤ cnf.numVars → (¬ cnf.Mentions v ↔ lost v)

theorem Lacks.congr {lost lost' : Nat → Prop} (h : i.Lacks lost)
    (same : ∀ v, 1 ≤ v → (lost v ↔ lost' v)) : i.Lacks lost' := by
  obtain ⟨cnf, j, run, misses⟩ := h
  exact ⟨cnf, j, run, fun v one le => (misses v one le).trans (same v one)⟩

/-- Where a tidy formula got further marks, the variables that have only these are lost. -/
theorem Tidy.lacks_marking (h : i.Tidy) (room : i.numVars < varLimit) (before : Clause) :
    (i.marking before).Lacks fun v => (∃ l ∈ before, l.var = v) ∧ ¬ i.cnf.Mentions v := by
  have marked := h.marked.marking before
  refine ⟨_, _, exec_formula marked room, fun v one le => ?_⟩
  have le : v ≤ (i.marking before).numVars := by
    rwa [padded, Instance.cnf, numVars_recordAll] at le
  have marks : (i.marking before).occurs[v]? = some true ↔
      i.cnf.Mentions v ∨ ∃ l ∈ before, l.var = v := by
    show (mark i.occurs before)[v]? = some true ↔ _
    rw [getElem?_mark, h.occurs, and_iff_right (h.marked.lt_iff.mpr le)]
  rw [marked.mentions_padded room one le, marks]
  show ¬ (i.cnf.Mentions v ∨ ¬ (i.cnf.Mentions v ∨ _)) ↔ _
  grind

/-- Nothing is lost of a tidy formula. -/
theorem Tidy.lacks (h : i.Tidy) (room : i.numVars < varLimit) : i.Lacks fun _ => False :=
  (h.lacks_marking room []).congr fun v _ => by simp

end Instance

/-! ## Calls -/

namespace Compile

open Instance

variable {α β : Type} {fits : Clause → Prop}

/-- The computation was refused a variable that was never minted. -/
def Refused (r : Outcome α × Instance) : Prop :=
  ∃ v, r.1 = Outcome.breach (.unmintedVariable v)

/-- The computation came to the formula `k`, which is tidy.  If it was refused a variable, some
literals that fit may have been marked after that, and `k` has fewer variables than there are
literals. -/
structure Leaves (fits : Clause → Prop) (r : Outcome α × Instance) (k : Instance) : Prop where
  tidy : k.Tidy
  ends : r.2 = k ∨ ∃ before, fits before ∧ Refused r ∧ r.2 = k.marking before
  room : Refused r → k.numVars < Literal.varLimit

/-- The computation only adds to a tidy formula and keeps it tidy, however it ends. -/
def Keeps (fits : Clause → Prop) (x : Compile α) : Prop :=
  ∀ i : Instance, i.Tidy → ∃ k, i.Grows k ∧ Leaves fits (exec x i) k

theorem keeps_lift {o : Outcome α} (h : ∀ v, o ≠ Outcome.breach (.unmintedVariable v)) :
    Keeps fits (liftM o) :=
  fun i tidy => ⟨i, .refl i, tidy, .inl rfl, fun ⟨v, refused⟩ => absurd refused (h v)⟩

theorem Keeps.mono {fits' : Clause → Prop} {x : Compile α} (h : Keeps fits x)
    (sub : ∀ before, fits before → fits' before) : Keeps fits' x := by
  intro i tidy
  obtain ⟨k, grows, hk, ends, room⟩ := h i tidy
  refine ⟨k, grows, hk, ends.imp id ?_, room⟩
  rintro ⟨before, fit, rest⟩
  exact ⟨before, sub before fit, rest⟩

theorem Keeps.bind {x : Compile α} {f : α → Compile β} (hx : Keeps fits x)
    (hf : ∀ a, Keeps fits (f a)) : Keeps fits (x >>= f) := by
  intro i tidy
  rw [exec_bind]
  have first := hx i tidy
  revert first
  rcases exec x i with ⟨e | a, j⟩
  · rintro ⟨k, grows, hk, ends, room⟩
    have same {v : Nat} (he : (.error e : Outcome α) = Outcome.breach (.unmintedVariable v)) :
        (.error e : Outcome β) = Outcome.breach (.unmintedVariable v) :=
      congrArg Except.error (Except.error.inj he)
    refine ⟨k, grows, hk, ends.imp id ?_, fun ⟨v, he⟩ => room ⟨v, ?_⟩⟩
    · rintro ⟨before, fit, ⟨v, he⟩, rest⟩
      exact ⟨before, fit, ⟨v, same he⟩, rest⟩
    · exact congrArg Except.error (Except.error.inj he)
  · rintro ⟨k, grows, hk, rfl | ⟨-, -, ⟨v, he⟩, -⟩, -⟩
    · obtain ⟨m, grows', hm⟩ := hf a _ hk
      exact ⟨m, grows.trans grows', hm⟩
    · cases he

theorem sequential_keeps : Sequential (Keeps fits) := ⟨fun _ => keeps_lift nofun, .bind⟩

theorem keeps_neg (l : Literal) : Keeps fits (liftM l.neg) := by
  refine keeps_lift fun v refused => ?_
  rcases Literal.neg_cases l with ⟨-, hl⟩ | ⟨-, hl⟩
  · cases hl.symm.trans refused
  · cases hl.symm.trans refused

/-- The literals of all minted variables are smaller than that of one that was never minted. -/
theorem room_of_not_minted {i : Instance} {l : Literal} (hl : ¬ i.Minted l) :
    i.numVars < Literal.varLimit :=
  Nat.lt_of_lt_of_le (Nat.not_le.mp hl) (Literal.var_le l)

theorem keeps_addClause (c : Clause) (all : ∀ before, fits before) : Keeps fits (addClause c) := by
  intro i tidy
  rcases exec_addClause_cases c i with ⟨minted, run⟩ | ⟨before, l, after, -, -, large, run⟩
  · rw [run]
    refine ⟨i.record c, grows_recordAll i [c], tidy.record fun l hl => ?_, .inl rfl, nofun⟩
    exact tidy.marked.lt_iff.mp (minted l hl)
  · rw [run]
    refine ⟨i, .refl i, tidy, .inr ⟨before, all before, ⟨l.var, rfl⟩, rfl⟩, fun _ => ?_⟩
    exact room_of_not_minted fun minted => Nat.not_lt.mpr large (tidy.marked.lt_iff.mpr minted)

theorem closed_keeps (all : ∀ before, fits before) : Closed (Keeps fits) where
  toSequential := sequential_keeps
  get i tidy := ⟨i, .refl i, tidy, .inl rfl, nofun⟩
  neg := keeps_neg
  fresh i tidy := by
    rcases exec_fresh_cases i with ⟨-, run⟩ | ⟨-, run⟩
    · exact ⟨i.mint, grows_mint i, tidy.mint, .inl (by rw [run]), by rw [run]; exact nofun⟩
    · exact ⟨i, .refl i, tidy, .inl (by rw [run]), by rw [run]; exact nofun⟩
  addClause c := keeps_addClause c all

/-- A gate that is found leaves the formula as it is; one that is minted is noted afterwards. -/
theorem keeps_gate {g : Gate} {key : Literal × Literal} (mint : Keeps fits (g.mint key.1 key.2)) :
    Keeps fits (g.get key) := by
  intro i tidy
  have minted := mint i tidy
  rcases Gate.exec_get_cases g key i with ⟨c, -, run⟩ | ⟨new, ⟨e, j, mint, run⟩ | ⟨c, j, mint, run⟩⟩
  · rw [run]
    exact ⟨i, .refl i, tidy, .inl rfl, nofun⟩
  · rw [mint] at minted
    rw [run]
    exact minted
  · rw [mint] at minted
    rw [run]
    obtain ⟨k, grows, hk, rfl | ⟨-, -, ⟨v, he⟩, -⟩, -⟩ := minted
    · exact ⟨_, grows.keep new c, hk.keep g key c, .inl rfl, nofun⟩
    · cases he

end Compile

end FiniteStructures
