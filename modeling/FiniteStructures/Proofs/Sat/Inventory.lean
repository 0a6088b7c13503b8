import Mathlib.Data.Sym.Sym2
import FiniteStructures.Proofs.Sat.Connectives
import FiniteStructures.Proofs.Sat.Reachable

/-!
The gates of a formula.  The clauses that connectives record are those of a list of gates, the gates
that the memo has; no two of them are of one kind with the same operands, whichever order and, for an
exclusive or, whichever signs these were given in (`Instance.Built.inventory`).
-/

namespace FiniteStructures

open Literal Instance

/-- A gate that was minted: its operands as the memo has them, and the literal of its variable. -/
structure MintedGate where
  kind : Gate
  key : Literal × Literal
  output : Literal

namespace Gate

/-- The operands are the same in one of their orders: two literals for a disjunction, two variables
for an exclusive or. -/
def SameOperands (key key' : Literal × Literal) : Gate → Prop
  | or => s(key.1, key.2) = s(key'.1, key'.2)
  | xor => s(key.1.var, key.2.var) = s(key'.1.var, key'.2.var)

/-- The smaller operand is the first one, and those of an exclusive or have no sign. -/
structure Normal (g : Gate) (key : Literal × Literal) : Prop where
  ordered : key.1.value ≤ key.2.value
  unsigned : g = xor → 0 < key.1.value ∧ 0 < key.2.value

variable {g : Gate} {a b : Literal} {key key' : Literal × Literal}

theorem ordered_le (a b : Literal) : (Literal.ordered a b).1.value ≤ (Literal.ordered a b).2.value := by
  unfold Literal.ordered
  split
  · assumption
  · exact Int.le_of_lt (Int.not_le.mp ‹_›)

theorem unsigned_pos {l : Literal} (h : l.value ≠ least) : 0 < l.unsigned.value := by
  rw [value_unsigned h]
  exact Int.natCast_pos.mpr l.var_pos

theorem normal_key (ha : a.value ≠ least) (hb : b.value ≠ least) : g.Normal (g.key a b) := by
  refine ⟨ordered_le _ _, ?_⟩
  rintro rfl
  have both := And.intro (unsigned_pos ha) (unsigned_pos hb)
  show 0 < (Literal.ordered a.unsigned b.unsigned).1.value ∧
    0 < (Literal.ordered a.unsigned b.unsigned).2.value
  rcases ordered_cases a.unsigned b.unsigned with h | h <;> rw [h]
  · exact both
  · exact both.symm

/-- In normal form, the same operands are equal. -/
theorem Normal.eq (h : g.Normal key) (h' : g.Normal key') (same : g.SameOperands key key') :
    key = key' := by
  have le := h.ordered
  have le' := h'.ordered
  have values : key.1.value = key'.1.value ∧ key.2.value = key'.2.value := by
    cases g with
    | or =>
      rcases Sym2.eq_iff.mp same with ⟨first, second⟩ | ⟨first, second⟩
      · exact ⟨congrArg Literal.value first, congrArg Literal.value second⟩
      · rw [first, second] at le
        rw [first, second]
        omega
    | xor =>
      have pos := h.unsigned rfl
      have pos' := h'.unsigned rfl
      rcases Sym2.eq_iff.mp same with ⟨first, second⟩ | ⟨first, second⟩ <;>
        unfold var at first second <;> omega
  exact Prod.ext (Literal.ext values.1) (Literal.ext values.2)

end Gate

namespace Instance

/-- The list has the gates of the memo, in the order in which their clauses were recorded, each one
once. -/
structure Inventory (gates : List Clause) (i : Instance) (minted : List MintedGate) : Prop where
  clauses : gates = minted.flatMap fun m => m.kind.clauses m.key.1 m.key.2 m.output
  kept : ∀ m, m ∈ minted ↔ m.kind.find? i m.key = some m.output
  normal : ∀ m ∈ minted, m.kind.Normal m.key
  distinct : minted.Pairwise fun m m' => ¬ (m.kind = m'.kind ∧ m.kind.SameOperands m.key m'.key)

variable {free : List Nat} {gates : List Clause} {i j : Instance} {minted : List MintedGate}

/-- Where the memo is the same, so is the list. -/
theorem Inventory.congr (h : Inventory gates i minted)
    (same : ∀ (g : Gate) (key : Literal × Literal), g.find? j key = g.find? i key) :
    Inventory gates j minted :=
  { h with kept := fun m => by rw [same]; exact h.kept m }

theorem Inventory.withGate (h : Inventory gates i minted) {g : Gate} {key : Literal × Literal}
    (normal : g.Normal key) (new : g.find? i key = none) :
    Inventory (gates ++ g.clauses key.1 key.2 (ofVar i.numVars)) (i.withGate g key)
      (minted ++ [⟨g, key, ofVar i.numVars⟩]) := by
  have absent {m : MintedGate} (hm : m ∈ minted) : ¬ (m.kind = g ∧ m.key = key) := by
    rintro ⟨rfl, rfl⟩
    cases new.symm.trans ((h.kept m).mp hm)
  refine ⟨?_, ?_, ?_, ?_⟩
  · rw [List.flatMap_append, ← h.clauses, List.flatMap_singleton]
  · intro m
    rw [find?_withGate, List.mem_append, List.mem_singleton]
    split
    · next same =>
      obtain ⟨rfl, rfl⟩ := same
      refine ⟨?_, fun hm => .inr ?_⟩
      · rintro (hm | hm)
        · exact absurd ⟨rfl, rfl⟩ (absent hm)
        · exact congrArg (some ·.output) hm.symm
      · rw [Option.some.inj hm]
    · next other =>
      refine ⟨?_, fun hm => .inl ((h.kept m).mpr hm)⟩
      rintro (hm | rfl)
      · exact (h.kept m).mp hm
      · exact absurd ⟨rfl, rfl⟩ other
  · intro m hm
    rcases List.mem_append.mp hm with hm | hm
    · exact h.normal m hm
    · rw [List.mem_singleton.mp hm]
      exact normal
  · refine List.pairwise_append.mpr ⟨h.distinct, List.pairwise_singleton _ _, ?_⟩
    intro m hm m' hm'
    rw [List.mem_singleton.mp hm']
    rintro ⟨rfl, same⟩
    exact absent hm ⟨rfl, (h.normal m hm).eq normal same⟩

/-- The clauses of the gates of a reachable formula are those of a list of different gates, which are
those in the memo. -/
theorem Built.inventory (built : Built free gates i) : ∃ minted, Inventory gates i minted := by
  induction built with
  | initial =>
    refine ⟨[], rfl, fun m => ?_, (fun _ hm => absurd hm List.not_mem_nil), .nil⟩
    rcases m with ⟨kind, key, output⟩
    have none : kind.find? Instance.initial key = none := by cases kind <;> exact Std.HashMap.getElem?_empty
    simp [none]
  | @fresh _ _ i _ _ _ call ih =>
    obtain ⟨minted, ih⟩ := ih
    obtain ⟨-, rfl⟩ := Compile.fresh_ok call
    exact ⟨minted, ih.congr fun g key => Gate.find?_mint g i key⟩
  | addClause _ call ih =>
    obtain ⟨minted, ih⟩ := ih
    obtain ⟨-, rfl⟩ := Compile.addClause_ok call
    exact ⟨minted, ih.congr fun g key => Gate.find?_recordAll g _ [_] key⟩
  | formula before call ih =>
    obtain ⟨minted, ih⟩ := ih
    obtain ⟨-, rfl⟩ := Compile.formula_ok call
    exact ⟨minted, ih.congr fun g key => Gate.find?_recordAll g _ _ key⟩
  | @gate _ _ i j _ before g a b ha hb call ih =>
    obtain ⟨minted, ih⟩ := ih
    have wf := before.wellFormed
    have step := Gate.connects_connect wf.marked wf.keyed g ha hb
    rw [call] at step
    have result : j = i ∨ (j = i.withGate g (g.key a b) ∧ g.Normal (g.key a b) ∧
        g.find? i (g.key a b) = none) := by
      cases step with
      | folded => exact .inl rfl
      | known => exact .inl rfl
      | minted hla hlb new => exact .inr ⟨rfl, Gate.normal_key hla hlb, new⟩
    rcases result with rfl | ⟨rfl, normal, new⟩
    · rw [clausesFrom_self, List.append_nil]
      exact ⟨minted, ih⟩
    · rw [clausesFrom_withGate]
      exact ⟨_, ih.withGate normal new⟩

end Instance

end FiniteStructures
