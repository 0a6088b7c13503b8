import Mathlib.Tactic.SplitIfs
import FiniteStructures.Proofs.Sat.Gates

/-!
Connectives by cases.  A disjunction or exclusive or of two literals either needs no gate, which the
literals alone decide (`Gate.folded?`), or asks for the gate of its key and puts a sign on it,

    g.connect a b = g.resolve a b       unless a literal is the least of 32 bits

In this form a connective of minted literals is seen to do what `Connects` says, and the symmetries of
the connectives are equations of folded literals, keys and signs: the order of the operands does not
matter, and a sign of an operand of an exclusive or is one of the result.
-/

namespace FiniteStructures

namespace Literal

theorem neg_eq {l : Literal} (h : l.var < varLimit) : l.neg = .ok l.opposite :=
  neg_of_ne_least (value_ne_least h)

theorem eq_opposite_comm {a b : Literal} : a = b.opposite ↔ b = a.opposite :=
  ⟨fun h => by rw [h, opposite_opposite], fun h => by rw [h, opposite_opposite]⟩

theorem opposite_eq_iff {a b : Literal} : a.opposite = b ↔ a = b.opposite :=
  eq_comm.trans eq_opposite_comm

theorem opposite_ne {l : Literal} (h : l.value ≠ least) : l.opposite ≠ l := by
  have ne := l.value_ne_zero
  intro same
  have value := congrArg Literal.value same
  rw [value_opposite h] at value
  omega

@[simp] theorem opposite_top : top.opposite = bottom := rfl

@[simp] theorem opposite_bottom : bottom.opposite = top := rfl

theorem ordered_comm (a b : Literal) : ordered a b = ordered b a := by
  unfold ordered
  rcases Int.lt_trichotomy a.value b.value with h | h | h
  · rw [if_pos (Int.le_of_lt h), if_neg (Int.not_le.mpr h)]
  · rw [Literal.ext h]
  · rw [if_neg (Int.not_le.mpr h), if_pos (Int.le_of_lt h)]

theorem unsigned_opposite (l : Literal) : l.opposite.unsigned = l.unsigned := by
  rw [unsigned, unsigned, var_opposite]

end Literal

open Literal Compile Instance

namespace Gate

/-- The literal of a connective that needs no gate. -/
def folded? (a b : Literal) : Gate → Option Literal
  | or =>
    if a = top ∨ b = top ∨ a = b.opposite then some top
    else if a = bottom ∨ a = b then some b
    else if b = bottom then some a
    else none
  | xor =>
    if a = bottom then some b
    else if b = bottom then some a
    else if a = top then some b.opposite
    else if b = top then some a.opposite
    else if a = b then some bottom
    else if a = b.opposite then some top
    else none

/-- The literal of a connective, given the variable of its gate; `sign` in 32 bits. -/
def signed (a b c : Literal) : Gate → Outcome Literal
  | or => .ok c
  | xor => if a.isNegated != b.isNegated then c.neg else .ok c

theorem signed_error {g : Gate} {a b c : Literal} {e : Fault} (h : g.signed a b c = .error e) :
    c.neg = .error e := by
  cases g with
  | or => cases h
  | xor =>
    rw [signed] at h
    split at h
    · exact h
    · cases h

/-- The gate of an exclusive or has the operand with the smaller variable first. -/
theorem var_key_xor {a b : Literal} (ha : a.value ≠ least) (hb : b.value ≠ least) :
    (xor.key a b).1.var = min a.var b.var := by
  have plain {l : Literal} (h : l.value ≠ least) : (xor.plain l).value = l.var :=
    value_unsigned h
  unfold key ordered
  rw [plain ha, plain hb]
  split
  · next le => rw [var_plain, Nat.min_eq_left (Int.ofNat_le.mp le)]
  · next lt => rw [var_plain, Nat.min_eq_right (by omega)]

/-- The literal of a connective, by a gate where it needs one. -/
def resolve (g : Gate) (a b : Literal) : Compile Literal :=
  match g.folded? a b with
  | some c => pure c
  | none => do g.signed a b (← g.get (g.key a b))

theorem resolve_folded {g : Gate} {a b c : Literal} (h : g.folded? a b = some c) :
    g.resolve a b = pure c := by
  unfold resolve
  rw [h]

theorem resolve_gate {g : Gate} {a b : Literal} (h : g.folded? a b = none) :
    g.resolve a b = (do g.signed a b (← g.get (g.key a b)) : Compile Literal) := by
  unfold resolve
  rw [h]

/-- A computation that negates an operand goes on with its opposite, or stops at it. -/
theorem negated_cases {a b l : Literal} (operand : l = a ∨ l = b) {f : Literal → Compile Literal}
    {x : Compile Literal} (h : f l.opposite = x) :
    (∀ i, exec (liftM l.neg >>= f) i = exec x i) ∨
      ((a.value = least ∨ b.value = least) ∧
        ∀ i, exec (liftM l.neg >>= f) i = (.error .overflow, i)) := by
  rcases neg_cases l with ⟨-, hl⟩ | ⟨large, hl⟩
  · rw [hl, ← h]
    exact .inl fun _ => rfl
  · rw [hl]
    refine .inr ⟨?_, fun _ => rfl⟩
    rcases operand with rfl | rfl
    · exact .inl large
    · exact .inr large

theorem or_cases (a b : Literal) :
    (∀ i, exec (Compile.or a b) i = exec (or.resolve a b) i) ∨
      ((a.value = least ∨ b.value = least) ∧
        ∀ i, exec (Compile.or a b) i = (.error .overflow, i)) := by
  unfold Compile.or
  by_cases top : a = Literal.top ∨ b = Literal.top
  · have folded : Gate.or.folded? a b = some Literal.top := if_pos (or_assoc.mp (.inl top))
    rw [if_pos top, resolve_folded folded]
    exact .inl fun _ => rfl
  · rw [if_neg top]
    refine negated_cases (.inr rfl) ?_
    simp only [resolve, folded?, ← or_assoc (c := a = _), top, false_or]
    split_ifs
    · rfl
    · rfl
    · rfl
    · exact (bind_pure (orGate (ordered a b))).symm

theorem xor_cases (a b : Literal) :
    (∀ i, exec (Compile.xor a b) i = exec (xor.resolve a b) i) ∨
      ((a.value = least ∨ b.value = least) ∧
        ∀ i, exec (Compile.xor a b) i = (.error .overflow, i)) := by
  simp only [Compile.xor, resolve, folded?]
  split_ifs
  · exact .inl fun _ => rfl
  · exact .inl fun _ => rfl
  · rw [← bind_pure (liftM b.neg)]
    exact negated_cases (.inr rfl) rfl
  · rw [← bind_pure (liftM a.neg)]
    exact negated_cases (.inl rfl) rfl
  · exact .inl fun _ => rfl
  · next same => exact negated_cases (.inr rfl) (if_pos same)
  · next flip differ =>
    refine negated_cases (.inr rfl) ((if_neg differ).trans ?_)
    simp only [signed, flip, if_true]
    rfl
  · next same => exact negated_cases (.inr rfl) (if_pos same)
  · next flip differ =>
    refine negated_cases (.inr rfl) ((if_neg differ).trans ?_)
    simp only [signed, flip]
    rfl

/-- A connective resolves its operands, or stops at one that has no opposite of 32 bits. -/
theorem connect_cases (g : Gate) (a b : Literal) :
    (∀ i, exec (g.connect a b) i = exec (g.resolve a b) i) ∨
      ((a.value = least ∨ b.value = least) ∧
        ∀ i, exec (g.connect a b) i = (.error .overflow, i)) := by
  cases g with
  | or => exact or_cases a b
  | xor => exact xor_cases a b

/-- Operands with opposites are resolved. -/
theorem exec_connect {g : Gate} {a b : Literal} (ha : a.var < varLimit) (hb : b.var < varLimit)
    (i : Instance) : exec (g.connect a b) i = exec (g.resolve a b) i := by
  refine (connect_cases g a b).resolve_right ?_ i
  rintro ⟨h | h, -⟩
  · exact value_ne_least ha h
  · exact value_ne_least hb h

/-! ## On minted literals -/

/-- A disjunction of opposites ends only if they are opposites of 32 bits. -/
theorem ne_least_of_or {b : Literal} {i : Instance}
    (ends : exec (Compile.or b.opposite b) i ≠ (.error .overflow, i)) : b.value ≠ least := by
  intro hb
  have ne {l : Literal} (hl : l.value ≠ least) : b ≠ l := fun same => hl (same ▸ hb)
  refine ends ?_
  rw [opposite_least hb]
  unfold Compile.or
  rw [if_neg (not_or.mpr ⟨ne (by decide), ne (by decide)⟩), exec_bind_lift_error (neg_least hb)]

theorem or_folded_sound {a b c : Literal} {i : Instance} (h : or.folded? a b = some c)
    (ends : exec (Compile.or a b) i ≠ (.error .overflow, i)) :
    (c.var = 1 ∨ c.var = a.var ∨ c.var = b.var) ∧
      ∀ ρ : Valuation, ρ 1 = true → c.holds ρ = or.value (a.holds ρ) (b.holds ρ) := by
  simp only [folded?] at h
  split_ifs at h with known first second <;> obtain rfl := Option.some.inj h
  · refine ⟨.inl rfl, fun ρ hρ => ?_⟩
    rcases known with rfl | rfl | rfl
    · simp [holds_top hρ, value_or]
    · simp [holds_top hρ, value_or]
    · simp [holds_top hρ, holds_opposite (ne_least_of_or ends), value_or]
  · refine ⟨.inr (.inr rfl), fun ρ hρ => ?_⟩
    rcases first with rfl | rfl <;> simp [holds_bottom, hρ, value_or]
  · refine ⟨.inr (.inl rfl), fun ρ hρ => ?_⟩
    simp [second, holds_bottom hρ, value_or]

theorem xor_folded_sound {a b c : Literal} {i : Instance} (h : xor.folded? a b = some c)
    (ends : exec (Compile.xor a b) i ≠ (.error .overflow, i)) :
    (c.var = 1 ∨ c.var = a.var ∨ c.var = b.var) ∧
      ∀ ρ : Valuation, ρ 1 = true → c.holds ρ = xor.value (a.holds ρ) (b.holds ρ) := by
  unfold Compile.xor at ends
  simp only [folded?] at h
  split_ifs at h with first second third fourth same flip <;> obtain rfl := Option.some.inj h
  · exact ⟨.inr (.inr rfl), fun ρ hρ => by simp [first, holds_bottom hρ, value_xor]⟩
  · exact ⟨.inr (.inl rfl), fun ρ hρ => by simp [second, holds_bottom hρ, value_xor]⟩
  · have hb : b.value ≠ least := by
      intro hb
      rw [if_neg first, if_neg second, if_pos third, neg_least hb] at ends
      exact ends rfl
    exact ⟨.inr (.inr (var_opposite b)), fun ρ hρ => by
      simp [third, holds_top hρ, holds_opposite hb, value_xor]⟩
  · have ha : a.value ≠ least := by
      intro ha
      rw [if_neg first, if_neg second, if_neg third, if_pos fourth, neg_least ha] at ends
      exact ends rfl
    exact ⟨.inr (.inl (var_opposite a)), fun ρ hρ => by
      simp [fourth, holds_top hρ, holds_opposite ha, value_xor]⟩
  · exact ⟨.inl rfl, fun ρ hρ => by simp [same, holds_bottom hρ, value_xor]⟩
  · have hb : b.value ≠ least := fun hb => same (flip.trans (opposite_least hb))
    exact ⟨.inl rfl, fun ρ hρ => by
      simp [flip, holds_top hρ, holds_opposite hb, value_xor]⟩

/-- A literal that needs no gate is a constant or has the variable of an operand, and it has the value
of the connective, unless that stops at an operand without an opposite. -/
theorem folded?_sound {g : Gate} {a b c : Literal} {i : Instance} (h : g.folded? a b = some c)
    (ends : exec (g.connect a b) i ≠ (.error .overflow, i)) :
    (c.var = 1 ∨ c.var = a.var ∨ c.var = b.var) ∧
      ∀ ρ : Valuation, ρ 1 = true → c.holds ρ = g.value (a.holds ρ) (b.holds ρ) := by
  cases g with
  | or => exact or_folded_sound h ends
  | xor => exact xor_folded_sound h ends

theorem signed_eq {g : Gate} {a b c : Literal} (h : c.value ≠ least) :
    g.signed a b c = .ok (g.sign a b c) := by
  cases g with
  | or => rfl
  | xor =>
    show (if a.isNegated != b.isNegated then c.neg else .ok c) =
      .ok (if a.isNegated != b.isNegated then c.opposite else c)
    split
    · exact neg_of_ne_least h
    · rfl

/-- A gate that is not there yet is added. -/
theorem exec_signed_new {i : Instance} (marked : i.Marked) (g : Gate) {a b : Literal}
    (ha : i.Minted a) (hb : i.Minted b) (hla : a.value ≠ least) (hlb : b.value ≠ least)
    (spare : i.Spare) (new : g.find? i (g.key a b) = none) :
    exec (do g.signed a b (← g.get (g.key a b)) : Compile Literal) i =
      (.ok (g.sign a b (ofVar i.numVars)), i.withGate g (g.key a b)) := by
  obtain ⟨hka, hkb⟩ := minted_key (i := i.mint) g (Nat.le_succ_of_le ha) (Nat.le_succ_of_le hb)
  obtain ⟨hlka, hlkb⟩ := (ne_least_key (g := g)).mpr ⟨hla, hlb⟩
  have get : exec (g.get (g.key a b)) i = (.ok (ofVar i.numVars), i.withGate g (g.key a b)) := by
    rw [exec_get_new new, exec_bind_ok (exec_mint_ok marked g hka hkb hlka hlkb spare)]
    rfl
  rw [exec_bind_ok get, signed_eq spare.ne_least]
  rfl

theorem exec_connect_new {i : Instance} (marked : i.Marked) (g : Gate) {a b : Literal}
    (ha : i.Minted a) (hb : i.Minted b) (room : i.numVars + 1 < varLimit)
    (folded : g.folded? a b = none) (new : g.find? i (g.key a b) = none) :
    exec (g.connect a b) i =
      (.ok (g.sign a b (ofVar i.numVars)), i.withGate g (g.key a b)) := by
  have small {l : Literal} (hl : i.Minted l) : l.var < varLimit :=
    Nat.lt_of_le_of_lt hl (Nat.lt_of_succ_lt room)
  rw [exec_connect (small ha) (small hb), resolve_gate folded]
  exact exec_signed_new marked g ha hb (value_ne_least (small ha)) (value_ne_least (small hb))
    ⟨Nat.lt_trans room (by decide), Nat.ne_of_lt room⟩ new

/-- A connective that comes down to its gate finds it or adds it. -/
theorem connects_gate {i : Instance} (marked : i.Marked) (keyed : i.Keyed) (g : Gate)
    {a b : Literal} (ha : i.Minted a) (hb : i.Minted b) :
    let r := exec (do g.signed a b (← g.get (g.key a b)) : Compile Literal) i
    Connects g a b i r.1 r.2 := by
  intro r
  obtain ⟨hka, hkb⟩ := minted_key (i := i.mint) g (Nat.le_succ_of_le ha) (Nat.le_succ_of_le hb)
  cases found : g.find? i (g.key a b) with
  | some c =>
    obtain ⟨hla, hlb, hc⟩ := keyed g _ c found
    obtain ⟨ha, hb⟩ := ne_least_key.mp ⟨hla, hlb⟩
    have run : r = (.ok (g.sign a b c), i) := by
      rw [show r = _ from exec_bind_ok (exec_get_known found), signed_eq hc]
      rfl
    rw [run]
    exact .known c ha hb found
  | none =>
    by_cases large : a.value = least ∨ b.value = least ∨ ¬ i.Spare
    · rw [← or_assoc, ← least_key (g := g), or_assoc] at large
      obtain ⟨he, hg, hv⟩ := exec_mint_overflow marked g hka hkb large
      have run : r = (.error .overflow, (exec (g.mint (g.key a b).1 (g.key a b).2) i).2) := by
        refine exec_bind_error ((exec_get_new found).trans ?_)
        exact exec_bind_error (Prod.ext he rfl)
      rw [run]
      exact .overflow _ hg hv
    · obtain ⟨hla, hlb, spare⟩ : a.value ≠ least ∧ b.value ≠ least ∧ i.Spare := by
        simpa only [not_or, Classical.not_not] using large
      have run : r = (.ok (g.sign a b (ofVar i.numVars)), i.withGate g (g.key a b)) :=
        exec_signed_new marked g ha hb hla hlb spare found
      rw [run]
      exact .minted hla hlb found spare

/-- On minted literals a connective does what `Connects` says. -/
theorem connects_connect {i : Instance} (marked : i.Marked) (keyed : i.Keyed) (g : Gate)
    {a b : Literal} (ha : i.Minted a) (hb : i.Minted b) :
    Connects g a b i (exec (g.connect a b) i).1 (exec (g.connect a b) i).2 := by
  rcases connect_cases g a b with run | ⟨large, run⟩
  · cases folded : g.folded? a b with
    | some c =>
      rw [resolve_folded folded] at run
      obtain ⟨var, holds⟩ := folded?_sound folded (i := i) (by rw [run]; exact nofun)
      rw [run]
      exact .folded c var holds
    | none =>
      rw [run, resolve_gate folded]
      exact connects_gate marked keyed g ha hb
  · rw [run]
    exact .overflow i (Grows.refl i) (limit_of_least ha hb large)

/-! ## Symmetries -/

theorem folded?_comm (g : Gate) (a b : Literal) : g.folded? b a = g.folded? a b := by
  cases g <;> simp only [folded?, eq_opposite_comm] <;> grind

theorem key_comm (g : Gate) (a b : Literal) : g.key b a = g.key a b := ordered_comm _ _

theorem signed_comm (g : Gate) (a b c : Literal) : g.signed b a c = g.signed a b c := by
  cases g with
  | or => rfl
  | xor =>
    unfold signed
    rw [bne_comm]

/-- The order of the operands does not matter. -/
theorem resolve_comm (g : Gate) (a b : Literal) : g.resolve b a = g.resolve a b := by
  unfold resolve
  simp only [folded?_comm g a b, key_comm g a b, signed_comm g a b]

theorem folded?_opposite (a : Literal) {b : Literal} (hb : b.value ≠ least) :
    xor.folded? a.opposite b = (xor.folded? a b).map opposite := by
  have distinct : top ≠ bottom := by decide
  have signs : b.opposite ≠ b := opposite_ne hb
  simp only [folded?, opposite_eq_iff, opposite_top, opposite_bottom, opposite_opposite]
  grind [opposite_top, opposite_bottom, opposite_opposite]

theorem plain_opposite (l : Literal) : xor.plain l.opposite = xor.plain l := unsigned_opposite l

theorem signed_opposite {a b c d : Literal} (ha : a.value ≠ least) (hc : c.var < varLimit)
    (h : xor.signed a b d = .ok c) : xor.signed a.opposite b d = .ok c.opposite := by
  have turned : ((!a.isNegated) != b.isNegated) = !(a.isNegated != b.isNegated) := by
    cases a.isNegated <;> cases b.isNegated <;> rfl
  unfold signed at h ⊢
  rw [isNegated_opposite ha, turned]
  cases flip : a.isNegated != b.isNegated with
  | true =>
    rw [if_pos flip] at h
    rcases neg_cases d with ⟨-, hd⟩ | ⟨-, hd⟩
    · obtain rfl := Except.ok.inj (hd.symm.trans h)
      rw [opposite_opposite]
      rfl
    · cases hd.symm.trans h
  | false =>
    rw [if_neg (by rw [flip]; exact Bool.false_ne_true)] at h
    obtain rfl := Except.ok.inj h
    exact neg_eq hc

/-- The opposite of an operand is resolved to the opposite of the literal. -/
theorem resolve_opposite {a b c : Literal} (ha : a.value ≠ least) (hb : b.value ≠ least)
    (hc : c.var < varLimit) {i j : Instance} (run : exec (xor.resolve a b) i = (.ok c, j)) :
    exec (xor.resolve a.opposite b) i = (.ok c.opposite, j) := by
  cases folded : xor.folded? a b with
  | some d =>
    rw [resolve_folded folded] at run
    obtain ⟨rfl, rfl⟩ := Prod.mk.inj run |>.imp Except.ok.inj id
    rw [resolve_folded (by rw [folded?_opposite a hb, folded]; rfl)]
    rfl
  | none =>
    have key : xor.key a.opposite b = xor.key a b := by
      unfold key
      rw [plain_opposite a]
    rw [resolve_gate folded] at run
    rw [resolve_gate (by rw [folded?_opposite a hb, folded]; rfl), key]
    rcases get : exec (xor.get (xor.key a b)) i with ⟨e | d, k⟩
    · rw [exec_bind_error get] at run
      cases run
    · rw [exec_bind_ok get] at run ⊢
      obtain ⟨found, rfl⟩ := Prod.mk.inj run
      exact Prod.ext (signed_opposite ha hc found) rfl

end Gate

end FiniteStructures
