import FiniteStructures.Proofs.Sat.Effects

/-!
Gates.  Disjunction and exclusive or of literals differ in a table of values and in clauses only, so
both are kinds of one `Gate`.  On minted literals a call folds, finds a gate, or adds one
(`Connects`); whichever it does, its literal has the value of the connective wherever the clauses of
the gate hold.

    i.withGate g a b     one gate more, with its variable, its clauses and its memo
-/

namespace FiniteStructures

/-- The two kinds of gates. -/
inductive Gate where
  | or
  | xor
deriving DecidableEq

namespace Gate

/-- The truth value of a gate, given those of its operands. -/
def value : Gate → Bool → Bool → Bool
  | or => (· || ·)
  | xor => (· ^^ ·)

/-- The clauses that tie the variable of a gate to its operands. -/
def clauses (a b c : Literal) : Gate → List Clause
  | or => [[a.opposite, c], [b.opposite, c], [c.opposite, a, b]]
  | xor =>
    [[a.opposite, b.opposite, c.opposite], [a, b, c.opposite], [a, b.opposite, c],
      [a.opposite, b, c]]

/-- The variable of the gate of two operands, if there is one. -/
def find? (i : Instance) (key : Literal × Literal) : Gate → Option Literal
  | or => i.orGates[key]?
  | xor => i.xorGates[key]?

/-- Notes that a gate was minted. -/
def keep (key : Literal × Literal) (c : Literal) (i : Instance) : Gate → Instance
  | or => { i with orGates := i.orGates.insert key c }
  | xor => { i with xorGates := i.xorGates.insert key c }

/-- Mints a gate. -/
def mint (a b : Literal) : Gate → Compile Literal
  | or => Compile.mintOr a b
  | xor => Compile.mintXor a b

/-- The gate of two operands, minted at its first use. -/
def get (key : Literal × Literal) : Gate → Compile Literal
  | or => Compile.orGate key
  | xor => Compile.xorGate key

/-- The clauses say that the gate has the value of its operands. -/
theorem models_clauses (g : Gate) (ρ : Valuation) {a b c : Literal}
    (ha : a.value ≠ Literal.least) (hb : b.value ≠ Literal.least)
    (hc : c.value ≠ Literal.least) :
    ρ.Models (g.clauses a b c) ↔ c.holds ρ = g.value (a.holds ρ) (b.holds ρ) := by
  cases g <;>
    simp only [Valuation.Models, clauses, value, List.forall_mem_cons, Clause.holds, List.any_cons,
      List.any_nil, Literal.holds_opposite ha, Literal.holds_opposite hb,
      Literal.holds_opposite hc] <;>
    cases a.holds ρ <;> cases b.holds ρ <;> cases c.holds ρ <;> simp

theorem mem_var_of_clauses {g : Gate} {a b c : Literal} {d : Clause} (hd : d ∈ g.clauses a b c)
    {l : Literal} (hl : l ∈ d) : l.var = a.var ∨ l.var = b.var ∨ l.var = c.var := by
  cases g <;> simp only [clauses, List.mem_cons, List.not_mem_nil, or_false] at hd <;>
    rcases hd with rfl | rfl | rfl | rfl <;>
    simp only [List.mem_cons, List.not_mem_nil, or_false] at hl <;>
    rcases hl with rfl | rfl | rfl <;> simp

end Gate

/-! ## Growth -/

/-- A formula only ever gets more variables, clauses and gates. -/
structure Instance.Grows (i j : Instance) : Prop where
  numVars_le : i.numVars ≤ j.numVars
  clauses : i.clauses.toList <+: j.clauses.toList
  find? : ∀ (g : Gate) (key : Literal × Literal) (c : Literal),
    g.find? i key = some c → g.find? j key = some c

namespace Gate

@[simp] theorem numVars_keep (key : Literal × Literal) (c : Literal) (i : Instance) (g : Gate) :
    (g.keep key c i).numVars = i.numVars := by
  cases g <;> rfl

@[simp] theorem clauses_keep (key : Literal × Literal) (c : Literal) (i : Instance) (g : Gate) :
    (g.keep key c i).clauses = i.clauses := by
  cases g <;> rfl

@[simp] theorem occurs_keep (key : Literal × Literal) (c : Literal) (i : Instance) (g : Gate) :
    (g.keep key c i).occurs = i.occurs := by
  cases g <;> rfl

@[simp] theorem find?_mint (g : Gate) (i : Instance) (key : Literal × Literal) :
    g.find? i.mint key = g.find? i key := by
  cases g <;> rfl

@[simp] theorem find?_recordAll (g : Gate) (i : Instance) (cs : List Clause)
    (key : Literal × Literal) : g.find? (i.recordAll cs) key = g.find? i key := by
  cases g <;> simp [find?]

/-- A gate that was noted is found afterwards, and the gates of other operands and of the other kind
are as before. -/
theorem find?_keep (g g' : Gate) (key key' : Literal × Literal) (c : Literal) (i : Instance) :
    g'.find? (g.keep key c i) key' =
      if g = g' ∧ key = key' then some c else g'.find? i key' := by
  cases g <;> cases g' <;> simp [keep, find?, Std.HashMap.getElem?_insert]

end Gate

namespace Instance

theorem Grows.refl (i : Instance) : i.Grows i :=
  ⟨Nat.le_refl _, List.prefix_rfl, fun _ _ _ h => h⟩

theorem Grows.trans {i j k : Instance} (h : i.Grows j) (h' : j.Grows k) : i.Grows k :=
  ⟨Nat.le_trans h.numVars_le h'.numVars_le, h.clauses.trans h'.clauses,
    fun g key c hc => h'.find? g key c (h.find? g key c hc)⟩

theorem grows_mint (i : Instance) : i.Grows i.mint :=
  ⟨Nat.le_succ _, List.prefix_rfl, fun g key c h => by rwa [Gate.find?_mint]⟩

theorem grows_recordAll (i : Instance) (cs : List Clause) : i.Grows (i.recordAll cs) :=
  ⟨Nat.le_of_eq (numVars_recordAll ..).symm,
    by rw [clauses_recordAll]; exact List.prefix_append _ _,
    fun g key c h => by rwa [Gate.find?_recordAll]⟩

/-- The formula with one gate more. -/
def withGate (i : Instance) (g : Gate) (key : Literal × Literal) : Instance :=
  g.keep key (Literal.ofVar i.numVars)
    (i.mint.recordAll (g.clauses key.1 key.2 (Literal.ofVar i.numVars)))

@[simp] theorem numVars_withGate (i : Instance) (g : Gate) (key : Literal × Literal) :
    (i.withGate g key).numVars = i.numVars + 1 := by
  simp [withGate]

@[simp] theorem clauses_withGate (i : Instance) (g : Gate) (key : Literal × Literal) :
    (i.withGate g key).clauses.toList =
      i.clauses.toList ++ g.clauses key.1 key.2 (Literal.ofVar i.numVars) := by
  simp [withGate]

theorem find?_withGate (i : Instance) (g g' : Gate) (key key' : Literal × Literal) :
    g'.find? (i.withGate g key) key' =
      if g = g' ∧ key = key' then some (Literal.ofVar i.numVars) else g'.find? i key' := by
  simp [withGate, Gate.find?_keep]

theorem Marked.withGate {i : Instance} (h : i.Marked) (g : Gate) (key : Literal × Literal) :
    (i.withGate g key).Marked := by
  have hm := h.mint.recordAll (g.clauses key.1 key.2 (Literal.ofVar i.numVars))
  unfold Marked at hm ⊢
  rwa [Instance.withGate, Gate.occurs_keep, Gate.numVars_keep]

end Instance

/-! ## Minting -/

/-- There is a number for one more variable, and its literal can be negated. -/
def Instance.Spare (i : Instance) : Prop :=
  i.numVars + 1 < Cnf.countLimit ∧ i.numVars + 1 ≠ Literal.varLimit

theorem Instance.Spare.ne_least {i : Instance} (h : i.Spare) :
    (Literal.ofVar i.numVars).value ≠ Literal.least :=
  fun least => h.2 ((Literal.ofVar_eq_least h.1).mp least)

theorem Instance.least_of_not_spare {i : Instance} (room : i.numVars + 1 < Cnf.countLimit)
    (h : ¬ i.Spare) : (Literal.ofVar i.numVars).value = Literal.least :=
  (Literal.ofVar_eq_least room).mpr (Classical.byContradiction fun ne => h ⟨room, ne⟩)

namespace Gate

open Compile Instance Literal

/-- Too large a variable for its negation, or no number for it: the computation overflows, and the
formula has at least as many variables. -/
def Overflows (i : Instance) (r : Outcome Literal × Instance) : Prop :=
  r.1 = .error .overflow ∧ i.Grows r.2 ∧ varLimit ≤ r.2.numVars

/-- The clauses of a gate are over minted variables. -/
theorem exec_addClause_gate {g : Gate} {a b : Literal} {i j : Instance} (marked : j.Marked)
    (vars : j.numVars = i.numVars + 1) (ha : i.mint.Minted a) (hb : i.mint.Minted b) {d : Clause}
    (hd : d ∈ g.clauses a b (ofVar i.numVars)) :
    exec (addClause d) j = (.ok (), j.record d) := by
  refine exec_addClause fun l hl => ?_
  have hv := mem_var_of_clauses hd hl
  have hc := var_ofVar_le i.numVars
  unfold Minted at ha hb
  rw [numVars_mint] at ha hb
  rw [marked, vars]
  omega

/-- The clauses of a gate are recorded one by one if its literals can be negated. -/
theorem exec_mint_ok {i : Instance} (marked : i.Marked) (g : Gate) {a b : Literal}
    (ha : i.mint.Minted a) (hb : i.mint.Minted b) (hla : a.value ≠ least) (hlb : b.value ≠ least)
    (spare : i.Spare) :
    exec (g.mint a b) i =
      (.ok (ofVar i.numVars), i.mint.recordAll (g.clauses a b (ofVar i.numVars))) := by
  have hna := neg_of_ne_least hla
  have hnb := neg_of_ne_least hlb
  have hnc := neg_of_ne_least spare.ne_least
  have add (j : Instance) (hj : j.Marked) (hn : j.numVars = i.numVars + 1) (d : Clause)
      (hd : d ∈ g.clauses a b (ofVar i.numVars)) :
      exec (addClause d) j = (.ok (), j.record d) := exec_addClause_gate hj hn ha hb hd
  have m0 := marked.mint
  cases g with
  | or =>
    show exec (mintOr a b) i = _
    unfold mintOr
    rw [exec_bind_ok (exec_fresh spare.1), exec_bind_lift hna,
      exec_bind_ok (add _ m0 rfl _ (by simp [clauses])), exec_bind_lift hnb,
      exec_bind_ok (add _ (m0.record _) rfl _ (by simp [clauses])), exec_bind_lift hnc,
      exec_bind_ok (add _ ((m0.record _).record _) rfl _ (by simp [clauses]))]
    rfl
  | xor =>
    show exec (mintXor a b) i = _
    unfold mintXor
    rw [exec_bind_ok (exec_fresh spare.1), exec_bind_lift hna, exec_bind_lift hnb,
      exec_bind_lift hnc, exec_bind_ok (add _ m0 rfl _ (by simp [clauses])), exec_bind_lift hnc,
      exec_bind_ok (add _ (m0.record _) rfl _ (by simp [clauses])), exec_bind_lift hnb,
      exec_bind_ok (add _ ((m0.record _).record _) rfl _ (by simp [clauses])), exec_bind_lift hna,
      exec_bind_ok (add _ (((m0.record _).record _).record _) rfl _ (by simp [clauses]))]
    rfl

theorem limit_of_least {i : Instance} {a b : Literal} (ha : i.Minted a) (hb : i.Minted b)
    (h : a.value = least ∨ b.value = least) : varLimit ≤ i.numVars := by
  rcases h with h | h
  · exact Nat.le_trans (Nat.le_of_eq (var_eq_limit h).symm) ha
  · exact Nat.le_trans (Nat.le_of_eq (var_eq_limit h).symm) hb

/-- A run overflows at a literal that cannot be negated, if it does not later. -/
theorem overflows_neg {i j : Instance} {l : Literal} {f : Literal → Compile Literal}
    (grows : i.Grows j) (limit : varLimit ≤ j.numVars)
    (later : l.value ≠ least → Overflows i (exec (f l.opposite) j)) :
    Overflows i (exec (liftM l.neg >>= f) j) := by
  rcases neg_cases l with ⟨ne, hn⟩ | ⟨-, hn⟩
  · rw [exec_bind_lift hn]
    exact later ne
  · rw [exec_bind_lift_error hn]
    exact ⟨rfl, grows, limit⟩

/-- A literal that cannot be negated stops the minting of a gate, and so does a full count. -/
theorem exec_mint_overflow {i : Instance} (marked : i.Marked) (g : Gate) {a b : Literal}
    (ha : i.mint.Minted a) (hb : i.mint.Minted b)
    (h : a.value = least ∨ b.value = least ∨ ¬ i.Spare) :
    Overflows i (exec (g.mint a b) i) := by
  rcases exec_fresh_cases i with ⟨room, fresh⟩ | ⟨full, fresh⟩
  · have limit : varLimit ≤ i.mint.numVars := by
      rcases h with h | h | h
      · exact limit_of_least ha hb (.inl h)
      · exact limit_of_least ha hb (.inr h)
      · exact Nat.le_of_eq (Classical.byContradiction fun ne => h ⟨room, Ne.symm ne⟩)
    have m0 := marked.mint
    have grows := grows_mint i
    -- both kinds negate their operands and the new variable, so they stop before they have done so
    have stop {x : Outcome Literal × Instance} (hla : a.value ≠ least) (hlb : b.value ≠ least)
        (hc : (ofVar i.numVars).value ≠ least) : Overflows i x :=
      absurd (least_of_not_spare room (h.resolve_left hla |>.resolve_left hlb)) hc
    cases g with
    | or =>
      show Overflows i (exec (mintOr a b) i)
      unfold mintOr
      rw [exec_bind_ok fresh]
      refine overflows_neg grows limit fun hla => ?_
      rw [exec_bind_ok (exec_addClause_gate (g := .or) m0 rfl ha hb (by simp [clauses]))]
      refine overflows_neg (grows.trans (grows_recordAll _ [_])) limit fun hlb => ?_
      rw [exec_bind_ok (exec_addClause_gate (g := .or) (m0.record _) rfl ha hb (by simp [clauses]))]
      exact overflows_neg (grows.trans (grows_recordAll _ [_, _])) limit (stop hla hlb)
    | xor =>
      show Overflows i (exec (mintXor a b) i)
      unfold mintXor
      rw [exec_bind_ok fresh]
      refine overflows_neg grows limit fun hla => overflows_neg grows limit fun hlb => ?_
      exact overflows_neg grows limit (stop hla hlb)
  · have limit : varLimit ≤ i.numVars := by
      unfold Cnf.countLimit at full
      unfold varLimit
      omega
    have run : exec (g.mint a b) i = (.error .overflow, i) := by
      cases g
      · exact exec_bind_error fresh
      · exact exec_bind_error fresh
    rw [run]
    exact ⟨rfl, .refl i, limit⟩

/-! ## Connectives -/

/-- An operand as the memo of a kind of gates has it. -/
def plain (l : Literal) : Gate → Literal
  | or => l
  | xor => l.unsigned

/-- The operands under which a gate is kept. -/
def key (a b : Literal) (g : Gate) : Literal × Literal := ordered (g.plain a) (g.plain b)

/-- The literal of a connective, given the variable of its gate. -/
def sign (a b c : Literal) : Gate → Literal
  | or => c
  | xor => if a.isNegated != b.isNegated then c.opposite else c

/-- The connective of a kind of gates. -/
def connect (a b : Literal) : Gate → Compile Literal
  | or => Compile.or a b
  | xor => Compile.xor a b

theorem value_or (x y : Bool) : Gate.or.value x y = (x || y) := rfl

theorem value_xor (x y : Bool) : Gate.xor.value x y = (x ^^ y) := rfl

theorem value_comm (g : Gate) (x y : Bool) : g.value x y = g.value y x := by
  cases g <;> cases x <;> cases y <;> rfl

@[simp] theorem var_sign (g : Gate) (a b c : Literal) : (g.sign a b c).var = c.var := by
  cases g with
  | or => rfl
  | xor =>
    show (if a.isNegated != b.isNegated then c.opposite else c).var = c.var
    split
    · exact var_opposite c
    · rfl

@[simp] theorem var_plain (g : Gate) (l : Literal) : (g.plain l).var = l.var := by
  cases g
  · rfl
  · exact var_unsigned l

theorem value_plain_eq_least {g : Gate} {l : Literal} :
    (g.plain l).value = least ↔ l.value = least := by
  cases g
  · exact Iff.rfl
  · exact value_unsigned_eq_least

theorem minted_key {i : Instance} (g : Gate) {a b : Literal} (ha : i.Minted a)
    (hb : i.Minted b) : i.Minted (g.key a b).1 ∧ i.Minted (g.key a b).2 := by
  unfold Minted key at *
  rcases ordered_cases (g.plain a) (g.plain b) with h | h <;> rw [h] <;> simp [ha, hb]

theorem least_key {g : Gate} {a b : Literal} :
    ((g.key a b).1.value = least ∨ (g.key a b).2.value = least) ↔
      (a.value = least ∨ b.value = least) := by
  unfold key
  rcases ordered_cases (g.plain a) (g.plain b) with h | h <;> rw [h]
  · simp only [value_plain_eq_least]
  · simp only [value_plain_eq_least, or_comm]

theorem ne_least_key {g : Gate} {a b : Literal} :
    (g.key a b).1.value ≠ least ∧ (g.key a b).2.value ≠ least ↔
      a.value ≠ least ∧ b.value ≠ least := by
  rw [← not_or, ← not_or, least_key]

/-- The order of the operands in a key does not matter for its value. -/
theorem value_key (g : Gate) (a b : Literal) (ρ : Valuation) :
    g.value ((g.key a b).1.holds ρ) ((g.key a b).2.holds ρ) =
      g.value ((g.plain a).holds ρ) ((g.plain b).holds ρ) := by
  unfold key
  rcases ordered_cases (g.plain a) (g.plain b) with h | h <;> rw [h]
  exact value_comm g _ _

/-- If a gate has the value of its key, its literal has that of the connective. -/
theorem holds_sign {g : Gate} {a b c : Literal} {ρ : Valuation} (ha : a.value ≠ least)
    (hb : b.value ≠ least) (hc : c.value ≠ least)
    (h : c.holds ρ = g.value ((g.key a b).1.holds ρ) ((g.key a b).2.holds ρ)) :
    (g.sign a b c).holds ρ = g.value (a.holds ρ) (b.holds ρ) := by
  rw [value_key] at h
  cases g with
  | or => exact h
  | xor =>
    replace h : c.holds ρ = (a.unsigned.holds ρ ^^ b.unsigned.holds ρ) := h
    rw [holds_unsigned ha, holds_unsigned hb] at h
    show (if a.isNegated != b.isNegated then c.opposite else c).holds ρ = (a.holds ρ ^^ b.holds ρ)
    split
    · next hs =>
      rw [holds_opposite hc, h]
      revert hs
      cases a.isNegated <;> cases b.isNegated <;> cases a.holds ρ <;> cases b.holds ρ <;> simp
    · next hs =>
      rw [h]
      revert hs
      cases a.isNegated <;> cases b.isNegated <;> cases a.holds ρ <;> cases b.holds ρ <;> simp

end Gate

/-- The operands of every gate and the literal of its variable can be negated. -/
def Instance.Keyed (i : Instance) : Prop :=
  ∀ (g : Gate) (key : Literal × Literal) (c : Literal), g.find? i key = some c →
    key.1.value ≠ Literal.least ∧ key.2.value ≠ Literal.least ∧ c.value ≠ Literal.least

/-- What a connective of minted literals can do. -/
inductive Connects (g : Gate) (a b : Literal) (i : Instance) : Outcome Literal → Instance → Prop
  /-- A constant or an operand has the value. -/
  | folded (c : Literal) (var : c.var = 1 ∨ c.var = a.var ∨ c.var = b.var)
      (holds : ∀ ρ : Valuation, ρ 1 = true → c.holds ρ = g.value (a.holds ρ) (b.holds ρ)) :
      Connects g a b i (.ok c) i
  /-- The gate is there. -/
  | known (c : Literal) (ha : a.value ≠ Literal.least) (hb : b.value ≠ Literal.least)
      (found : g.find? i (g.key a b) = some c) : Connects g a b i (.ok (g.sign a b c)) i
  /-- The gate is added. -/
  | minted (ha : a.value ≠ Literal.least) (hb : b.value ≠ Literal.least)
      (new : g.find? i (g.key a b) = none) (spare : i.Spare) :
      Connects g a b i (.ok (g.sign a b (Literal.ofVar i.numVars))) (i.withGate g (g.key a b))
  /-- A variable is too large to be negated, or to be counted. -/
  | overflow (j : Instance) (grows : i.Grows j) (limit : Literal.varLimit ≤ j.numVars) :
      Connects g a b i (.error .overflow) j

open Compile Instance Literal

namespace Gate

/-- Both kinds of gates are looked up, or minted and kept, in the same way. -/
theorem get_eq_lookup (g : Gate) (k : Literal × Literal) : g.get k = (do
    match g.find? (← MonadState.get) k with
    | some c => return c
    | none =>
      let c ← g.mint k.1 k.2
      update (fun j => g.keep k c j)
      return c) := by
  cases g <;> rfl

theorem exec_get_known {i : Instance} {g : Gate} {k : Literal × Literal} {c : Literal}
    (found : g.find? i k = some c) : exec (g.get k) i = (.ok c, i) := by
  rw [get_eq_lookup, exec_bind_ok (exec_get i), found]
  rfl

theorem exec_get_new {i : Instance} {g : Gate} {k : Literal × Literal}
    (new : g.find? i k = none) :
    exec (g.get k) i = exec (do
      let c ← g.mint k.1 k.2
      update (fun j => g.keep k c j)
      return c) i := by
  rw [get_eq_lookup, exec_bind_ok (exec_get i), new]

/-- A gate is found, or it is minted and noted, or its minting ends with an error. -/
theorem exec_get_cases (g : Gate) (k : Literal × Literal) (i : Instance) :
    (∃ c, g.find? i k = some c ∧ exec (g.get k) i = (.ok c, i)) ∨
      g.find? i k = none ∧
        ((∃ e j, exec (g.mint k.1 k.2) i = (.error e, j) ∧ exec (g.get k) i = (.error e, j)) ∨
          ∃ c j, exec (g.mint k.1 k.2) i = (.ok c, j) ∧ exec (g.get k) i = (.ok c, g.keep k c j)) := by
  cases known : g.find? i k with
  | some c => exact .inl ⟨c, rfl, exec_get_known known⟩
  | none =>
    refine .inr ⟨rfl, ?_⟩
    rw [exec_get_new known]
    rcases mint : exec (g.mint k.1 k.2) i with ⟨e | c, j⟩
    · exact .inl ⟨e, j, rfl, exec_bind_error mint⟩
    · exact .inr ⟨c, j, rfl, exec_bind_ok mint⟩

end Gate

end FiniteStructures
