import FiniteStructures.Proofs.Sat.Connectives

/-!
Formulas that calls can reach.  `Built free gates i` says that calls lead from the empty formula to
`i`, and keeps two records on the way: the free variables, those that `fresh` minted, and the
clauses that gates brought.  Two facts about the records matter.

    extends       truth values of the free variables have an extension under which the clauses of
                  the gates hold
    determined    … and only one, on the variables of the formula

Both follow the calls, while there are fewer than 2³¹ variables: a later one has the literal of a
variable before it.  The invariant that carries them is `WellFormed`, which knows no such limit.
-/

namespace FiniteStructures

namespace Instance

open Compile

/-- The clauses of a formula after the first `n`. -/
def clausesFrom (i : Instance) (n : Nat) : List Clause := i.clauses.toList.drop n

/-- The formula is reached by calls; `free` are the variables that were minted by `fresh`, and
`gates` the clauses that disjunctions and exclusive ors recorded.  All else, as conjunctions, is made
of these calls. -/
inductive Built : (free : List Nat) → (gates : List Clause) → Instance → Prop
  | initial : Built [] [] Instance.initial
  | fresh {free gates i j l} (before : Built free gates i) (call : exec fresh i = (.ok l, j)) :
      Built (free ++ [l.var]) gates j
  | addClause {free gates i j c} (before : Built free gates i)
      (call : exec (addClause c) i = (.ok (), j)) : Built free gates j
  | formula {free gates i j cnf} (before : Built free gates i)
      (call : exec formula i = (.ok cnf, j)) : Built free gates j
  | gate {free gates i j c} (before : Built free gates i) (g : Gate) (a b : Literal)
      (ha : i.Minted a) (hb : i.Minted b) (call : exec (g.connect a b) i = (.ok c, j)) :
      Built free (gates ++ j.clausesFrom i.clauses.size) j

/-! ## The invariant -/

/-- What holds of every formula that calls reach. -/
structure WellFormed (free : List Nat) (gates : List Clause) (i : Instance) : Prop where
  marked : i.Marked
  truth : 1 ≤ i.numVars
  truth_mem : [Literal.top] ∈ i.clauses.toList
  minted : ∀ c ∈ i.clauses.toList, ∀ l ∈ c, i.Minted l
  gates_mem : ∀ c ∈ gates, c ∈ i.clauses.toList
  keyed : i.Keyed
  /-- The clauses of the gates in the memo are there, over minted variables. -/
  memo : ∀ (g : Gate) (key : Literal × Literal) (c : Literal), g.find? i key = some c →
    i.Minted key.1 ∧ i.Minted key.2 ∧ i.Minted c ∧ ∀ d ∈ g.clauses key.1 key.2 c, d ∈ gates
  free_le : ∀ v ∈ free, 1 ≤ v ∧ v ≤ i.numVars

variable {free : List Nat} {gates : List Clause} {i : Instance}

theorem WellFormed.initial : WellFormed [] [] Instance.initial where
  marked := rfl
  truth := Nat.le_refl 1
  truth_mem := List.mem_singleton.mpr rfl
  minted := Instance.minted_initial
  gates_mem c hc := by cases hc
  keyed g key c h := by cases g <;> simp [Gate.find?, Instance.initial] at h
  memo g key c h := by cases g <;> simp [Gate.find?, Instance.initial] at h
  free_le v hv := by cases hv

theorem WellFormed.mint (h : WellFormed free gates i) :
    WellFormed (free ++ [(Literal.ofVar i.numVars).var]) gates i.mint where
  marked := h.marked.mint
  truth := Nat.le_succ_of_le h.truth
  truth_mem := h.truth_mem
  minted c hc l hl := Nat.le_succ_of_le (h.minted c hc l hl)
  gates_mem := h.gates_mem
  keyed g key c hf := h.keyed g key c (by rwa [Gate.find?_mint] at hf)
  memo g key c hf := by
    obtain ⟨ha, hb, hc, hd⟩ := h.memo g key c (by rwa [Gate.find?_mint] at hf)
    exact ⟨Nat.le_succ_of_le ha, Nat.le_succ_of_le hb, Nat.le_succ_of_le hc, hd⟩
  free_le v hv := by
    rw [numVars_mint]
    rcases List.mem_append.mp hv with hv | hv
    · have := h.free_le v hv
      omega
    · rw [List.mem_singleton.mp hv]
      exact ⟨Literal.var_pos _, Literal.var_ofVar_le _⟩

theorem WellFormed.recordAll (h : WellFormed free gates i) {cs : List Clause}
    (minted : ∀ c ∈ cs, ∀ l ∈ c, i.Minted l) : WellFormed free gates (i.recordAll cs) where
  marked := h.marked.recordAll cs
  truth := by rw [numVars_recordAll]; exact h.truth
  truth_mem := by rw [clauses_recordAll]; exact List.mem_append_left _ h.truth_mem
  minted c hc l hl := by
    unfold Minted
    rw [numVars_recordAll]
    rw [clauses_recordAll] at hc
    rcases List.mem_append.mp hc with hc | hc
    · exact h.minted c hc l hl
    · exact minted c hc l hl
  gates_mem c hc := by rw [clauses_recordAll]; exact List.mem_append_left _ (h.gates_mem c hc)
  keyed g key c hf := h.keyed g key c (by rwa [Gate.find?_recordAll] at hf)
  memo g key c hf := by
    unfold Minted
    rw [numVars_recordAll]
    exact h.memo g key c (by rwa [Gate.find?_recordAll] at hf)
  free_le v hv := by rw [numVars_recordAll]; exact h.free_le v hv

theorem WellFormed.record (h : WellFormed free gates i) {c : Clause}
    (minted : ∀ l ∈ c, i.Minted l) : WellFormed free gates (i.record c) := by
  have all : ∀ d ∈ [c], ∀ l ∈ d, i.Minted l := by
    intro d hd
    rw [List.mem_singleton.mp hd]
    exact minted
  exact h.recordAll all

theorem WellFormed.withGate (h : WellFormed free gates i) (g : Gate) {key : Literal × Literal}
    (ha : i.Minted key.1) (hb : i.Minted key.2) (hla : key.1.value ≠ Literal.least)
    (hlb : key.2.value ≠ Literal.least) (spare : i.Spare) :
    WellFormed free (gates ++ g.clauses key.1 key.2 (Literal.ofVar i.numVars))
      (i.withGate g key) where
  marked := h.marked.withGate g key
  truth := by
    rw [numVars_withGate]
    exact Nat.le_succ_of_le h.truth
  truth_mem := by
    rw [clauses_withGate]
    exact List.mem_append_left _ h.truth_mem
  minted c hc l hl := by
    unfold Minted at ha hb ⊢
    rw [numVars_withGate]
    rw [clauses_withGate] at hc
    rcases List.mem_append.mp hc with hc | hc
    · exact Nat.le_succ_of_le (h.minted c hc l hl)
    · have := Gate.mem_var_of_clauses hc hl
      have := Literal.var_ofVar_le i.numVars
      omega
  gates_mem c hc := by
    rw [clauses_withGate]
    rcases List.mem_append.mp hc with hc | hc
    · exact List.mem_append_left _ (h.gates_mem c hc)
    · exact List.mem_append_right _ hc
  keyed g' key' c hf := by
    rw [find?_withGate] at hf
    split at hf
    · next hk =>
      obtain ⟨rfl, rfl⟩ := hk
      obtain rfl := Option.some.inj hf
      exact ⟨hla, hlb, spare.ne_least⟩
    · exact h.keyed g' key' c hf
  memo g' key' c hf := by
    unfold Minted at ha hb ⊢
    rw [numVars_withGate]
    rw [find?_withGate] at hf
    split at hf
    · next hk =>
      obtain ⟨rfl, rfl⟩ := hk
      obtain rfl := Option.some.inj hf
      exact ⟨Nat.le_succ_of_le ha, Nat.le_succ_of_le hb, Literal.var_ofVar_le _,
        fun d hd => List.mem_append_right _ hd⟩
    · obtain ⟨ha, hb, hc, hd⟩ := h.memo g' key' c hf
      exact ⟨Nat.le_succ_of_le ha, Nat.le_succ_of_le hb, Nat.le_succ_of_le hc,
        fun d hm => List.mem_append_left _ (hd d hm)⟩
  free_le v hv := by
    rw [numVars_withGate]
    have := h.free_le v hv
    omega

/-- A call of a connective finds its literal or adds a gate. -/
theorem WellFormed.connect (h : WellFormed free gates i) {g : Gate} {a b c : Literal}
    {j : Instance} (ha : i.Minted a) (hb : i.Minted b)
    (call : exec (g.connect a b) i = (.ok c, j)) :
    j = i ∨ (j = i.withGate g (g.key a b) ∧ a.value ≠ Literal.least ∧ b.value ≠ Literal.least ∧
      i.Spare) := by
  have hc := Gate.connects_connect h.marked h.keyed g ha hb
  rw [call] at hc
  cases hc with
  | folded => exact .inl rfl
  | known => exact .inl rfl
  | minted hla hlb new spare => exact .inr ⟨rfl, hla, hlb, spare⟩

theorem clausesFrom_self (i : Instance) : i.clausesFrom i.clauses.size = [] :=
  List.drop_eq_nil_of_le (by simp)

theorem clausesFrom_withGate (i : Instance) (g : Gate) (key : Literal × Literal) :
    (i.withGate g key).clausesFrom i.clauses.size =
      g.clauses key.1 key.2 (Literal.ofVar i.numVars) := by
  unfold clausesFrom
  rw [clauses_withGate, List.drop_append_of_le_length (by simp), List.drop_eq_nil_of_le (by simp)]
  rfl

/-- The variables of a padded formula's new clauses were minted. -/
theorem minted_of_idle {c : Clause} (hc : c ∈ (idle i).map tautology) {l : Literal} (hl : l ∈ c) :
    i.Minted l := by
  obtain ⟨k, hk, rfl⟩ := List.mem_map.mp hc
  have minted := minted_of_mem_idle hk
  simp only [tautology, List.mem_cons, List.not_mem_nil, or_false] at hl
  rcases hl with rfl | rfl
  · exact minted
  · rwa [Minted, Literal.var_opposite]

/-- Every formula that calls reach is well formed. -/
theorem Built.wellFormed (h : Built free gates i) : WellFormed free gates i := by
  induction h with
  | initial => exact .initial
  | fresh _ call ih =>
    obtain ⟨rfl, rfl⟩ := fresh_ok call
    exact ih.mint
  | addClause _ call ih =>
    obtain ⟨hc, rfl⟩ := addClause_ok call
    refine ih.record fun l hl => ?_
    have := hc l hl
    rw [ih.marked] at this
    exact Nat.le_of_lt_succ this
  | formula _ call ih =>
    obtain ⟨-, rfl⟩ := formula_ok call
    exact ih.recordAll fun d hd l hl => minted_of_idle hd hl
  | gate _ g a b ha hb call ih =>
    rcases ih.connect ha hb call with rfl | ⟨rfl, hla, hlb, spare⟩
    · rw [clausesFrom_self, List.append_nil]
      exact ih
    · obtain ⟨hka, hkb⟩ := Gate.minted_key g ha hb
      obtain ⟨hlka, hlkb⟩ := Gate.ne_least_key.mpr ⟨hla, hlb⟩
      rw [clausesFrom_withGate]
      exact ih.withGate g hka hkb hlka hlkb spare

/-- A minted variable has its place in the table of occurrences. -/
theorem Built.lt_occurs (h : Built free gates i) {l : Literal} (hl : i.Minted l) :
    l.var < i.occurs.size := by
  rw [h.wellFormed.marked]
  exact Nat.lt_succ_of_le hl

/-- A clause over minted variables can be added. -/
theorem Built.exec_addClause (h : Built free gates i) {c : Clause}
    (minted : ∀ l ∈ c, i.Minted l) : exec (Compile.addClause c) i = (.ok (), i.record c) :=
  Compile.exec_addClause fun l hl => h.lt_occurs (minted l hl)

theorem Built.record (h : Built free gates i) {c : Clause} (minted : ∀ l ∈ c, i.Minted l) :
    (i.record c).Built free gates := h.addClause (h.exec_addClause minted)

theorem Built.recordAll (h : Built free gates i) {cs : List Clause}
    (minted : ∀ c ∈ cs, ∀ l ∈ c, i.Minted l) :
    (i.recordAll cs).Built free gates := by
  induction cs generalizing i with
  | nil => exact h
  | cons c cs ih =>
    obtain ⟨first, rest⟩ := List.forall_mem_cons.mp minted
    exact ih (h.record first) rest

/-! ## Gates are conservative -/

/-- Beyond its last variable nothing is said: a variable may be given any value there. -/
theorem models_update {ρ : Valuation} {b : Bool} {cs : List Clause}
    (minted : ∀ c ∈ cs, ∀ l ∈ c, i.Minted l) (h : ρ.Models cs) :
    (ρ.update (i.numVars + 1) b).Models cs := by
  refine h.congr fun c hc l hl => Valuation.update_of_ne ?_
  have := minted c hc l hl
  unfold Minted at this
  omega

theorem WellFormed.gates_minted (h : WellFormed free gates i) :
    ∀ c ∈ gates, ∀ l ∈ c, i.Minted l :=
  fun c hc => h.minted c (h.gates_mem c hc)

/-- While there is room for it, a new gate has the value of its operands. -/
theorem models_gate {g : Gate} {key : Literal × Literal} (ha : i.Minted key.1)
    (hb : i.Minted key.2) (room : i.numVars + 1 < Literal.varLimit) (ρ : Valuation) :
    ρ.Models (g.clauses key.1 key.2 (Literal.ofVar i.numVars)) ↔
      ρ (i.numVars + 1) = g.value (key.1.holds ρ) (key.2.holds ρ) := by
  have small {l : Literal} (hl : i.Minted l) : l.value ≠ Literal.least :=
    Literal.value_ne_least (Nat.lt_of_le_of_lt hl (Nat.lt_of_succ_lt room))
  have output : (Literal.ofVar i.numVars).value ≠ Literal.least :=
    Literal.value_ne_least (by rwa [Literal.var_ofVar (Nat.lt_of_succ_lt room)])
  rw [g.models_clauses ρ (small ha) (small hb) output, Literal.holds_ofVar room]

/-- A new gate can be given its value. -/
theorem WellFormed.exists_models_withGate (h : WellFormed free gates i) (g : Gate)
    {key : Literal × Literal} (ha : i.Minted key.1) (hb : i.Minted key.2)
    (room : i.numVars + 1 < Literal.varLimit) {ρ : Valuation} (hρ : ρ.Models gates) :
    ∃ τ : Valuation, (∀ v ≤ i.numVars, τ v = ρ v) ∧
      τ.Models (gates ++ g.clauses key.1 key.2 (Literal.ofVar i.numVars)) := by
  have same (v : Nat) (hv : v ≤ i.numVars) (b : Bool) :
      ρ.update (i.numVars + 1) b v = ρ v := Valuation.update_of_ne (by omega)
  refine ⟨ρ.update (i.numVars + 1) (g.value (key.1.holds ρ) (key.2.holds ρ)),
    fun v hv => same v hv _, ?_⟩
  rw [Valuation.models_append]
  refine ⟨models_update h.gates_minted hρ, ?_⟩
  rw [models_gate ha hb room, Valuation.update_self,
    Literal.holds_congr (same _ ha _), Literal.holds_congr (same _ hb _)]

/-- Truth values of the free variables can be extended to the gates. -/
theorem Built.extends (h : Built free gates i) (room : i.numVars < Literal.varLimit)
    (ρ : Valuation) :
    ∃ τ : Valuation, (∀ v ∈ free, τ v = ρ v) ∧ τ 1 = true ∧ τ.Models gates := by
  induction h with
  | initial => exact ⟨fun _ => true, nofun, rfl, Valuation.models_nil _⟩
  | @fresh free _ i _ _ before call ih =>
    obtain ⟨rfl, rfl⟩ := fresh_ok call
    obtain ⟨τ, agree, truth, models⟩ := ih (Nat.lt_of_succ_lt room)
    have hw := before.wellFormed
    refine ⟨τ.update (i.numVars + 1) (ρ (i.numVars + 1)), fun v hv => ?_, ?_,
      models_update hw.gates_minted models⟩
    · rw [Literal.var_ofVar (Nat.lt_of_succ_lt room)] at hv
      rcases List.mem_append.mp hv with hv | hv
      · rw [Valuation.update_of_ne, agree v hv]
        have := hw.free_le v hv
        omega
      · rw [List.mem_singleton.mp hv, Valuation.update_self]
    · rw [Valuation.update_of_ne, truth]
      have := hw.truth
      omega
  | addClause _ call ih =>
    obtain ⟨-, rfl⟩ := addClause_ok call
    exact ih room
  | formula _ call ih =>
    obtain ⟨-, rfl⟩ := formula_ok call
    rw [padded, numVars_recordAll] at room
    exact ih room
  | @gate free _ i _ _ before g a b ha hb call ih =>
    have hw := before.wellFormed
    rcases hw.connect ha hb call with rfl | ⟨rfl, -, -, -⟩
    · rw [clausesFrom_self, List.append_nil]
      exact ih room
    · rw [numVars_withGate] at room
      obtain ⟨τ, agree, truth, models⟩ := ih (Nat.lt_of_succ_lt room)
      obtain ⟨hka, hkb⟩ := Gate.minted_key g ha hb
      obtain ⟨υ, same, hυ⟩ := hw.exists_models_withGate g hka hkb room models
      rw [clausesFrom_withGate]
      exact ⟨υ, fun v hv => (same v (hw.free_le v hv).2).trans (agree v hv),
        (same 1 hw.truth).trans truth, hυ⟩

/-- The extension to the gates is unique. -/
theorem Built.determined (h : Built free gates i) (room : i.numVars < Literal.varLimit)
    {ρ τ : Valuation} (hρ : ρ.Models gates) (hτ : τ.Models gates) (truth : τ 1 = ρ 1)
    (agree : ∀ v ∈ free, τ v = ρ v) :
    ∀ v, 1 ≤ v → v ≤ i.numVars → τ v = ρ v := by
  induction h with
  | initial =>
    intro v h1 hv
    replace hv : v ≤ 1 := hv
    obtain rfl : v = 1 := by omega
    exact truth
  | @fresh free _ i _ _ before call ih =>
    obtain ⟨rfl, rfl⟩ := fresh_ok call
    rw [Literal.var_ofVar (Nat.lt_of_succ_lt room)] at agree
    intro v h1 hv
    rw [numVars_mint] at hv
    rcases Nat.lt_or_eq_of_le hv with hv | rfl
    · exact ih (Nat.lt_of_succ_lt room) hρ hτ (fun w hw => agree w (List.mem_append_left _ hw)) v h1
        (by omega)
    · exact agree _ (List.mem_append_right _ (List.mem_singleton.mpr rfl))
  | addClause _ call ih =>
    obtain ⟨-, rfl⟩ := addClause_ok call
    exact ih room hρ hτ agree
  | formula before call ih =>
    obtain ⟨-, rfl⟩ := formula_ok call
    unfold padded at room ⊢
    rw [numVars_recordAll] at room ⊢
    exact ih room hρ hτ agree
  | @gate free _ i _ _ before g a b ha hb call ih =>
    rw [Valuation.models_append] at hρ hτ
    rcases before.wellFormed.connect ha hb call with rfl | ⟨rfl, -, -, -⟩
    · exact ih room hρ.1 hτ.1 agree
    · rw [numVars_withGate] at room
      have below := ih (Nat.lt_of_succ_lt room) hρ.1 hτ.1 agree
      obtain ⟨hka, hkb⟩ := Gate.minted_key g ha hb
      rw [clausesFrom_withGate, models_gate hka hkb room] at hρ hτ
      intro v h1 hv
      rw [numVars_withGate] at hv
      rcases Nat.lt_or_eq_of_le hv with hv | rfl
      · exact below v h1 (by omega)
      · rw [hρ.2, hτ.2, Literal.holds_congr (below _ (Literal.var_pos _) hka),
          Literal.holds_congr (below _ (Literal.var_pos _) hkb)]

end Instance

end FiniteStructures
