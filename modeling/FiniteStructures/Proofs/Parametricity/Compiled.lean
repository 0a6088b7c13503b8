import FiniteStructures.Proofs.Parametricity.Domains
import FiniteStructures.Proofs.Parametricity.Shapes
import FiniteStructures.Proofs.Sat.Reachable

/-!
Literals simulate truth values.  A world is a number of variables with the clauses of the gates so
far.  Truth values of all variables, fixed for a whole run, relate a literal to its truth value there;
this says nothing any more once they violate the clauses of a gate.

    Simulation.minted        the operations on literals stay among the variables of the formula
    Simulation.compiled      they track those on truth values
    Compile.parametric       what this says about every model of the formula after a run

A run can also end because a literal needs more than 32 bits.  The formula then has at least
`Literal.varLimit` variables (`Compile.Exhausted`).  With that many variables a new one can have the
literal of an old one, and the formula can lose all its models, but not the meaning of its gates.
-/

namespace FiniteStructures

/-- A number of variables and the clauses of the gates; variable 1 is there. -/
structure Stage where
  vars : Nat
  gates : List Clause
  vars_pos : 1 ≤ vars

namespace Stage

/-- More variables and more gates. -/
structure Le (w w' : Stage) : Prop where
  vars : w.vars ≤ w'.vars
  gates : w.gates <+: w'.gates

theorem Le.refl (w : Stage) : w.Le w := ⟨Nat.le_refl _, List.prefix_rfl⟩

theorem Le.trans {u v w : Stage} (h : u.Le v) (h' : v.Le w) : u.Le w :=
  ⟨Nat.le_trans h.vars h'.vars, h.gates.trans h'.gates⟩

/-- The literal was minted. -/
def Has (w : Stage) (l : Literal) : Prop := l.var ≤ w.vars

theorem Has.congr {w : Stage} {l k : Literal} (h : w.Has l) (same : k.var = l.var) : w.Has k := by
  rw [Has, same]
  exact h

/-- The literal was minted, and it has the truth value if the clauses of the gates hold. -/
def Gives (ρ : Valuation) (w : Stage) (l : Literal) (b : Bool) : Prop :=
  w.Has l ∧ (ρ.Models w.gates → l.holds ρ = b)

variable {ρ : Valuation}

theorem Gives.mono {w w' : Stage} {l : Literal} {b : Bool} (h : w.Gives ρ l b) (hw : w.Le w') :
    w'.Gives ρ l b :=
  ⟨Nat.le_trans h.1 hw.vars, fun hρ => h.2 (hρ.mono hw.gates.subset)⟩

theorem gives_top (truth : ρ 1 = true) (w : Stage) : w.Gives ρ Literal.top true :=
  ⟨w.vars_pos, fun _ => Literal.holds_top truth⟩

theorem gives_bottom (truth : ρ 1 = true) (w : Stage) : w.Gives ρ Literal.bottom false :=
  ⟨w.vars_pos, fun _ => Literal.holds_bottom truth⟩

/-- The stage of a reachable formula. -/
structure Of (w : Stage) (free : List Nat) (i : Instance) : Prop where
  built : i.Built free w.gates
  vars : i.numVars = w.vars

theorem Of.minted_iff {w : Stage} {free : List Nat} {i : Instance} (h : w.Of free i) {l : Literal} :
    i.Minted l ↔ w.Has l := by
  rw [Instance.Minted, Has, h.vars]

end Stage

/-! ## Runs -/

namespace Compile

open Instance

variable {α β γ δ : Type} {w : Stage} {free : List Nat} {gates : List Clause} {i : Instance}

/-- A run that ended because a literal needs more than 32 bits. -/
def Exhausted (r : Outcome α × Instance) : Prop :=
  r.1 = .error .overflow ∧ Literal.varLimit ≤ r.2.numVars

/-- What follows does not run. -/
theorem Exhausted.bind {x : Compile α} (h : Exhausted (exec x i)) {f : α → Compile β} :
    Exhausted (exec (x >>= f) i) := by
  rcases run : exec x i with ⟨e | a, j⟩
  · rw [run] at h
    obtain ⟨he, limit⟩ := h
    cases he
    rw [exec_bind_error run]
    exact ⟨rfl, limit⟩
  · rw [run] at h
    cases h.1

/-- What a run asks of the clauses of the gates; no gate can make up for those before it. -/
structure Law where
  holds : List Clause → Prop
  mono : ∀ {gates gates' : List Clause}, gates <+: gates' → holds gates' → holds gates

/-- The clauses hold under the truth values. -/
def Law.models (ρ : Valuation) : Law := ⟨ρ.Models, fun h hρ => hρ.mono h.subset⟩

/-- Nothing is asked. -/
def Law.none : Law := ⟨fun _ => True, fun _ _ => trivial⟩

variable {law : Law}

/-- A run from the stage `w` on that came to the stage `w'`: it recorded the clauses of new gates and
no others, and ends as `y` does if the clauses obey the law.  If they do not, values still have a
partner. -/
structure Completes (law : Law) (w : Stage) (free : List Nat) (i : Instance)
    (R : Stage → α → β → Prop) (r : Outcome α × Instance) (y : Outcome β) (w' : Stage)
    (new : List Clause) : Prop where
  vars : w.vars ≤ w'.vars
  gates : w'.gates = w.gates ++ new
  stage : w'.Of free r.2
  clauses : r.2.clauses.toList = i.clauses.toList ++ new
  agree : law.holds w'.gates → Agree (R w') r.1 y
  partner : ¬ law.holds w'.gates → ∀ a, r.1 = .ok a → ∃ b, R w' a b

/-- The computation with literals ends as the other one does, unless variables run out. -/
def Tracks (law : Law) (w : Stage) (R : Stage → α → β → Prop) (x : Compile α) (y : Outcome β) :
    Prop :=
  ∀ free i, w.Of free i →
    Exhausted (exec x i) ∨ ∃ w' new, Completes law w free i R (exec x i) y w' new

namespace Completes

variable {R S : Stage → α → β → Prop} {r : Outcome α × Instance} {y z : Outcome β} {w' : Stage}
  {new : List Clause}

theorem le (h : Completes law w free i R r y w' new) : w.Le w' :=
  ⟨h.vars, h.gates ▸ List.prefix_append _ _⟩

/-- The formula stays as it is. -/
theorem same {o : Outcome α} (hw : w.Of free i) (h : Agree (R w) o y) :
    Completes law w free i R (o, i) y w [] where
  vars := Nat.le_refl _
  gates := (List.append_nil _).symm
  stage := hw
  clauses := (List.append_nil _).symm
  agree _ := h
  partner _ _ ha := (h.of_ok ha).imp fun _ => And.right

theorem mono (h : Completes law w free i R r y w' new)
    (agree : law.holds w'.gates → Agree (R w') r.1 y → Agree (S w') r.1 z)
    (partner : ∀ {a b}, ¬ law.holds w'.gates → R w' a b → ∃ c, S w' a c) :
    Completes law w free i S r z w' new :=
  { h with
    agree := fun hl => agree hl (h.agree hl)
    partner := fun hl a ha => (h.partner hl a ha).elim fun _ => partner hl }

/-- A run from where another one ended. -/
theorem trans {S : Stage → γ → δ → Prop} {s : Outcome γ × Instance} {x : Outcome δ} {w'' : Stage}
    {new' : List Clause} (h : Completes law w free i R r y w' new)
    (h' : Completes law w' free r.2 S s x w'' new') {z : Outcome δ}
    (same : law.holds w'.gates → z = x) :
    Completes law w free i S s z w'' (new ++ new') where
  vars := Nat.le_trans h.vars h'.vars
  gates := by rw [h'.gates, h.gates, List.append_assoc]
  stage := h'.stage
  clauses := by rw [h'.clauses, h.clauses, List.append_assoc]
  agree hl := same (law.mono h'.le.gates hl) ▸ h'.agree hl
  partner := h'.partner

end Completes

theorem Tracks.bind {R : Stage → α → β → Prop} {S : Stage → γ → δ → Prop} {x : Compile α}
    {y : Outcome β} {f : α → Compile γ} {g : β → Outcome δ} (hx : Tracks law w R x y)
    (hf : ∀ {w' a b}, w.Le w' → R w' a b → Tracks law w' S (f a) (g b)) :
    Tracks law w S (x >>= f) (y >>= g) := by
  intro free i hw
  rw [exec_bind]
  have first := hx free i hw
  revert first
  rcases exec x i with ⟨e | a, j⟩
  · rintro (⟨he, hv⟩ | ⟨w', new, h⟩)
    · cases he
      exact .inl ⟨rfl, hv⟩
    · refine .inr ⟨w', new, { h with agree := fun hl => ?_, partner := fun _ _ ha => nomatch ha }⟩
      rw [(h.agree hl).error_iff e |>.mp rfl]
      exact .error e
  · rintro (⟨he, -⟩ | ⟨w', new, h⟩)
    · cases he
    · -- where the law is broken, any partner will do
      obtain ⟨b, hab, hb⟩ : ∃ b, R w' a b ∧ (law.holds w'.gates → y = .ok b) := by
        by_cases hl : law.holds w'.gates
        · obtain ⟨b, hb, hab⟩ := (h.agree hl).of_ok rfl
          exact ⟨b, hab, fun _ => hb⟩
        · obtain ⟨b, hab⟩ := h.partner hl a rfl
          exact ⟨b, hab, fun hl' => absurd hl' hl⟩
      refine (hf h.le hab free j h.stage).imp id ?_
      rintro ⟨w'', new', h'⟩
      exact ⟨w'', new ++ new', h.trans h' fun hl => by rw [hb hl]; rfl⟩

/-- Runs on literals keep to runs of another domain while the clauses of the gates obey the law. -/
def building (law : Law) : Tracking Compile where
  World := Stage
  le := Stage.Le
  le_refl := .refl
  le_trans := .trans
  Failed w := ¬ law.holds w.gates
  failed_le hw := mt (law.mono hw.gates)
  Tracks := Tracks law
  pure h := fun _ _ hw => .inr ⟨_, _, .same hw (.ok h)⟩
  lift h := fun _ _ hw => .inr ⟨_, _, .same hw h⟩
  bind hx hf := hx.bind hf
  weaken hx sub := fun free i hw => (hx free i hw).imp id fun ⟨w', new, h⟩ =>
    ⟨w', new, h.mono (fun _ ha => ha.mono fun _ _ => sub h.le) fun _ hab => ⟨_, sub h.le hab⟩⟩
  known hx := fun free i hw => (hx free i hw).imp id fun ⟨w', new, h⟩ =>
    ⟨w', new, h.mono (fun _ ha => ha.known) fun hl hab => ⟨_, hab, fun hl' => absurd hl hl'⟩⟩
  failed broken hx := fun free i hw => (hx free i hw).imp id fun ⟨w', new, h⟩ =>
    ⟨w', new, h.mono (fun hl => absurd (law.mono h.le.gates hl) broken) fun _ hab => ⟨_, hab⟩⟩

/-! ## Operations -/

/-- A literal with an opposite is negated. -/
theorem tracks_neg {R : Stage → Literal → β → Prop} {a : Literal} {b : β} (ha : w.Has a)
    (value : a.value ≠ Literal.least → R w a.opposite b) :
    Tracks law w R (Compile.neg a) (.ok b) := by
  intro free i hw
  show Exhausted (a.neg, i) ∨ ∃ w' new, Completes law w free i R (a.neg, i) (.ok b) w' new
  rcases Literal.neg_cases a with ⟨ne, hn⟩ | ⟨least, hn⟩
  · rw [hn]
    exact .inr ⟨_, _, .same hw (.ok (value ne))⟩
  · rw [hn]
    exact .inl ⟨rfl, Literal.var_eq_limit least ▸ hw.vars ▸ ha⟩

/-- Both connectives have the value of their gate wherever the clauses of all gates hold. -/
theorem tracks_connect {R : Stage → Literal → β → Prop} (g : Gate) {a a' : Literal} {b : β}
    (ha : w.Has a) (ha' : w.Has a')
    (value : ∀ {w' c}, w.Le w' → w'.Has c →
      (∀ ρ : Valuation, ρ 1 = true → ρ.Models w'.gates →
        c.holds ρ = g.value (a.holds ρ) (a'.holds ρ)) → R w' c b) :
    Tracks law w R (g.connect a a') (.ok b) := by
  intro free i hw
  have hwf := hw.built.wellFormed
  have hm := hw.minted_iff.mpr ha
  have hm' := hw.minted_iff.mpr ha'
  have step := Gate.connects_connect hwf.marked hwf.keyed g hm hm'
  have built (c : Literal) (j : Instance) (call : exec (g.connect a a') i = (.ok c, j)) :=
    hw.built.gate g a a' hm hm' call
  revert step built
  rcases exec (g.connect a a') i with ⟨o, j⟩
  intro (step : Connects g a a' i o j) built
  cases step with
  | folded c var holds =>
    refine .inr ⟨_, _, .same hw (.ok (value (.refl w) ?_ fun ρ hρ _ => holds ρ hρ))⟩
    rcases var with hv | hv | hv
    · exact Stage.Has.congr (l := Literal.top) w.vars_pos hv
    · exact ha.congr hv
    · exact ha'.congr hv
  | known c hla hlb found =>
    obtain ⟨hka, hkb, hc⟩ := hwf.keyed g _ c found
    obtain ⟨-, -, minted, hd⟩ := hwf.memo g _ c found
    refine .inr ⟨_, _, .same hw (.ok (value (.refl w) ?_ fun ρ _ hρ => ?_))⟩
    · exact (hw.minted_iff.mp minted).congr (Gate.var_sign ..)
    · exact Gate.holds_sign hla hlb hc ((g.models_clauses ρ hka hkb hc).mp (hρ.mono hd))
  | minted hla hlb new spare =>
    obtain ⟨hka, hkb⟩ := Gate.ne_least_key.mpr ⟨hla, hlb⟩
    let w' : Stage := ⟨i.numVars + 1,
      w.gates ++ g.clauses (g.key a a').1 (g.key a a').2 (Literal.ofVar i.numVars), Nat.succ_pos _⟩
    have hle : w.Le w' := ⟨hw.vars ▸ Nat.le_succ _, List.prefix_append _ _⟩
    have related : R w' (g.sign a a' (Literal.ofVar i.numVars)) b := by
      refine value hle ?_ fun ρ _ hρ => ?_
      · rw [Stage.Has, Gate.var_sign]
        exact Literal.var_ofVar_le _
      · exact Gate.holds_sign hla hlb spare.ne_least ((g.models_clauses ρ hka hkb spare.ne_least).mp
          (Valuation.models_append.mp hρ).2)
    have built := built _ _ rfl
    rw [clausesFrom_withGate] at built
    exact .inr ⟨w', _,
      { vars := hle.vars
        gates := rfl
        stage := ⟨built, numVars_withGate ..⟩
        clauses := clauses_withGate ..
        agree := fun _ => .ok related
        partner := fun _ _ hc => ⟨b, Except.ok.inj hc ▸ related⟩ }⟩
  | overflow j grows limit => exact .inl ⟨rfl, limit⟩

end Compile

/-! ## The simulations -/

open Compile

theorem Derived.lawful_literals : Derived.Lawful Literal Compile :=
  ⟨fun _ _ => rfl, fun _ => rfl, fun _ => rfl, fun _ => rfl⟩

/-- Literals stay among the variables of the formula; shapes and faults are computed beside them. -/
def Simulation.minted : Simulation Literal Compile Unit :=
  .ofPrimitive Derived.lawful_literals Derived.lawful_unit (building .none) (fun w l _ => w.Has l)
    (fun _ _ _ _ hw h => Nat.le_trans h hw.vars) (fun _ _ _ => rfl) Stage.vars_pos Stage.vars_pos
    (fun h => tracks_neg h fun _ => h.congr (Literal.var_opposite _))
    (fun h h' => tracks_connect .or h h' fun _ hc _ => hc)
    (fun h h' => tracks_connect .xor h h' fun _ hc _ => hc)

theorem Compile.tracks_value (g : Gate) {ρ : Valuation} (truth : ρ 1 = true) {w : Stage}
    {a a' : Literal} {b b' : Bool} (h : w.Gives ρ a b) (h' : w.Gives ρ a' b') :
    Compile.Tracks (.models ρ) w (Stage.Gives ρ) (g.connect a a') (.ok (g.value b b')) :=
  tracks_connect g h.1 h'.1 fun hw hc value =>
    ⟨hc, fun hρ => by rw [value ρ truth hρ, (h.mono hw).2 hρ, (h'.mono hw).2 hρ]⟩

/-- Literals simulate the truth values that they have. -/
def Simulation.compiled {ρ : Valuation} (truth : ρ 1 = true) : Simulation Literal Compile Bool :=
  .ofPrimitive Derived.lawful_literals Derived.lawful_bool (building (.models ρ)) (Stage.Gives ρ)
    (fun _ _ _ _ hw h => h.mono hw)
    (fun alive h h' =>
      (h.2 (Classical.not_not.mp alive)).symm.trans (h'.2 (Classical.not_not.mp alive)))
    (Stage.gives_top truth) (Stage.gives_bottom truth)
    (fun h => tracks_neg h.1 fun ne =>
      ⟨h.1.congr (Literal.var_opposite _), fun hρ => by rw [Literal.holds_opposite ne, h.2 hρ]⟩)
    (tracks_value .or truth) (tracks_value .xor truth)

/-! ## Models of the formula after a run -/

namespace Compile

open Instance

variable {α β : Type} {free : List Nat} {gates : List Clause} {i : Instance}

/-- The stage of a formula. -/
def stage (built : i.Built free gates) : Stage := ⟨i.numVars, gates, built.wellFormed.truth⟩

theorem stage_of (built : i.Built free gates) : (stage built).Of free i := ⟨built, rfl⟩

/-- What a run leaves that did not run out of variables: clauses of new gates, and under all truth
values that they allow a result that is related to that of `y`. -/
structure Parametric (free : List Nat) (gates : List Clause) (i : Instance)
    (R : Valuation → Stage → α → β → Prop) (y : Valuation → Outcome β)
    (r : Outcome α × Instance) (new : List Clause) : Prop where
  built : r.2.Built free (gates ++ new)
  clauses : r.2.clauses.toList = i.clauses.toList ++ new
  numVars : i.numVars ≤ r.2.numVars
  agree : ∀ {ρ : Valuation}, ρ 1 = true → ρ.Models (gates ++ new) →
    Agree (R ρ (stage built)) r.1 (y ρ)

/-- A computation that keeps to one with truth values, whatever these are, does so in all models of
the formula it leaves. -/
theorem parametric {R : Valuation → Stage → α → β → Prop} {x : Compile α}
    {y : Valuation → Outcome β} (built : i.Built free gates)
    (h : ∀ {ρ : Valuation}, ρ 1 = true → Tracks (.models ρ) (stage built) (R ρ) x (y ρ)) :
    Exhausted (exec x i) ∨ ∃ new, Parametric free gates i R y (exec x i) new := by
  refine Classical.or_iff_not_imp_left.mpr ?_
  intro hex
  have run {ρ : Valuation} (truth : ρ 1 = true) :=
    (h truth free i (stage_of built)).resolve_left hex
  obtain ⟨w, new, hrun⟩ := run (ρ := fun _ => true) rfl
  have after : (exec x i).2.Built free (gates ++ new) := hrun.gates ▸ hrun.stage.built
  refine ⟨new, after, hrun.clauses, hrun.stage.vars ▸ hrun.vars, ?_⟩
  intro ρ truth hρ
  obtain ⟨w', new', h'⟩ := run truth
  obtain rfl : new' = new := List.append_cancel_left (h'.clauses.symm.trans hrun.clauses)
  have end_eq : w' = stage after := by
    rcases w' with ⟨vars, gates', pos⟩
    obtain rfl := h'.stage.vars
    obtain rfl := h'.gates
    rfl
  exact end_eq ▸ h'.agree (h'.gates ▸ hρ)

/-- A computation that stays among the variables of a formula fails as the shapes do. -/
theorem minted_agree {R : Stage → α → β → Prop} {x : Compile α} {y : Outcome β}
    (built : i.Built free gates) (h : Tracks .none (stage built) R x y) :
    Exhausted (exec x i) ∨ ∃ w, Agree (R w) (exec x i).1 y :=
  (h free i (stage_of built)).imp id fun ⟨w, _, h⟩ => ⟨w, h.agree trivial⟩

end Compile

end FiniteStructures
