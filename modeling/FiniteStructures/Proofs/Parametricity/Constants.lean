import FiniteStructures.Proofs.Parametricity.Methods
import FiniteStructures.Proofs.Parametricity.StraightLine

/-!
Constants fold.  Computations over the literals of variable 1 keep to those over truth values in
every formula, and leave it as it is: such literals simulate truth values in a tracking that allows
no effects (`Simulation.folding`).  So what is computed from constants is the constant that the truth
values give,

    exec call.run i = (call'.run with constants for truth values, i)      (Method.constants_fold)
-/

namespace FiniteStructures

open BooleanDomain Compile

variable {α β : Type}

/-! ## Computations without effects -/

namespace Compile

/-- The computation leaves every formula as it is, and ends as `y` does. -/
def Still (R : α → β → Prop) (x : Compile α) (y : Outcome β) : Prop :=
  ∀ i, ∃ o, exec x i = (o, i) ∧ Agree R o y

theorem Still.bind {γ δ : Type} {R : α → β → Prop} {S : γ → δ → Prop} {x : Compile α}
    {y : Outcome β} {f : α → Compile γ} {g : β → Outcome δ} (hx : Still R x y)
    (hf : ∀ {a b}, R a b → Still S (f a) (g b)) : Still S (x >>= f) (y >>= g) := by
  intro i
  obtain ⟨o, run, agree⟩ := hx i
  cases agree with
  | ok h =>
    rw [exec_bind_ok run]
    exact hf h i
  | error e => exact ⟨.error e, exec_bind_error run, .error e⟩

theorem Still.mono {R S : α → β → Prop} {x : Compile α} {y : Outcome β} (h : Still R x y)
    (sub : ∀ o, Agree R o y → Agree S o y) : Still S x y := by
  intro i
  obtain ⟨o, run, agree⟩ := h i
  exact ⟨o, run, sub o agree⟩

/-- Computations without effects are tracked in one world. -/
def stillness : Tracking Compile where
  World := Unit
  le _ _ := True
  le_refl _ := trivial
  le_trans _ _ := trivial
  Failed _ := False
  failed_le _ := id
  Tracks w R x y := Still (R w) x y
  pure h := fun i => ⟨_, exec_pure _ i, .ok h⟩
  lift h := fun _ => ⟨_, rfl, h⟩
  bind hx hf := hx.bind fun h => hf trivial h
  weaken hx sub := hx.mono fun _ h => h.mono fun _ _ => sub trivial
  known hx := hx.mono fun _ h => h.known
  failed := False.elim

/-! ## Operations -/

/-- The literal is the constant of a truth value. -/
def Folds (l : Literal) (b : Bool) : Prop := l = constant b

theorem stable_folds : stillness.Stable fun _ => Folds := fun _ _ _ _ _ h => h

theorem folds_top : Folds Literal.top true := rfl

theorem folds_bottom : Folds Literal.bottom false := rfl

variable {a a' : Literal} {b b' : Bool}

theorem still_neg (h : Folds a b) : Still Folds (Compile.neg a) (.ok !b) := by
  subst h
  cases b <;> exact fun i => ⟨_, rfl, .ok rfl⟩

theorem still_or (h : Folds a b) (h' : Folds a' b') :
    Still Folds (Compile.or a a') (.ok (b || b')) := by
  subst h h'
  cases b <;> cases b' <;> exact fun i => ⟨_, rfl, .ok rfl⟩

theorem still_xor (h : Folds a b) (h' : Folds a' b') :
    Still Folds (Compile.xor a a') (.ok (b ^^ b')) := by
  subst h h'
  cases b <;> cases b' <;> exact fun i => ⟨_, rfl, .ok rfl⟩

theorem functional_folds (h : Folds a b) (h' : Folds a b') : b = b' := by
  have same : (constant b : Literal) = constant b' := h.symm.trans h'
  cases b <;> cases b' <;> first | rfl | cases same

end Compile

/-- Constants simulate truth values, without effects. -/
def Simulation.folding : Simulation Literal Compile Bool :=
  .ofPrimitive Derived.lawful_literals Derived.lawful_bool stillness (fun _ => Folds) stable_folds
    (fun _ => functional_folds) (fun _ => folds_top) (fun _ => folds_bottom) still_neg still_or
    still_xor

/-! ## Constants and their truth values -/

/-- The truth value that a constant has under every assignment. -/
def Literal.truth (l : Literal) : Bool := l = Literal.top

theorem Literal.folds_of_isConstant {l : Literal} (h : l.isConstant) :
    Folds l l.truth := by
  have var : l.var = 1 := eq_of_beq h
  have value : l.value = 1 ∨ l.value = -1 := Int.natAbs_eq_iff.mp var
  rcases value with hv | hv
  · rw [show l = Literal.top from Literal.ext hv]
    rfl
  · rw [show l = Literal.bottom from Literal.ext hv]
    rfl

theorem Assignment.value_of_isConstant (a : Assignment) {l : Literal} (h : l.isConstant) :
    a.value l = .ok l.truth :=
  if_pos h

theorem Assignment.decode_of_isConstant (a : Assignment) {t : Tensor Literal}
    (h : ∀ l ∈ t.elems, l.isConstant) : a.decode t = .ok (t.map Literal.truth) :=
  Tensor.mapM_ok fun l hl => a.value_of_isConstant (h l hl)

namespace Method

/-- The result with other elements. -/
def Value.map {E F : Type} (f : E → F) : Value E → Value F
  | .element e => .element (f e)
  | .tensor t => .tensor (t.map f)

/-- What is related to truth values as constants are their constants. -/
theorem Value.eq_of_folds {v : Value Literal} {u : Value Bool}
    (h : v.Rel Folds u) : v = u.map constant := by
  cases h with
  | element h => exact congrArg Value.element h
  | @tensor t u h =>
    have image : t.map id = u.map constant := (h.map (s := Eq) fun _ _ hb => hb).eq
    have identity : t.map id = t := Tensor.ext rfl (List.map_id _)
    exact congrArg Value.tensor (identity ▸ image)

end Method

theorem regs_eq_of_folds {regs : List Literal} {bits : List Bool}
    (h : List.Forall₂ Folds regs bits) : regs = bits.map constant := by
  induction h with
  | nil => rfl
  | cons h _ ih => rw [List.map_cons, h, ih]

theorem Agree.eq_map {ε : Type} {R : α → β → Prop} {f : β → α} {o : Except ε α} {p : Except ε β}
    (h : Agree R o p) (eq : ∀ {a b}, R a b → a = f b) : o = p.map f := by
  cases h with
  | ok h => exact congrArg Except.ok (eq h)
  | error e => rfl

/-- A call whose operands are constants, and a program of domain operations over constants, end in
every formula as they do over truth values: with the same fault, or with the constants of the truth
values that are the result there.  They leave the formula as it is, with its variables, clauses and
gates. -/
theorem Method.constants_fold (i : Instance) (a : Assignment) :
    (∀ call : Call Literal, call.All (fun l => l.isConstant) →
      ∃ decoded, call.decode a = .ok decoded ∧
        exec call.run i = (decoded.run.map (Value.map constant), i)) ∧
    ∀ (program : List StraightLine.Instruction) (operands : List Literal),
      (∀ l ∈ operands, l.isConstant) →
      ∃ values, operands.mapM a.value = .ok values ∧
        exec (StraightLine.run program operands) i =
          ((StraightLine.run program values).map (List.map constant), i) := by
  constructor
  · intro call constants
    refine ⟨call.map Literal.truth, ?_, ?_⟩
    · exact Call.decode_eq constants fun t ht => a.decode_of_isConstant ht
    · obtain ⟨o, run, agree⟩ := Simulation.run (S := Simulation.folding) (w := ())
        (Call.rel_map (fun l hl => Literal.folds_of_isConstant hl) constants) i
      rw [run, agree.eq_map Value.eq_of_folds]
  · intro program operands constants
    refine ⟨operands.map Literal.truth, ?_, ?_⟩
    · exact List.mapM_ok fun l hl => a.value_of_isConstant (constants l hl)
    · obtain ⟨o, run, agree⟩ := Simulation.straightLine_map (S := Simulation.folding) (w := ())
        program Literal.truth (fun l hl => Literal.folds_of_isConstant (constants l hl)) i
      rw [run, agree.eq_map regs_eq_of_folds]

/-- A formula with one free variable. -/
def oneFree : Instance := Instance.initial.mint

open Method in
/-- The symmetric difference of two sets of two elements, and a conjunction with its parity. -/
theorem Method.constants_fold_two_cells :
    exec (Call.run (.combine .symmdiff ⟨[2], [Literal.top, Literal.bottom], rfl⟩
        ⟨[2], [Literal.top, Literal.top], rfl⟩)) oneFree =
      (.ok (.tensor ⟨[2], [Literal.bottom, Literal.top], rfl⟩), oneFree) ∧
    exec (StraightLine.run [.and 0 1, .sum [0, 1, 2]] [Literal.top, Literal.bottom]) oneFree =
      (.ok [Literal.top, Literal.bottom, Literal.bottom, Literal.top], oneFree) := by
  obtain ⟨calls, programs⟩ := Method.constants_fold oneFree ⟨#[]⟩
  constructor
  · obtain ⟨decoded, hd, run⟩ := calls (.combine .symmdiff ⟨[2], [Literal.top, Literal.bottom], rfl⟩
      ⟨[2], [Literal.top, Literal.top], rfl⟩) ⟨by decide, by decide⟩
    cases hd
    exact run
  · obtain ⟨values, hv, run⟩ := programs [.and 0 1, .sum [0, 1, 2]] [Literal.top, Literal.bottom]
      (by decide)
    cases hv
    exact run

end FiniteStructures
