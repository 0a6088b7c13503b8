import FiniteStructures.Proofs.Parametricity.Methods

/-!
Straight-line programs of domain operations.  A program works on registers: they start with the
operands, and each instruction adds its result.  A register can be read any number of times, so parts of a
formula are shared.

Over literals, a program records clauses of gates only.  Under every assignment that satisfies the
formula, its literals have the values that the program computes from those of the operands
(`StraightLine.run_compiles`).
-/

namespace FiniteStructures

namespace StraightLine

/-- One operation, its arguments given by the numbers of registers. -/
inductive Instruction where
  | constant (value : Bool)
  | neg (a : Nat)
  | or (a b : Nat)
  | xor (a b : Nat)
  | and (a b : Nat)
  | leq (a b : Nat)
  | equ (a b : Nat)
  | all (elems : List Nat)
  | any (elems : List Nat)
  | sum (elems : List Nat)
  | one (elems : List Nat)
  | lexLess (a b : List Nat)
  | lexLeq (a b : List Nat)

section Run

variable {E : Type}

/-- The content of a register. -/
def read (regs : List E) (n : Nat) : Outcome E :=
  match regs[n]? with
  | some e => .ok e
  | none => .breach .outOfBounds

/-- The contents of several registers. -/
def readAll (regs : List E) : List Nat → Outcome (List E)
  | [] => .ok []
  | n :: ns => do return (← read regs n) :: (← readAll regs ns)

variable {m : Type → Type} [BooleanDomain E m] [Monad m] [MonadLiftT Outcome m]

def Instruction.run (regs : List E) : Instruction → m E
  | constant value => return BooleanDomain.constant value
  | neg a => do BooleanDomain.neg (← read regs a)
  | or a b => do BooleanDomain.or (← read regs a) (← read regs b)
  | xor a b => do BooleanDomain.xor (← read regs a) (← read regs b)
  | and a b => do BooleanDomain.and (← read regs a) (← read regs b)
  | leq a b => do BooleanDomain.leq (← read regs a) (← read regs b)
  | equ a b => do BooleanDomain.equ (← read regs a) (← read regs b)
  | all elems => do BooleanDomain.all (← readAll regs elems)
  | any elems => do BooleanDomain.any (← readAll regs elems)
  | sum elems => do BooleanDomain.parity (← readAll regs elems)
  | one elems => do BooleanDomain.one (← readAll regs elems)
  | lexLess a b => do BooleanDomain.lexLess (← readAll regs a) (← readAll regs b)
  | lexLeq a b => do BooleanDomain.lexLeq (← readAll regs a) (← readAll regs b)

/-- Runs a program; the result is the contents of all registers. -/
def run : List Instruction → List E → m (List E)
  | [], regs => return regs
  | instr :: rest, regs => do
    let e ← instr.run regs
    run rest (regs ++ [e])

end Run

/-! ## Related runs -/

section Related

variable {E F : Type} {r : E → F → Prop} {regs : List E} {regs' : List F}

theorem read_rel (h : List.Forall₂ r regs regs') (n : Nat) :
    Agree r (read regs n) (read regs' n) :=
  Tensor.cell_rel h n

theorem readAll_rel (h : List.Forall₂ r regs regs') (ns : List Nat) :
    Agree (List.Forall₂ r) (readAll regs ns) (readAll regs' ns) := by
  induction ns with
  | nil => exact .ok .nil
  | cons n ns ih =>
    exact (read_rel h n).bind fun _ _ hab => ih.bind fun _ _ hl => .ok (.cons hab hl)

end Related

end StraightLine

namespace Simulation

open StraightLine

variable {E F : Type} {m : Type → Type} [Monad m] [MonadLiftT Outcome m] [BooleanDomain E m]
  [BooleanDomain F Outcome] {S : Simulation E m F} {w : S.World} {regs : List E} {regs' : List F}

/-- An operation with one argument from the registers. -/
theorem instruction_unary {f : E → m E} {g : F → Outcome F}
    (hf : ∀ {w a b}, S.rel w a b → S.Tracks w S.rel (f a) (g b))
    (h : List.Forall₂ (S.rel w) regs regs') (n : Nat) :
    S.Tracks w S.rel (do f (← read regs n)) (do g (← read regs' n)) :=
  S.bind (S.lift (read_rel h n)) fun _ => hf

/-- An operation with two arguments from the registers. -/
theorem instruction_binary {f : E → E → m E} {g : F → F → Outcome F}
    (hf : ∀ {w a b a' b'}, S.rel w a b → S.rel w a' b' → S.Tracks w S.rel (f a a') (g b b'))
    (h : List.Forall₂ (S.rel w) regs regs') (n k : Nat) :
    S.Tracks w S.rel (do f (← read regs n) (← read regs k))
      (do g (← read regs' n) (← read regs' k)) := by
  refine S.bind (R := S.rel) (S.lift (read_rel h n)) fun hw ha => ?_
  refine S.bind (S.lift (read_rel (Tracking.forall₂_mono S.stable hw h) k)) fun hw' => ?_
  exact hf (S.stable _ _ _ _ hw' ha)

/-- An operation with a list of arguments from the registers. -/
theorem instruction_list {f : List E → m E} {g : List F → Outcome F}
    (hf : ∀ {w l l'}, List.Forall₂ (S.rel w) l l' → S.Tracks w S.rel (f l) (g l'))
    (h : List.Forall₂ (S.rel w) regs regs') (ns : List Nat) :
    S.Tracks w S.rel (do f (← readAll regs ns)) (do g (← readAll regs' ns)) :=
  S.bind (S.lift (readAll_rel h ns)) fun _ => hf

/-- An operation with two lists of arguments from the registers. -/
theorem instruction_lists {f : List E → List E → m E} {g : List F → List F → Outcome F}
    (hf : ∀ {w k k' l l'}, List.Forall₂ (S.rel w) k k' → List.Forall₂ (S.rel w) l l' →
      S.Tracks w S.rel (f k l) (g k' l'))
    (h : List.Forall₂ (S.rel w) regs regs') (ns ks : List Nat) :
    S.Tracks w S.rel (do f (← readAll regs ns) (← readAll regs ks))
      (do g (← readAll regs' ns) (← readAll regs' ks)) := by
  refine S.bind (R := fun w => List.Forall₂ (S.rel w)) (S.lift (readAll_rel h ns))
    fun hw ha => ?_
  exact S.bind (R := fun w => List.Forall₂ (S.rel w))
    (S.lift (readAll_rel (Tracking.forall₂_mono S.stable hw h) ks)) fun hw' =>
      hf (Tracking.forall₂_mono S.stable hw' ha)

theorem instruction_run (instr : Instruction) (h : List.Forall₂ (S.rel w) regs regs') :
    S.Tracks w S.rel (instr.run regs) (instr.run regs') := by
  cases instr with
  | constant value => exact S.pure (S.rel_constant w value)
  | neg a => exact instruction_unary S.neg h a
  | or a b => exact instruction_binary S.or h a b
  | xor a b => exact instruction_binary S.xor h a b
  | and a b => exact instruction_binary S.and h a b
  | leq a b => exact instruction_binary leq h a b
  | equ a b => exact instruction_binary equ h a b
  | all elems => exact instruction_list S.all h elems
  | any elems => exact instruction_list S.any h elems
  | sum elems => exact instruction_list parity h elems
  | one elems => exact instruction_list S.one h elems
  | lexLess a b => exact instruction_lists lexLess h a b
  | lexLeq a b => exact instruction_lists lexLeq h a b

/-- A program keeps every simulation. -/
theorem straightLine_run (program : List Instruction) (h : List.Forall₂ (S.rel w) regs regs') :
    S.Tracks w (fun w => List.Forall₂ (S.rel w)) (StraightLine.run program regs)
      (StraightLine.run program regs') := by
  induction program generalizing w regs regs' with
  | nil => exact S.pure h
  | cons instr rest ih =>
    exact S.bind (instruction_run instr h) fun hw hab =>
      ih (List.rel_append (Tracking.forall₂_mono S.stable hw h) (.cons hab .nil))

/-- A program on registers, and on what a function makes of them. -/
theorem straightLine_map (program : List Instruction) {l : List E} (f : E → F)
    (h : ∀ e ∈ l, S.rel w e (f e)) :
    S.Tracks w (fun w => List.Forall₂ (S.rel w)) (StraightLine.run program l)
      (StraightLine.run program (l.map f)) :=
  straightLine_run program (List.forall₂_map_right_iff.mpr (List.forall₂_same.mpr h))

end Simulation

/-! ## Faults over truth values -/

namespace StraightLine

/-- What can go wrong over truth values: a register that is not there, or lists of different
lengths. -/
def Expected (e : Fault) : Prop :=
  e = .misuse .outOfBounds ∨ ∃ n k, e = .error (.arityMismatch n k)

/-- The computation fails in the expected ways only. -/
def Expects {α : Type} (o : Outcome α) : Prop := ∀ e, o = .error e → Expected e

variable {α β : Type}

theorem Expects.ok (a : α) : Expects (.ok a : Outcome α) := fun e h => by cases h

theorem Expects.bind {o : Outcome α} {f : α → Outcome β} (h : Expects o)
    (hf : ∀ a, Expects (f a)) : Expects (o >>= f) := by
  cases o with
  | error e =>
    intro e' he
    cases he
    exact h e rfl
  | ok a => exact hf a

theorem expects_foldlM {f : α → β → Outcome α} (hf : ∀ a b, Expects (f a b)) (l : List β)
    (a : α) : Expects (l.foldlM f a) := by
  induction l generalizing a with
  | nil => exact .ok a
  | cons b l ih =>
    rw [List.foldlM_cons]
    exact (hf a b).bind ih

theorem expects_read (regs : List α) (n : Nat) : Expects (read regs n) := by
  unfold read
  split
  · exact .ok _
  · intro e he
    cases he
    exact .inl rfl

theorem expects_readAll (regs : List α) (ns : List Nat) : Expects (readAll regs ns) := by
  induction ns with
  | nil => exact .ok _
  | cons n ns ih => exact (expects_read regs n).bind fun _ => ih.bind fun _ => .ok _

theorem expects_arity (expected found : Nat) : Expects (Outcome.arity expected found : Outcome α) := by
  intro e he
  cases he
  exact .inr ⟨_, _, rfl⟩

theorem expects_lexLess (a b : List Bool) :
    Expects (BooleanDomain.lexLess a b : Outcome Bool) := by
  unfold BooleanDomain.lexLess
  split
  · exact (expects_arity _ _).bind fun _ => (expects_foldlM (fun _ _ => .ok _) _ _).bind fun _ => .ok _
  · exact (expects_foldlM (fun _ _ => .ok _) _ _).bind fun _ => .ok _

theorem expects_instruction (instr : Instruction) (regs : List Bool) :
    Expects (instr.run regs : Outcome Bool) := by
  have unary {f : Bool → Outcome Bool} (hf : ∀ a, Expects (f a)) (n : Nat) :
      Expects (do f (← read regs n)) :=
    (expects_read regs n).bind hf
  have binary {f : Bool → Bool → Outcome Bool} (hf : ∀ a b, Expects (f a b)) (n k : Nat) :
      Expects (do f (← read regs n) (← read regs k)) :=
    (expects_read regs n).bind fun a => (expects_read regs k).bind (hf a)
  have list {f : List Bool → Outcome Bool} (hf : ∀ l, Expects (f l)) (ns : List Nat) :
      Expects (do f (← readAll regs ns)) :=
    (expects_readAll regs ns).bind hf
  have lists {f : List Bool → List Bool → Outcome Bool} (hf : ∀ k l, Expects (f k l))
      (ns ks : List Nat) : Expects (do f (← readAll regs ns) (← readAll regs ks)) :=
    (expects_readAll regs ns).bind fun a => (expects_readAll regs ks).bind (hf a)
  cases instr with
  | constant value => exact .ok _
  | neg a => exact unary (fun _ => .ok _) a
  | or a b => exact binary (fun _ _ => .ok _) a b
  | xor a b => exact binary (fun _ _ => .ok _) a b
  | and a b => exact binary (fun _ _ => .ok _) a b
  | leq a b => exact binary (fun _ _ => .ok _) a b
  | equ a b => exact binary (fun _ _ => .ok _) a b
  | all elems => exact list (fun _ => .ok _) elems
  | any elems => exact list (fun _ => .ok _) elems
  | sum elems => exact list (fun _ => expects_foldlM (fun _ _ => .ok _) _ _) elems
  | one elems => exact list (fun _ => .ok _) elems
  | lexLess a b => exact lists expects_lexLess a b
  | lexLeq a b =>
    exact lists (fun k l => (expects_lexLess l k).bind fun _ => .ok _) a b

/-- A program over truth values fails in the expected ways only. -/
theorem expects_run (program : List Instruction) (regs : List Bool) :
    Expects (run program regs : Outcome (List Bool)) := by
  induction program generalizing regs with
  | nil => exact .ok _
  | cons instr rest ih => exact (expects_instruction instr regs).bind fun _ => ih _

/-! ## Compiled programs -/

open Compile

/-- What is related to the registers under the truth values of a model are their values there. -/
theorem mapM_value_of_gives {free : List Nat} {gates : List Clause} {i : Instance}
    {a : Assignment} (built : i.Built free gates) (h : a.Satisfies i.cnf) {regs : List Literal}
    {values : List Bool} (hr : List.Forall₂ ((stage built).Gives a.valuation) regs values) :
    regs.mapM a.value = .ok values := by
  induction hr with
  | nil => rfl
  | cons hl _ ih =>
    rw [List.mapM_cons, value_of_gives built h hl, ih]
    rfl

/-- A program runs on minted literals of a reachable formula, while there is room for variables.
Its formula is reachable again and has new clauses of gates only.

1. The program does not meet a variable that was never minted, and the literals it returns are minted.
2. In every assignment that satisfies the formula, the operands have values, the program over these
   values fails alike, and the values of the literals returned are those that it returns.
3. Truth values of the free variables extend to all variables such that variable 1 is true and the
   clauses of all gates hold, and they do so in one way. -/
theorem run_compiles {free : List Nat} {gates : List Clause} {i : Instance}
    (built : i.Built free gates) (program : List Instruction) (operands : List Literal)
    (minted : ∀ l ∈ operands, i.Minted l)
    (room : (exec (run program operands : Compile (List Literal)) i).2.numVars <
      Literal.varLimit) :
    let (outcome, j) := exec (run program operands : Compile (List Literal)) i
    ∃ new, j.Built free (gates ++ new) ∧ j.clauses.toList = i.clauses.toList ++ new ∧
      -- only minted variables
      (∀ v, outcome ≠ Outcome.breach (.unmintedVariable v)) ∧
      (∀ results, outcome = .ok results → ∀ l ∈ results, j.Minted l) ∧
      -- values
      (∀ a : Assignment, a.Satisfies j.cnf → ∃ values, operands.mapM a.value = .ok values ∧
        (∀ e, outcome = .error e ↔ (run program values : Outcome (List Bool)) = .error e) ∧
        ∀ results, outcome = .ok results →
          ∃ bits, results.mapM a.value = .ok bits ∧ run program values = .ok bits) ∧
      -- conservative gates
      ∀ ρ : Valuation, ∃ τ : Valuation, ((∀ v ∈ free, τ v = ρ v) ∧ τ 1 = true ∧
        τ.Models ([Literal.top] :: (gates ++ new))) ∧
        ∀ υ : Valuation, (∀ v ∈ free, υ v = ρ v) → υ.Models ([Literal.top] :: (gates ++ new)) →
          ∀ v, 1 ≤ v → v ≤ j.numVars → υ v = τ v := by
  have tracks {ρ : Valuation} (truth : ρ 1 = true) :=
    Simulation.straightLine_map (S := Simulation.compiled truth) (w := stage built) program
      (Literal.holds ρ) fun l hl => ⟨minted l hl, fun _ => rfl⟩
  have ran := (parametric (R := fun ρ w => List.Forall₂ (w.Gives ρ)) built tracks).resolve_left
    fun h => absurd room (Nat.not_lt.mpr h.2)
  revert ran room
  rcases exec (run program operands : Compile (List Literal)) i with ⟨outcome, j⟩
  rintro room ⟨new, h⟩
  have wf := h.built.wellFormed
  obtain ⟨τ, -, truth, hτ⟩ := h.built.extends room fun _ => true
  have agree := h.agree truth hτ
  refine ⟨new, h.built, h.clauses, fun v hv => ?_, fun results hres l hl => ?_, fun a sat => ?_,
    fun ρ => ?_⟩
  · have failed := (agree.error_iff _).mp hv
    rcases expects_run program _ _ failed with he | ⟨n, k, he⟩ <;> cases he
  · obtain ⟨bits, -, hb⟩ := agree.of_ok hres
    exact ((List.forall₂_and_left _ _).mp hb).1 l hl
  · have agree := h.agree_of_satisfies sat
    refine ⟨_, List.mapM_ok fun l hl => sat.value wf (Nat.le_trans (minted l hl) h.numVars),
      agree.error_iff, fun results hres => ?_⟩
    obtain ⟨bits, hbits, hb⟩ := agree.of_ok hres
    exact ⟨bits, mapM_value_of_gives h.built sat hb, hbits⟩
  · obtain ⟨τ, agree, truth, hτ⟩ := h.built.extends room ρ
    have models_cons {υ : Valuation} :
        υ.Models ([Literal.top] :: (gates ++ new)) ↔ υ 1 = true ∧ υ.Models (gates ++ new) := by
      rw [← Valuation.holds_top_clause]
      exact List.forall_mem_cons
    refine ⟨τ, ⟨agree, truth, models_cons.mpr ⟨truth, hτ⟩⟩, fun υ hfree hυ => ?_⟩
    obtain ⟨htop, hυ⟩ := models_cons.mp hυ
    exact h.built.determined room hτ hυ (htop.trans truth.symm) fun v hv =>
      (hfree v hv).trans (agree v hv).symm

theorem exec_or_twoFree :
    exec (run [.or 0 1] [Literal.ofVar 1, Literal.ofVar 2] : Compile (List Literal)) twoFree =
      (.ok [Literal.ofVar 1, Literal.ofVar 2, Literal.ofVar 3],
        twoFree.withGate .or (Literal.ofVar 1, Literal.ofVar 2)) :=
  exec_bind_ok exec_get_twoFree

theorem run_compiles_disjunction :
    ∃ j new, exec (run [.or 0 1] [Literal.ofVar 1, Literal.ofVar 2]) twoFree =
        (.ok [Literal.ofVar 1, Literal.ofVar 2, Literal.ofVar 3], j) ∧
      j.Built [2, 3] new ∧
      ∀ a : Assignment, a.Satisfies j.cnf → ∃ b c, a.value (Literal.ofVar 1) = .ok b ∧
        a.value (Literal.ofVar 2) = .ok c ∧ a.value (Literal.ofVar 3) = .ok (b || c) := by
  have h := run_compiles twoFree_built [.or 0 1] [Literal.ofVar 1, Literal.ofVar 2]
    (by decide) (by rw [exec_or_twoFree, Instance.numVars_withGate]; decide)
  rw [exec_or_twoFree] at h
  obtain ⟨new, built, -, -, -, values, -⟩ := h
  refine ⟨_, _, exec_or_twoFree, built, fun a sat => ?_⟩
  obtain ⟨operands, ho, -, hr⟩ := values a sat
  obtain ⟨bits, hb, hrun⟩ := hr _ rfl
  have value (n : Nat) (hn : n < 4) : a.value (Literal.ofVar n) = .ok (a.valuation (n + 1)) := by
    have small : n + 1 < Literal.varLimit := Nat.lt_trans (Nat.succ_lt_succ hn) (by decide)
    rw [sat.value built.wellFormed, Literal.holds_ofVar small]
    rw [Instance.Minted, Instance.numVars_withGate, Literal.var_ofVar (Nat.lt_of_succ_lt small)]
    exact hn
  rw [List.mapM_cons, value 1 (by decide), List.mapM_cons, value 2 (by decide)] at ho
  obtain rfl := Except.ok.inj ho
  obtain rfl := Except.ok.inj hrun
  refine ⟨_, _, value 1 (by decide), value 2 (by decide), ?_⟩
  rw [List.mapM_cons, value 1 (by decide), List.mapM_cons, value 2 (by decide), List.mapM_cons,
    value 3 (by decide)] at hb
  rw [value 3 (by decide)]
  exact congrArg Except.ok (List.cons.inj (List.cons.inj (List.cons.inj
    (Except.ok.inj hb)).2).2).1

end StraightLine

end FiniteStructures
