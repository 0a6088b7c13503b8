import FiniteStructures.Proofs.Parametricity.StraightLine
import FiniteStructures.Proofs.Sat.Building

/-!
What programs over literals are built of.  Programs of domain operations come down to negations and to
the connectives of gates; what they do besides does not touch the formula.  So a property of these that
computations keep when one follows the other is one of all programs (`Compile.Logical`), and only the
kinds of gates count that the operations of a program have.
-/

namespace FiniteStructures

/-- The kinds of gates that an operation is made of. -/
def StraightLine.Instruction.gates : Instruction → List Gate
  | constant _ | neg _ => []
  | or _ _ | and _ _ | leq _ _ | all _ | any _ | one _ => [.or]
  | xor _ _ | equ _ _ | sum _ => [.xor]
  | lexLess _ _ | lexLeq _ _ => [.or, .xor]

namespace Compile

open StraightLine

/-- Negations and the connectives of the given gates have the property, and so has what a program does
besides. -/
structure Logical (gates : Gate → Prop) (Q : {α : Type} → Compile α → Prop) : Prop
    extends Sequential Q where
  neg : ∀ l : Literal, Q (liftM l.neg : Compile Literal)
  connect : ∀ g, gates g → ∀ a b : Literal, Q (g.connect a b)
  lift : ∀ {α : Type} (o : Outcome α), Expects o → Q (liftM o : Compile α)

namespace Logical

variable {gates : Gate → Prop} {Q : {α : Type} → Compile α → Prop}

/-! ## Operations -/

theorem and (h : Logical gates Q) (disjunctive : gates .or) (a b : Literal) : Q (Compile.and a b) :=
  h.bind (h.neg a) fun _ => h.bind (h.neg b) fun _ => h.bind (h.connect .or disjunctive _ _) h.neg

theorem equ (h : Logical gates Q) (exclusive : gates .xor) (a b : Literal) :
    Q (BooleanDomain.equ a b) :=
  h.bind (h.connect .xor exclusive a b) h.neg

theorem one (h : Logical gates Q) (disjunctive : gates .or) (l : List Literal) :
    Q (BooleanDomain.one l) := by
  refine h.bind (h.foldlM (fun state e => ?_) l _) fun (seen, twice) => ?_
  · refine h.bind (h.and disjunctive _ _) fun both => ?_
    refine h.bind (h.connect .or disjunctive _ _) fun twice => ?_
    exact h.bind (h.connect .or disjunctive _ _) fun seen => h.pure _
  · exact h.bind (h.neg twice) fun single => h.and disjunctive seen single

theorem lexLess (h : Logical gates Q) (disjunctive : gates .or) (exclusive : gates .xor)
    (a b : List Literal) : Q (BooleanDomain.lexLess a b) := by
  have compared : Q (do
      let state ← (a.zip b).foldlM BooleanDomain.lexStep
        ((BooleanDomain.falsity, BooleanDomain.truth) : Literal × Literal)
      return state.1 : Compile Literal) := by
    refine h.bind (h.foldlM (fun state digits => ?_) _ _) fun _ => h.pure _
    refine h.bind (h.neg _) fun _ => h.bind (h.and disjunctive _ _) fun _ => ?_
    refine h.bind (h.and disjunctive _ _) fun _ => ?_
    refine h.bind (h.connect .or disjunctive _ _) fun _ => h.bind (h.equ exclusive _ _) fun _ => ?_
    exact h.bind (h.and disjunctive _ _) fun _ => h.pure _
  exact Sequential.ite (h.bind (h.lift _ (expects_arity _ _)) fun _ => compared) compared

/-! ## Programs -/

theorem instruction (h : Logical gates Q) (instr : Instruction) (uses : ∀ g ∈ instr.gates, gates g)
    (regs : List Literal) : Q (instr.run regs : Compile Literal) := by
  have unary {f : Literal → Compile Literal} (hf : ∀ a, Q (f a)) (n : Nat) :
      Q (do f (← read regs n)) :=
    h.bind (h.lift _ (expects_read regs n)) hf
  have binary {f : Literal → Literal → Compile Literal} (hf : ∀ a b, Q (f a b)) (n k : Nat) :
      Q (do f (← read regs n) (← read regs k)) :=
    unary (fun a => unary (hf a) k) n
  have list {f : List Literal → Compile Literal} (hf : ∀ l, Q (f l)) (ns : List Nat) :
      Q (do f (← readAll regs ns)) :=
    h.bind (h.lift _ (expects_readAll regs ns)) hf
  have lists {f : List Literal → List Literal → Compile Literal} (hf : ∀ k l, Q (f k l))
      (ns ks : List Nat) : Q (do f (← readAll regs ns) (← readAll regs ks)) :=
    list (fun k => list (hf k) ks) ns
  have first {g : Gate} {gs : List Gate} (same : instr.gates = g :: gs) : gates g :=
    uses g (same ▸ List.mem_cons_self)
  have both (same : instr.gates = [.or, .xor]) : gates .or ∧ gates .xor := by
    rw [same] at uses
    exact (List.forall_mem_cons.mp uses).imp id List.forall_mem_singleton.mp
  cases instr with
  | constant value => exact h.pure _
  | neg a => exact unary h.neg a
  | or a b => exact binary (h.connect .or (first rfl)) a b
  | xor a b => exact binary (h.connect .xor (first rfl)) a b
  | and a b => exact binary (h.and (first rfl)) a b
  | leq a b => exact binary (fun a b => h.bind (h.neg a) fun na => h.connect .or (first rfl) na b) a b
  | equ a b => exact binary (h.equ (first rfl)) a b
  | all elems => exact list (fun l => h.foldlM (h.and (first rfl)) l _) elems
  | any elems => exact list (fun l => h.foldlM (h.connect .or (first rfl)) l _) elems
  | sum elems => exact list (fun l => h.foldlM (h.connect .xor (first rfl)) l _) elems
  | one elems => exact list (h.one (first rfl)) elems
  | lexLess a b =>
    obtain ⟨disjunctive, exclusive⟩ := both rfl
    exact lists (h.lexLess disjunctive exclusive) a b
  | lexLeq a b =>
    obtain ⟨disjunctive, exclusive⟩ := both rfl
    exact lists (fun k l => h.bind (h.lexLess disjunctive exclusive l k) h.neg) a b

/-- All programs whose operations have only the given gates have the property. -/
theorem program (h : Logical gates Q) (program : List Instruction)
    (uses : ∀ instr ∈ program, ∀ g ∈ instr.gates, gates g) (regs : List Literal) :
    Q (run program regs : Compile (List Literal)) := by
  induction program generalizing regs with
  | nil => exact h.pure regs
  | cons instr rest ih =>
    obtain ⟨first, rest⟩ := List.forall_mem_cons.mp uses
    exact h.bind (h.instruction instr first regs) fun e => ih rest _

end Logical

end Compile

end FiniteStructures
