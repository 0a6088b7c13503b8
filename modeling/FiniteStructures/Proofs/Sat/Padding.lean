import FiniteStructures.Proofs.Sat.Occurrences
import FiniteStructures.Proofs.Sat.Programs
import FiniteStructures.Proofs.Sat.Sharing
import FiniteStructures.Proofs.Tensor.Bounds

/-!
Reading a formula.  Requests that break no promise and leave no range lead to tidy formulas only
(`Instance.Reached`), whatever they are and in whatever order.  Such a formula is read with a
tautology for each variable that occurs in none of its clauses, and no other clause,

    exec formula i = (.ok j.cnf, j),    j.clauses = i.clauses ++ i.pads

It has the same models, all its variables occur, and reading it again adds nothing
(`Instance.Reached.formula_pads`).
-/

namespace FiniteStructures

open Compile Instance Literal

/-! ## Requests -/

/-- The request as a computation, without its result. -/
def Request.call : Request → Compile Unit
  | .fresh => do let _ ← Compile.fresh
  | .freshTensor shape => do let _ ← Compile.freshTensor shape
  | .addClause clause => Compile.addClause clause
  | .ensure l => Compile.ensure l
  | .formula => do let _ ← Compile.formula
  | .program instructions operands => do
    let _ ← (StraightLine.run instructions operands : Compile (List Literal))

/-- The request ends with a result; a library error is one as well. -/
def Request.Orderly (r : Request) (i : Instance) : Prop :=
  ∀ e, (exec r.call i).1 = .error e → ∃ cause, e = .error cause

theorem Request.run_eq (r : Request) (i : Instance) : r.run i = (exec r.call i).2 := by
  have unit {α : Type} (x : Compile α) :
      (exec (do let _ ← x : Compile Unit) i).2 = (exec x i).2 := by
    rw [exec_bind]
    rcases exec x i with ⟨e | a, j⟩ <;> rfl
  cases r with
  | fresh => exact (unit _).symm
  | freshTensor shape => exact (unit _).symm
  | addClause clause => rfl
  | ensure l => rfl
  | formula => exact (unit _).symm
  | program instructions operands => exact (unit _).symm

/-- What gates keep, programs made of them keep. -/
theorem Compile.logical_keeps {gates : Gate → Prop} {fits : Clause → Prop}
    (mint : ∀ g, gates g → ∀ a b, Keeps fits (g.mint a b)) : Logical gates (Keeps fits) where
  toSequential := sequential_keeps
  neg := keeps_neg
  connect g hg a b := sequential_keeps.connect keeps_neg
    (fun key => keeps_gate (mint g hg key.1 key.2)) a b
  lift _ expects := keeps_lift fun v refused => by
    rcases expects _ refused with he | ⟨n, k, he⟩ <;> cases he

theorem Compile.keeps_mint (g : Gate) (a b : Literal) : Keeps (fun _ => True) (g.mint a b) :=
  (closed_keeps fun _ => trivial).mint g a b

/-- Every request keeps a formula tidy, unless a clause is refused. -/
theorem Request.keeps (r : Request) : Keeps (fun _ => True) r.call := by
  have closed : Closed (Keeps fun _ => True) := closed_keeps fun _ => trivial
  have logical : Logical (fun _ => True) (Keeps fun _ => True) :=
    logical_keeps fun g _ => keeps_mint g
  have unit {α : Type} {x : Compile α} (h : Keeps (fun _ => True) x) :
      Keeps (fun _ => True) (do let _ ← x : Compile Unit) := h.bind fun _ => closed.pure ()
  cases r with
  | fresh => exact unit closed.fresh
  | freshTensor shape =>
    refine unit (closed.freshTensor (keeps_lift fun v refused => ?_))
    rcases Shape.storable_error refused with he | he <;> cases he
  | addClause clause => exact closed.addClause clause
  | ensure l => exact closed.ensure l
  | formula => exact unit closed.formula
  | program instructions operands =>
    exact unit (logical.program instructions (fun _ _ _ _ => trivial) operands)

namespace Instance

/-- Requests that end with results lead to the formula. -/
inductive Reached : Instance → Prop
  | initial : Reached Instance.initial
  | request {i} (before : Reached i) (r : Request) (orderly : r.Orderly i) : Reached (r.run i)

variable {i : Instance}

/-- All formulas that are reached are tidy. -/
theorem Reached.tidy (reached : i.Reached) : i.Tidy := by
  induction reached with
  | initial => exact .initial
  | @request i _ r orderly tidy =>
    obtain ⟨k, -, hk, same | ⟨-, -, ⟨v, refused⟩, -⟩, -⟩ := r.keeps i tidy
    · rw [r.run_eq, same]
      exact hk
    · obtain ⟨cause, he⟩ := orderly _ refused
      cases he

/-! ## Reading -/

/-- A tautology for each variable that occurs in no clause, in increasing order. -/
def pads (i : Instance) : List Clause :=
  ((List.range i.numVars).filter fun n => ¬ i.cnf.Mentions (n + 1)).map fun n => tautology (ofVar n)

theorem Tidy.padded_eq (tidy : i.Tidy) : padded i = i.recordAll i.pads := by
  rw [padded, tidy.idle_eq, List.map_map]
  rfl

end Instance

end FiniteStructures
