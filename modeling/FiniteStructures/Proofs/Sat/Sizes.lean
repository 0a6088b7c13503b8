import FiniteStructures.Proofs.Sat.Faults
import FiniteStructures.Proofs.Sat.Padding
import FiniteStructures.Proofs.Tensor.Bounds

/-!
How large a formula gets.  Its variables and clauses are those that the caller asked for and those
of its gates: a disjunction has one variable and three clauses, an exclusive or one variable and
four,

    vars = 1 + minted + orGates + xorGates,    clauses = 1 + recorded + 3 orGates + 4 xorGates

whatever programs were run in between and whichever of their gates were there already.  No gate is
minted but for the memo that keeps it, and no memo is written over, so these are equations and not
only bounds (`Instance.Sized`).

Operations on lists mint a bounded number of variables for each of their elements, in every formula
and however they end (`Compile.Mints`).
-/

namespace FiniteStructures

open Compile Instance Literal StraightLine

/-! ## Variables of a computation -/

namespace Compile

variable {α β : Type}

/-- However it ends, the computation mints at most so many variables. -/
def Mints (n : Nat) (x : Compile α) : Prop :=
  ∀ i : Instance, (exec x i).2.numVars ≤ i.numVars + n

namespace Mints

variable {n m k : Nat} {x : Compile α} {f : α → Compile β}

theorem same (h : ∀ i, (exec x i).2.numVars = i.numVars) : Mints n x := fun i =>
  (h i).le.trans (Nat.le_add_right _ _)

theorem pure (a : α) : Mints 0 (pure a : Compile α) := same fun _ => rfl

theorem lift (o : Outcome α) : Mints 0 (liftM o) := same fun _ => rfl

theorem ite {c : Prop} [Decidable c] {x y : Compile α} (hx : Mints n x) (hy : Mints n y) :
    Mints n (if c then x else y) := by
  split
  · exact hx
  · exact hy

theorem bind (hx : Mints n x) (hf : ∀ a, Mints m (f a)) (le : n + m ≤ k) : Mints k (x >>= f) := by
  intro i
  have first := hx i
  rw [exec_bind]
  revert first
  rcases exec x i with ⟨e | a, j⟩
  · show j.numVars ≤ i.numVars + n → j.numVars ≤ i.numVars + k
    omega
  · intro first
    refine (hf a j).trans ?_
    show j.numVars + m ≤ i.numVars + k
    replace first : j.numVars ≤ i.numVars + n := first
    omega

theorem neg {l : Literal} {f : Literal → Compile β} (hf : ∀ l, Mints n (f l)) :
    Mints n (liftM l.neg >>= f) :=
  (lift l.neg).bind hf (Nat.zero_add n).le

theorem addClause (c : Clause) : Mints 0 (addClause c) := by
  refine same fun i => ?_
  rcases exec_addClause_cases c i with ⟨-, run⟩ | ⟨_, _, _, -, -, -, run⟩ <;> rw [run] <;> rfl

theorem foldlM {f : β → α → Compile β} (hf : ∀ b a, Mints n (f b a)) (l : List α) (b : β) :
    Mints (n * l.length) (l.foldlM f b) := by
  induction l generalizing b with
  | nil => exact pure b
  | cons a l ih =>
    rw [List.foldlM_cons]
    exact (hf b a).bind ih (by rw [List.length_cons, Nat.mul_succ, Nat.add_comm])

end Mints

/-! ## What calls cost -/

/-- The computation mints at most so many variables; when it gives a value, it has minted all of
them and recorded so many clauses, and the gates are as before. -/
structure Costs (vars clauses : Nat) (x : Compile α) : Prop where
  mints : Mints vars x
  adds : ∀ (i j : Instance) (a : α), exec x i = (.ok a, j) →
    j.numVars = i.numVars + vars ∧ j.clauses.size = i.clauses.size + clauses ∧
      j.orGates = i.orGates ∧ j.xorGates = i.xorGates

namespace Costs

variable {v v' c c' : Nat} {x : Compile α} {f : α → Compile β}

/-- The formula is left as it is. -/
theorem nothing (same : ∀ i, (exec x i).2 = i) : Costs 0 0 x := by
  refine ⟨.same fun i => congrArg numVars (same i), fun i j a run => ?_⟩
  have := same i
  rw [run] at this
  subst this
  exact ⟨rfl, rfl, rfl, rfl⟩

theorem pure (a : α) : Costs 0 0 (pure a : Compile α) := nothing fun _ => rfl

theorem lift (o : Outcome α) : Costs 0 0 (liftM o : Compile α) := nothing fun _ => rfl

theorem bind (hx : Costs v c x) (hf : ∀ a, Costs v' c' (f a)) :
    Costs (v + v') (c + c') (x >>= f) := by
  refine ⟨hx.mints.bind (fun a => (hf a).mints) (Nat.le_refl _), fun i k b run => ?_⟩
  rw [exec_bind] at run
  rcases first : exec x i with ⟨e | a, j⟩
  · rw [first] at run
    cases run
  · rw [first] at run
    obtain ⟨vars, clauses, or, xor⟩ := hx.adds i j a first
    obtain ⟨vars', clauses', or', xor'⟩ := (hf a).adds j k b run
    exact ⟨by omega, by omega, or'.trans or, xor'.trans xor⟩

theorem neg {l : Literal} {f : Literal → Compile β} (hf : ∀ l, Costs v c (f l)) :
    Costs v c (liftM l.neg >>= f) := by
  have := (lift l.neg).bind hf
  rwa [Nat.zero_add, Nat.zero_add] at this

theorem fresh : Costs 1 0 fresh := by
  refine ⟨fun i => ?_, fun i j l run => ?_⟩
  · rcases exec_fresh_cases i with ⟨-, run⟩ | ⟨-, run⟩
    · rw [run]
      exact Nat.le_refl _
    · rw [run]
      exact Nat.le_succ _
  · obtain ⟨-, rfl⟩ := fresh_ok run
    exact ⟨rfl, rfl, rfl, rfl⟩

theorem addClause (d : Clause) : Costs 0 1 (addClause d) := by
  refine ⟨.addClause d, ?_⟩
  rintro i j ⟨⟩ run
  obtain ⟨-, rfl⟩ := addClause_ok run
  exact ⟨rfl, Array.size_push _, rfl, rfl⟩

theorem ensure (l : Literal) : Costs 0 (if l = top then 0 else 1) (ensure l) := by
  unfold Compile.ensure
  by_cases hl : l = top
  · rw [if_pos hl, if_neg (not_not_intro hl)]
    exact pure ()
  · rw [if_neg hl, if_pos hl]
    exact addClause [l]

/-- One clause more. -/
theorem clause {d : Clause} {f : Unit → Compile β} (hf : ∀ u, Costs v c (f u)) :
    Costs v (c + 1) (Compile.addClause d >>= f) := by
  have := (addClause d).bind hf
  rwa [Nat.zero_add, Nat.add_comm] at this

theorem traverse_go {f : α → Compile β} (hf : ∀ a, Costs v c (f a)) (l : List α) (done : List β)
    {n : Nat} (hn : done.length + l.length = n) :
    Costs (l.length * v) (l.length * c) (traverse.go f l done n hn) := by
  induction l generalizing done with
  | nil =>
    rw [List.length_nil, Nat.zero_mul, Nat.zero_mul]
    exact pure _
  | cons a l ih =>
    rw [List.length_cons, Nat.succ_mul, Nat.succ_mul, Nat.add_comm, Nat.add_comm _ c]
    exact (hf a).bind fun b => ih (b :: done) _

/-- One variable for each cell. -/
theorem freshTensor (shape : List Nat) : Costs (Shape.volume shape) 0 (freshTensor shape) := by
  have whole : Costs (0 + ((Shape.indices shape).length * 1 + 0))
      (0 + ((Shape.indices shape).length * 0 + 0)) (Compile.freshTensor shape) :=
    (lift _).bind fun _ => (traverse_go (fun _ => fresh) _ [] _).bind fun _ => pure _
  rw [Shape.length_indices] at whole
  simpa only [Nat.mul_one, Nat.mul_zero, Nat.zero_add, Nat.add_zero] using whole

end Costs

end Compile

/-- The number of clauses of a gate. -/
def Gate.weight : Gate → Nat
  | or => 3
  | xor => 4

/-- A gate has one variable and the clauses that tie it to its operands. -/
theorem Gate.costs_mint (g : Gate) (a b : Literal) : Costs 1 g.weight (g.mint a b) := by
  have minting {c : Nat} {f : Literal → Compile Literal} (hf : ∀ l, Costs 0 c (f l)) :
      Costs 1 c (fresh >>= f) := by
    have := Costs.fresh.bind hf
    rwa [Nat.zero_add] at this
  cases g with
  | or =>
    refine minting fun c => ?_
    exact .neg fun _ => .clause fun _ => .neg fun _ => .clause fun _ => .neg fun _ =>
      .clause fun _ => .pure c
  | xor =>
    refine minting fun c => .neg fun _ => .neg fun _ => .neg fun _ => .clause fun _ => ?_
    exact .neg fun _ => .clause fun _ => .neg fun _ => .clause fun _ => .neg fun _ =>
      .clause fun _ => .pure c

/-! ## What gates add up to -/

/-- The formula has the given numbers of variables and clauses besides those of its gates. -/
structure Instance.Sized (vars clauses : Nat) (i : Instance) : Prop where
  numVars : i.numVars = vars + i.orGates.size + i.xorGates.size
  clauses : i.clauses.size = clauses + 3 * i.orGates.size + 4 * i.xorGates.size

/-- There are no gates at first. -/
theorem Instance.Sized.initial : initial.Sized 1 1 := ⟨rfl, rfl⟩

/-- A gate that was just minted is noted where there was none, so its kind has one more. -/
theorem Instance.Sized.keep {v c : Nat} {g : Gate} {i : Instance}
    (sized : i.Sized (v + 1) (c + g.weight)) {key : Literal × Literal} (new : g.find? i key = none)
    (l : Literal) : (g.keep key l i).Sized v c := by
  have more {memo : Std.HashMap (Literal × Literal) Literal} (absent : memo[key]? = none) :
      (memo.insert key l).size = memo.size + 1 := by
    rw [Std.HashMap.size_insert, if_neg]
    rw [Std.HashMap.mem_iff_isSome_getElem?, absent]
    exact nofun
  obtain ⟨vars, clauses⟩ := sized
  cases g <;> refine ⟨?_, ?_⟩ <;> simp only [Gate.keep, Gate.weight, more new] at * <;> omega

namespace Compile

variable {α β : Type}

/-- What a computation adds besides gates goes to the account of its caller. -/
theorem Costs.sized {v v' c c' : Nat} {x : Compile α} {i j : Instance} {a : α}
    (costs : Costs v' c' x) (sized : i.Sized v c) (run : exec x i = (.ok a, j)) :
    j.Sized (v + v') (c + c') := by
  obtain ⟨vars, clauses, or, xor⟩ := costs.adds i j a run
  refine ⟨?_, ?_⟩
  · rw [vars, or, xor, sized.numVars]
    omega
  · rw [clauses, or, xor, sized.clauses]
    omega

/-- The fault is none of the library's errors. -/
def Fatal (e : Fault) : Prop := ¬ ∃ cause, e = .error cause

/-- All calls but programs end with a value or with such a fault. -/
theorem closed_fatal : Closed (Fails (m := Compile) Fatal) :=
  closed_fails fun _ broken => by rcases broken with rfl | ⟨_, rfl⟩ <;> rintro ⟨_, ⟨⟩⟩

theorem fatal_freshTensor (shape : List Nat) : Fails Fatal (freshTensor shape) := by
  refine closed_fatal.freshTensor (.lift fun e failed => ?_)
  rcases Shape.storable_error failed with rfl | rfl <;> rintro ⟨_, ⟨⟩⟩

/-- A call that no library error can end is in the account if it is not ended by a fault. -/
theorem Costs.answered {v v' c c' : Nat} {x : Compile α} {i : Instance} (costs : Costs v' c' x)
    (fatal : Fails Fatal x) (sized : i.Sized v c)
    (orderly : ∀ e, (exec x i).1 = .error e → ∃ cause, e = .error cause) :
    (exec x i).2.Sized (v + v') (c + c') := by
  rcases run : exec x i with ⟨e | a, j⟩
  · exact absurd (orderly e (congrArg Prod.fst run)) (fatal i e (congrArg Prod.fst run))
  · exact costs.sized sized run

/-- Where the computation ends with a value or with a library error, all that it added are gates. -/
def Accounted (x : Compile α) : Prop :=
  ∀ (i : Instance) (v c : Nat), i.Sized v c →
    (∀ e, (exec x i).1 = .error e → ∃ cause, e = .error cause) → (exec x i).2.Sized v c

theorem accounted_lift (o : Outcome α) : Accounted (liftM o) := fun _ _ _ sized _ => sized

theorem sequential_accounted : Sequential Accounted where
  pure _ := fun _ _ _ sized _ => sized
  bind {_ _ x f} hx hf := by
    intro i v c sized
    have first := hx i v c sized
    rw [exec_bind]
    revert first
    rcases exec x i with ⟨e | a, j⟩
    · intro first orderly
      refine first fun _ => ?_
      rintro ⟨⟩
      exact orderly e rfl
    · exact fun first => hf a j v c (first fun _ => nofun)

/-- A gate is there, or its variable and its clauses come with its memo. -/
theorem accounted_gate (g : Gate) (key : Literal × Literal) : Accounted (g.get key) := by
  intro i v c sized orderly
  rcases Gate.exec_get_cases g key i with ⟨l, -, run⟩ | ⟨known, ⟨e, j, mint, run⟩ | ⟨l, j, mint, run⟩⟩
  · rw [run]
    exact sized
  · -- minting is never ended by a library error
    have fatal := closed_fatal.mint g key.1 key.2 i e (congrArg Prod.fst mint)
    rw [run] at orderly
    exact absurd (orderly e rfl) fatal
  · have costs := g.costs_mint key.1 key.2
    have new : g.find? j key = none := by
      obtain ⟨-, -, or, xor⟩ := costs.adds i j l mint
      cases g
      · exact (congrArg (·[key]?) or).trans known
      · exact (congrArg (·[key]?) xor).trans known
    rw [run]
    exact (costs.sized sized mint).keep new l

/-- Programs over literals add nothing but gates. -/
theorem logical_accounted : Logical (fun _ => True) Accounted where
  toSequential := sequential_accounted
  neg _ := accounted_lift _
  connect _ _ := sequential_accounted.connect (fun _ => accounted_lift _) (accounted_gate _)
  lift _ _ := accounted_lift _

end Compile

/-! ## Requests -/

/-- The variables that the request asks for. -/
def Request.minted : Request → Nat
  | .fresh => 1
  | .freshTensor shape => Shape.volume shape
  | .addClause _ | .ensure _ | .formula | .program _ _ => 0

/-- The variables that all the requests ask for. -/
def Request.mintedBy : List Request → Nat
  | [] => 0
  | r :: rest => r.minted + mintedBy rest

/-- The clauses that the request records besides those of gates. -/
def Request.recorded (i : Instance) : Request → Nat
  | .addClause _ => 1
  | .ensure l => if l = top then 0 else 1
  | .formula => i.pads.length
  | .fresh | .freshTensor _ | .program _ _ => 0

theorem Instance.Sized.recordAll {i : Instance} {v c : Nat} (sized : i.Sized v c)
    (cs : List Clause) : (i.recordAll cs).Sized v (c + cs.length) := by
  have size : (i.recordAll cs).clauses.size = i.clauses.size + cs.length := by
    rw [← Array.length_toList, clauses_recordAll, List.length_append, Array.length_toList]
  obtain ⟨vars, clauses⟩ := sized
  refine ⟨?_, ?_⟩
  · rw [numVars_recordAll, orGates_recordAll, xorGates_recordAll, vars]
  · rw [size, orGates_recordAll, xorGates_recordAll, clauses]
    omega

/-- A request adds what it asks for, and gates. -/
theorem Request.sized {i : Instance} {v c : Nat} (tidy : i.Tidy) (sized : i.Sized v c) {r : Request}
    (orderly : r.Orderly i) : (r.run i).Sized (v + r.minted) (c + r.recorded i) := by
  rw [r.run_eq]
  cases r with
  | fresh =>
    have fatal := closed_fatal.bind closed_fatal.fresh fun _ => closed_fatal.pure ()
    exact (Costs.fresh.bind fun _ => .pure ()).answered fatal sized orderly
  | freshTensor shape =>
    have fatal := closed_fatal.bind (fatal_freshTensor shape) fun _ => closed_fatal.pure ()
    exact ((Costs.freshTensor shape).bind fun _ => .pure ()).answered fatal sized orderly
  | addClause clause =>
    exact (Costs.addClause clause).answered (closed_fatal.addClause clause) sized orderly
  | ensure l => exact (Costs.ensure l).answered (closed_fatal.ensure l) sized orderly
  | formula =>
    -- if 32 bits are not enough for a tautology, the request is not orderly
    have fatal := closed_fatal.bind closed_fatal.formula fun _ => closed_fatal.pure ()
    rcases run : exec Compile.formula i with ⟨e | cnf, j⟩
    · have failed : exec Request.formula.call i = (.error e, j) := exec_bind_error run
      exact absurd (orderly e (congrArg Prod.fst failed)) (fatal i e (congrArg Prod.fst failed))
    · obtain ⟨-, rfl⟩ := formula_ok run
      rw [call, exec_bind_ok run, tidy.padded_eq]
      exact sized.recordAll i.pads
  | program instructions operands =>
    have added := logical_accounted.program instructions (fun _ _ _ _ => trivial) operands
    have whole := sequential_accounted.bind added fun _ => sequential_accounted.pure ()
    exact whole i v c sized orderly

theorem Request.orderly_of_ok {r : Request} {i j : Instance} (run : exec r.call i = (.ok (), j)) :
    r.Orderly i := by
  intro e failed
  rw [run] at failed
  cases failed

namespace Instance

/-- Each of the requests, one after the other, ends with a result. -/
def Serves (i : Instance) : List Request → Prop
  | [] => True
  | r :: rest => r.Orderly i ∧ (r.run i).Serves rest

/-- The clauses that the requests, one after the other, record besides those of gates. -/
def recordedBy (i : Instance) : List Request → Nat
  | [] => 0
  | r :: rest => r.recorded i + (r.run i).recordedBy rest

theorem Sized.after {requests : List Request} {i : Instance} {v c : Nat} (reached : i.Reached)
    (sized : i.Sized v c) (served : i.Serves requests) :
    (i.after requests).Sized (v + Request.mintedBy requests) (c + i.recordedBy requests) := by
  induction requests generalizing i v c with
  | nil => exact sized
  | cons r rest ih =>
    obtain ⟨orderly, served⟩ := served
    have rest := ih (reached.request r orderly) (r.sized reached.tidy sized orderly) served
    rwa [Nat.add_assoc, Nat.add_assoc] at rest

end Instance

/-! ## Variables of list operations -/

namespace Compile

open Mints

theorem mints_gate (g : Gate) (key : Literal × Literal) : Mints 1 (g.get key) := by
  intro i
  cases known : g.find? i key with
  | some c =>
    rw [Gate.exec_get_known known]
    exact Nat.le_succ _
  | none =>
    rw [Gate.exec_get_new known]
    have kept (c : Literal) : Mints 0 (do
        update (fun j => g.keep key c j)
        return c : Compile Literal) := same fun j => Gate.numVars_keep key c j g
    exact (g.costs_mint key.1 key.2).mints.bind kept (Nat.le_refl 1) i

theorem mints_connect (g : Gate) (a b : Literal) : Mints 1 (g.connect a b) := by
  intro i
  rcases g.connect_cases a b with resolved | ⟨-, stopped⟩
  · rw [resolved i]
    cases folded : g.folded? a b with
    | some c =>
      rw [Gate.resolve_folded folded]
      exact Nat.le_succ _
    | none =>
      rw [Gate.resolve_gate folded]
      exact (mints_gate g _).bind (fun c => lift (g.signed a b c)) (Nat.le_refl 1) i
  · rw [stopped i]
    exact Nat.le_succ _

theorem mints_and (a b : Literal) : Mints 1 (and a b) :=
  .neg fun na => .neg fun nb => (mints_connect .or na nb).bind (fun c => lift c.neg) (Nat.le_refl 1)

theorem mints_equ (a b : Literal) : Mints 1 (BooleanDomain.equ a b) :=
  (mints_connect .xor a b).bind (fun c => lift c.neg) (Nat.le_refl 1)

/-- A disjunction with the constant folds. -/
theorem mints_or_bottom (b : Literal) : Mints 0 (or bottom b) := by
  refine .ite (pure top) (.neg fun nb => .ite (pure top) ?_)
  rw [if_pos (.inl rfl)]
  exact pure b

/-- A conjunction with the constant folds. -/
theorem mints_and_bottom (b : Literal) : Mints 0 (and bottom b) := by
  have folded (nb : Literal) : or top nb = Pure.pure top := if_pos (.inl rfl)
  refine .neg (l := b) fun nb => ?_
  show Mints 0 (or top nb >>= neg)
  rw [folded]
  exact lift top.neg

/-- One gate for each connective of a step. -/
theorem mints_oneStep (state : Literal × Literal) (e : Literal) :
    Mints 3 (Derived.oneStep or and state e) := by
  refine (mints_and state.1 e).bind (m := 2) (fun both => ?_) (by omega)
  refine (mints_connect .or state.2 both).bind (m := 1) (fun twice => ?_) (by omega)
  exact (mints_connect .or state.1 e).bind (fun seen => pure (seen, twice)) (by omega)

/-- Before the first element there is nothing to compare it with. -/
theorem mints_oneStep_first (e : Literal) :
    Mints 0 (Derived.oneStep or and (bottom, bottom) e) := by
  refine (mints_and_bottom e).bind (m := 0) (fun both => ?_) (by omega)
  refine (mints_or_bottom both).bind (m := 0) (fun twice => ?_) (by omega)
  exact (mints_or_bottom e).bind (fun seen => pure (seen, twice)) (by omega)

/-- The last conjunction is paid by the first element, which needs no gate. -/
theorem mints_one (xs : List Literal) : Mints (3 * xs.length) (BooleanDomain.one xs) := by
  cases xs with
  | nil => exact .neg (l := bottom) fun single => mints_and_bottom single
  | cons x xs =>
    have last (state : Literal × Literal) :
        Mints 1 (liftM state.2.neg >>= and state.1) := .neg fun single => mints_and state.1 single
    have scan : Mints (3 * xs.length)
        ((x :: xs).foldlM (Derived.oneStep or and) (bottom, bottom)) := by
      rw [List.foldlM_cons]
      exact (mints_oneStep_first x).bind (Mints.foldlM mints_oneStep xs) (Nat.zero_add _).le
    exact scan.bind last (by rw [List.length_cons]; omega)

/-- One gate for each connective of a step. -/
theorem mints_lexStep (state digits : Literal × Literal) :
    Mints 5 (BooleanDomain.lexStep state digits) := by
  refine .neg fun nx => (mints_and nx digits.2).bind (m := 4) (fun digitLess => ?_) (by omega)
  refine (mints_and state.2 digitLess).bind (m := 3) (fun here => ?_) (by omega)
  refine (mints_connect .or state.1 here).bind (m := 2) (fun less => ?_) (by omega)
  refine (mints_equ digits.1 digits.2).bind (m := 1) (fun same => ?_) (by omega)
  exact (mints_and state.2 same).bind (fun equal => pure (less, equal)) (by omega)

theorem mints_lexLess (a b : List Literal) : Mints (5 * a.length) (BooleanDomain.lexLess a b) := by
  have compared : Mints (5 * a.length) (do
      let state ← (a.zip b).foldlM BooleanDomain.lexStep
        ((BooleanDomain.falsity, BooleanDomain.truth) : Literal × Literal)
      return state.1 : Compile Literal) := by
    refine (Mints.foldlM mints_lexStep (a.zip b) _).bind (fun state => pure state.1) ?_
    rw [List.length_zip]
    omega
  exact .ite ((lift _).bind (fun _ => compared) (Nat.zero_add _).le) compared

end Compile

namespace Instance

/-- After any requests that end with results, the formula has the variables and clauses that were
asked for and those of its gates, one variable for each gate and three or four clauses.  From there
on, each element of a list brings at most as many variables as the operation has gates for it. -/
theorem sizes_accounted {requests : List Request} (served : initial.Serves requests) :
    let j := initial.after requests
    j.stats.vars = 1 + Request.mintedBy requests + j.stats.orGates + j.stats.xorGates ∧
      j.stats.clauses =
        1 + initial.recordedBy requests + 3 * j.stats.orGates + 4 * j.stats.xorGates ∧
      (∀ xs : List Literal,
        (exec (BooleanDomain.all xs) j).2.numVars ≤ j.numVars + xs.length ∧
        (exec (BooleanDomain.any xs) j).2.numVars ≤ j.numVars + xs.length ∧
        (exec (BooleanDomain.parity xs) j).2.numVars ≤ j.numVars + xs.length ∧
        (exec (BooleanDomain.one xs) j).2.numVars ≤ j.numVars + 3 * xs.length) ∧
      ∀ (n : Nat) (a b : List Literal), a.length = n → b.length = n →
        (exec (BooleanDomain.lexLess a b) j).2.numVars ≤ j.numVars + 5 * n := by
  intro j
  obtain ⟨vars, clauses⟩ := Sized.initial.after .initial served
  refine ⟨vars, clauses, fun xs => ⟨?_, ?_, ?_, mints_one xs j⟩, ?_⟩
  · have := Mints.foldlM mints_and xs top j
    rwa [Nat.one_mul] at this
  · have := Mints.foldlM (mints_connect .or) xs bottom j
    rwa [Nat.one_mul] at this
  · have := Mints.foldlM (mints_connect .xor) xs bottom j
    rwa [Nat.one_mul] at this
  · rintro n a b rfl -
    exact mints_lexLess a b j

/-- The disjunction of two variables is required, and a third variable is padded. -/
theorem sizes_accounted_disjunction :
    let requests : List Request := [.fresh, .fresh, .program [.or 0 1] [ofVar 1, ofVar 2],
      .ensure (ofVar 3), .fresh, .formula]
    let j := initial.after requests
    initial.Serves requests ∧ j.stats.vars = 4 + j.stats.orGates + j.stats.xorGates ∧
      j.stats.clauses = 3 + 3 * j.stats.orGates + 4 * j.stats.xorGates := by
  intro requests j
  have run := exec_or_twoFree
  have ran : (Request.program [.or 0 1] [ofVar 1, ofVar 2]).run twoFree =
      twoFree.withGate .or (ofVar 1, ofVar 2) := congrArg Prod.snd run
  have served : initial.Serves requests := by
    refine ⟨Request.orderly_of_ok rfl, Request.orderly_of_ok rfl,
      Request.orderly_of_ok (exec_bind_ok run), ?_⟩
    show ((Request.program [.or 0 1] [ofVar 1, ofVar 2]).run twoFree).Serves _
    rw [ran]
    exact ⟨Request.orderly_of_ok rfl, Request.orderly_of_ok rfl, Request.orderly_of_ok rfl, trivial⟩
  have recorded : initial.recordedBy requests = 2 := by
    show 0 + (0 + (0 + ((Request.program [.or 0 1] [ofVar 1, ofVar 2]).run twoFree).recordedBy
      [.ensure (ofVar 3), .fresh, .formula])) = 2
    rw [ran]
    decide
  obtain ⟨vars, clauses, -⟩ := sizes_accounted served
  rw [recorded] at clauses
  exact ⟨served, vars, clauses⟩

end Instance

end FiniteStructures
