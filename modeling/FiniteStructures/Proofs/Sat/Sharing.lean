import FiniteStructures.Proofs.Parametricity.Shapes
import FiniteStructures.Proofs.Parametricity.StraightLine
import FiniteStructures.Proofs.Sat.Connectives
import FiniteStructures.Proofs.Sat.Faults
import FiniteStructures.Proofs.Sat.Growth
import FiniteStructures.Proofs.Sat.Inventory

/-!
Gates are shared for ever.  A computation over literals that has run once finds all its gates when it
runs again, in whatever formula the first one has grown to,

    j.Lasting x o      x gives o after any further requests to j, and changes nothing

Programs of domain operations last with the outcome of their first run, and a connective lasts with
the literal of any call that is a symmetry of it (`Instance.Built.shares_gates`).  The formula has one
gate at most for two operands (`Instance.Tied`).
-/

namespace FiniteStructures

variable {α β : Type}

/-! ## Requests -/

/-- What a formula under construction can be asked. -/
inductive Request where
  | fresh
  | freshTensor (shape : List Nat)
  | addClause (clause : Clause)
  | ensure (l : Literal)
  | formula
  | program (instructions : List StraightLine.Instruction) (operands : List Literal)

/-- The formula after a request, however it ends. -/
def Request.run (i : Instance) : Request → Instance
  | .fresh => (Compile.fresh.exec i).2
  | .freshTensor shape => ((Compile.freshTensor shape).exec i).2
  | .addClause clause => ((Compile.addClause clause).exec i).2
  | .ensure l => ((Compile.ensure l).exec i).2
  | .formula => (Compile.formula.exec i).2
  | .program instructions operands => (Compile.exec (StraightLine.run instructions operands) i).2

namespace Instance

/-- The formula after some requests. -/
def after (i : Instance) (requests : List Request) : Instance := requests.foldl Request.run i

/-- After any further requests, the computation gives `o` and leaves the formula as it is. -/
def Lasting (j : Instance) (x : Compile α) (o : Outcome α) : Prop :=
  ∀ requests : List Request, x.exec (j.after requests) = (o, j.after requests)

end Instance

/-! ## Computations that run again -/

namespace Compile

open Instance

/-- In every formula that `j` grows to, the computation gives `o` and leaves the formula as it is. -/
def Settled (j : Instance) (x : Compile α) (o : Outcome α) : Prop :=
  ∀ k, j.Grows k → exec x k = (o, k)

theorem Settled.congr {j : Instance} {x y : Compile α} {o : Outcome α} (h : Settled j x o)
    (same : ∀ i, exec y i = exec x i) : Settled j y o :=
  fun k hk => (same k).trans (h k hk)

theorem Settled.bind {j : Instance} {x : Compile α} {f : α → Compile β} {a : α} {o : Outcome β}
    (hx : Settled j x (.ok a)) (hf : Settled j (f a) o) : Settled j (x >>= f) o :=
  fun k hk => (exec_bind_ok (hx k hk)).trans (hf k hk)

/-- The computation only adds to the formula; unless a literal is out of range, it ends as `y` does,
and as it would end again. -/
def Shared (R : α → β → Prop) (x : Compile α) (y : Outcome β) : Prop :=
  ∀ i, i.Grows (exec x i).2 ∧ ((∃ e, Broken e ∧ (exec x i).1 = .error e) ∨
    (Agree R (exec x i).1 y ∧ Settled (exec x i).2 x (exec x i).1))

theorem Shared.bind {γ δ : Type} {R : α → β → Prop} {S : γ → δ → Prop} {x : Compile α}
    {y : Outcome β} {f : α → Compile γ} {g : β → Outcome δ} (hx : Shared R x y)
    (hf : ∀ {a b}, R a b → Shared S (f a) (g b)) : Shared S (x >>= f) (y >>= g) := by
  intro i
  rw [exec_bind]
  have first := hx i
  revert first
  rcases run : exec x i with ⟨e | a, j⟩
  · rintro ⟨grows, ⟨e', broken, he⟩ | ⟨agree, again⟩⟩
    · cases he
      exact ⟨grows, .inl ⟨e, broken, rfl⟩⟩
    · cases agree
      exact ⟨grows, .inr ⟨.error e, fun k hk => exec_bind_error (again k hk)⟩⟩
  · rintro ⟨grows, ⟨e', broken, he⟩ | ⟨agree, again⟩⟩
    · cases he
    · cases agree with
      | ok hab =>
        obtain ⟨grows', rest⟩ := hf hab j
        refine ⟨grows.trans grows', rest.imp id fun ⟨agree', again'⟩ => ⟨agree', ?_⟩⟩
        exact Settled.bind (fun k hk => again k (grows'.trans hk)) again'

theorem Shared.mono {R S : α → β → Prop} {x : Compile α} {y : Outcome β} (h : Shared R x y)
    (sub : ∀ o, Agree R o y → Agree S o y) : Shared S x y :=
  fun i => ⟨(h i).1, (h i).2.imp id fun ⟨agree, again⟩ => ⟨sub _ agree, again⟩⟩

theorem Shared.congr {R : α → β → Prop} {x x' : Compile α} {y : Outcome β} (h : Shared R x y)
    (same : ∀ i, exec x' i = exec x i) : Shared R x' y := by
  intro i
  rw [same]
  exact ⟨(h i).1, (h i).2.imp id fun ⟨agree, again⟩ => ⟨agree, again.congr same⟩⟩

theorem shared_lift {R : α → β → Prop} {o : Outcome α} {p : Outcome β} (h : Agree R o p) :
    Shared R (liftM o) p :=
  fun i => ⟨.refl i, .inr ⟨h, fun _ _ => rfl⟩⟩

/-- Runs that are shared; there is one world. -/
def sharing : Tracking Compile where
  World := Unit
  le _ _ := True
  le_refl _ := trivial
  le_trans _ _ := trivial
  Failed _ := False
  failed_le _ := id
  Tracks w R x y := Shared (R w) x y
  pure h := shared_lift (.ok h)
  lift h := shared_lift h
  bind hx hf := hx.bind fun h => hf trivial h
  weaken hx sub := hx.mono fun _ h => h.mono fun _ _ => sub trivial
  known hx := hx.mono fun _ h => h.known
  failed := False.elim

/-! ## Operations -/

/-- A result that fails by a literal out of range only. -/
theorem shared_unless_broken {o : Outcome α} (h : ∀ e, o = .error e → Broken e) :
    Shared (fun _ (_ : Unit) => True) (liftM o) (.ok ()) := by
  intro i
  refine ⟨.refl i, ?_⟩
  cases ends : o with
  | error e => exact .inl ⟨e, h e ends, rfl⟩
  | ok a => exact .inr ⟨.ok trivial, fun _ _ => rfl⟩

/-- A gate that was found or minted is found in all later formulas. -/
theorem shared_gate (g : Gate) (key : Literal × Literal) :
    Shared (fun _ (_ : Unit) => True) (g.get key) (.ok ()) := by
  intro i
  refine ⟨adds_gate g key i, ?_⟩
  rcases Gate.exec_get_cases g key i with ⟨c, known, run⟩ | ⟨-, ⟨e, j, mint, run⟩ | ⟨c, j, -, run⟩⟩
  · rw [run]
    exact .inr ⟨.ok trivial, fun k hk => Gate.exec_get_known (hk.find? g key c known)⟩
  · have broken := (closed_fails fun _ => id).mint g key.1 key.2 i e (congrArg Prod.fst mint)
    rw [run]
    exact .inl ⟨e, broken, rfl⟩
  · rw [run]
    refine .inr ⟨.ok trivial, fun k hk => Gate.exec_get_known (hk.find? g key c ?_)⟩
    rw [Gate.find?_keep, if_pos ⟨rfl, rfl⟩]

theorem shared_connect (g : Gate) (a b : Literal) :
    Shared (fun _ (_ : Unit) => True) (g.connect a b) (.ok ()) := by
  rcases Gate.connect_cases g a b with same | ⟨-, stop⟩
  · refine Shared.congr ?_ same
    cases folded : g.folded? a b with
    | some c =>
      rw [Gate.resolve_folded folded]
      exact shared_lift (.ok trivial)
    | none =>
      rw [Gate.resolve_gate folded]
      exact (shared_gate g (g.key a b)).bind fun _ =>
        shared_unless_broken fun _ failed => broken_of_neg (Gate.signed_error failed)
  · intro i
    rw [stop]
    exact ⟨.refl i, .inl ⟨.overflow, .inl rfl, rfl⟩⟩

theorem shared_neg (a : Literal) : Shared (fun _ (_ : Unit) => True) (neg a) (.ok ()) :=
  shared_unless_broken fun _ => broken_of_neg

end Compile

open Compile in
/-- Literals are shared whatever they are; only shapes and faults are computed beside them. -/
def Simulation.sharing : Simulation Literal Compile Unit :=
  .ofPrimitive Derived.lawful_literals Derived.lawful_unit Compile.sharing (fun _ _ _ => True)
    (fun _ _ _ _ _ _ => trivial) (fun _ _ _ => rfl) (fun _ => trivial) (fun _ => trivial)
    (fun _ => shared_neg _) (fun _ _ => shared_connect .or _ _) (fun _ _ => shared_connect .xor _ _)

/-! ## Later runs -/

namespace Literal

/-- The literal, or its opposite. -/
def turn (l : Literal) (sign : Bool) : Literal := if sign then l.opposite else l

theorem var_turn (l : Literal) (sign : Bool) : (l.turn sign).var = l.var := by
  cases sign
  · rfl
  · exact var_opposite l

theorem turn_turn (l : Literal) (s t : Bool) : (l.turn s).turn t = l.turn (s ^^ t) := by
  cases s <;> cases t
  · rfl
  · rfl
  · rfl
  · exact opposite_opposite l

end Literal

open Compile Literal

namespace StraightLine

theorem shared_run (program : List Instruction) (operands : List Literal) :
    Shared (List.Forall₂ fun _ (_ : Unit) => True) (run program operands)
      (run program (operands.map fun _ => ())) :=
  Simulation.straightLine_map (S := Simulation.sharing) (w := ()) program (fun _ => ())
    fun _ _ => trivial

/-- Over minted literals, a program fails only as it does over truth values, while there is room for
variables. -/
theorem not_broken_run {free : List Nat} {gates : List Clause} {i : Instance}
    (built : i.Built free gates) (program : List Instruction) {operands : List Literal}
    (minted : ∀ l ∈ operands, i.Minted l)
    (room : ¬ Exhausted (exec (run program operands : Compile (List Literal)) i)) {e : Fault}
    (failed : (exec (run program operands : Compile (List Literal)) i).1 = .error e) :
    ¬ Broken e := by
  have tracks := Simulation.straightLine_map (S := Simulation.minted) (w := stage built) program
    (fun _ => ()) minted
  obtain ⟨w, agree⟩ := (minted_agree built tracks).resolve_left room
  have shapes := Simulation.straightLine_map (S := Simulation.shapes) (w := ()) program
    (l := operands.map fun _ => true) (fun _ => ()) fun _ _ => trivial
  rw [List.map_map] at shapes
  have expected := expects_run program _ e ((shapes.error_iff e).mpr ((agree.error_iff e).mp failed))
  rintro (rfl | ⟨v, rfl⟩)
  · rcases expected with he | ⟨n, k, he⟩ <;> cases he
  · rcases expected with he | ⟨n, k, he⟩ <;> cases he

end StraightLine

theorem Request.grows_run (i : Instance) (request : Request) : i.Grows (request.run i) := by
  cases request with
  | fresh => exact closed_adds.fresh i
  | freshTensor shape => exact adds_freshTensor shape i
  | addClause clause => exact closed_adds.addClause clause i
  | ensure l => exact closed_adds.ensure l i
  | formula => exact closed_adds.formula i
  | program instructions operands => exact (StraightLine.shared_run instructions operands i).1

namespace Instance

theorem grows_after (i : Instance) (requests : List Request) : i.Grows (i.after requests) := by
  induction requests generalizing i with
  | nil => exact .refl i
  | cons request requests ih => exact (request.grows_run i).trans (ih _)

/-- While there is room for variables, a connective of minted literals has a minted literal. -/
theorem WellFormed.connected {free : List Nat} {gates : List Clause} {i j : Instance} {g : Gate}
    {a b : Literal} {o : Outcome Literal} (wf : WellFormed free gates i) (h : Connects g a b i o j)
    (ha : i.Minted a) (hb : i.Minted b) (room : j.numVars < varLimit) :
    ∃ c, o = .ok c ∧ j.Minted c := by
  cases h with
  | folded c var =>
    refine ⟨c, rfl, ?_⟩
    unfold Minted
    rcases var with var | var | var <;> rw [var]
    · exact wf.truth
    · exact ha
    · exact hb
  | known c _ _ found =>
    obtain ⟨-, -, hc, -⟩ := wf.memo g _ c found
    exact ⟨_, rfl, by rw [Minted, Gate.var_sign]; exact hc⟩
  | minted =>
    rw [numVars_withGate] at room
    exact ⟨_, rfl, by rw [Minted, Gate.var_sign, var_ofVar (Nat.lt_of_succ_lt room), numVars_withGate]⟩
  | overflow _ _ limit => exact absurd room (Nat.not_lt.mpr limit)

end Instance

namespace Compile

theorem Settled.lasting {j : Instance} {x : Compile α} {o : Outcome α} (h : Settled j x o) :
    j.Lasting x o :=
  fun requests => h _ (j.grows_after requests)

variable {j : Instance} {a b c : Literal}

/-- The order of the operands does not matter to a connective. -/
theorem Settled.swap {g : Gate} (h : Settled j (g.connect a b) (.ok c)) (ha : a.var < varLimit)
    (hb : b.var < varLimit) : Settled j (g.connect b a) (.ok c) :=
  h.congr fun i => by
    rw [Gate.exec_connect ha hb, Gate.exec_connect hb ha, Gate.resolve_comm]

theorem Settled.opposite (h : Settled j (xor a b) (.ok c)) (ha : a.var < varLimit)
    (hb : b.var < varLimit) (hc : c.var < varLimit) :
    Settled j (xor a.opposite b) (.ok c.opposite) := by
  intro k hk
  have run := h k hk
  rw [show xor a b = Gate.xor.connect a b from rfl, Gate.exec_connect ha hb] at run
  rw [show xor a.opposite b = Gate.xor.connect a.opposite b from rfl,
    Gate.exec_connect (by rwa [var_opposite]) hb]
  exact Gate.resolve_opposite (value_ne_least ha) (value_ne_least hb) hc run

/-- The signs of both operands are one of the result. -/
theorem Settled.turns (h : Settled j (xor a b) (.ok c)) (ha : a.var < varLimit)
    (hb : b.var < varLimit) (hc : c.var < varLimit) (s t : Bool) :
    Settled j (xor (a.turn s) (b.turn t)) (.ok (c.turn (s ^^ t))) := by
  have first {a b c : Literal} (h : Settled j (xor a b) (.ok c)) (ha : a.var < varLimit)
      (hb : b.var < varLimit) (hc : c.var < varLimit) (s : Bool) :
      Settled j (xor (a.turn s) b) (.ok (c.turn s)) := by
    cases s
    · exact h
    · exact h.opposite ha hb hc
  have hs : (a.turn s).var < varLimit := by rwa [var_turn]
  have ht : (b.turn t).var < varLimit := by rwa [var_turn]
  have one := first h ha hb hc s
  have both := first (Settled.swap (g := .xor) one hs hb) hb hs (by rwa [var_turn]) t
  rw [← turn_turn]
  exact Settled.swap (g := .xor) both ht hs

theorem exec_bind_neg (x : Compile Literal) (i : Instance) :
    exec (x >>= neg) i = ((exec x i).1 >>= Literal.neg, (exec x i).2) := by
  rw [exec_bind]
  rcases exec x i with ⟨e | a, j⟩ <;> rfl

/-- A conjunction is a disjunction with signs. -/
theorem exec_and (ha : a.var < varLimit) (hb : b.var < varLimit) (i : Instance) :
    exec (and a b) i = exec (or a.opposite b.opposite >>= neg) i := by
  show exec (liftM a.neg >>= fun na => liftM b.neg >>= fun nb => or na nb >>= neg) i = _
  rw [exec_bind_lift (neg_eq ha), exec_bind_lift (neg_eq hb)]

theorem Settled.and (h : Settled j (or a b) (.ok c)) (ha : a.var < varLimit)
    (hb : b.var < varLimit) (hc : c.var < varLimit) :
    Settled j (and a.opposite b.opposite) (.ok c.opposite) := by
  refine Settled.congr (Settled.bind h (f := neg) fun k _ => ?_) fun i => ?_
  · show (c.neg, k) = _
    rw [neg_eq hc]
  · rw [exec_and (by rwa [var_opposite]) (by rwa [var_opposite]), opposite_opposite,
      opposite_opposite]

variable {free : List Nat} {gates : List Clause} {i : Instance} {a b : Literal}

/-- The literal of a connective stays that of all formulas that this one grows to. -/
theorem settled_connect (built : i.Built free gates) (g : Gate) (ha : i.Minted a) (hb : i.Minted b)
    (room : (exec (g.connect a b) i).2.numVars < varLimit) :
    ∃ c, (exec (g.connect a b) i).1 = .ok c ∧
      Settled (exec (g.connect a b) i).2 (g.connect a b) (.ok c) ∧
      a.var < varLimit ∧ b.var < varLimit ∧ c.var < varLimit := by
  have wf := built.wellFormed
  obtain ⟨grows, shared⟩ := shared_connect g a b i
  obtain ⟨c, hc, minted⟩ := wf.connected (Gate.connects_connect wf.marked wf.keyed g ha hb) ha hb room
  have small {l : Literal} (hl : i.Minted l) : l.var < varLimit :=
    Nat.lt_of_le_of_lt (Nat.le_trans hl grows.numVars_le) room
  rcases shared with ⟨e, -, he⟩ | ⟨-, again⟩
  · cases hc.symm.trans he
  · rw [hc] at again
    exact ⟨c, hc, again, small ha, small hb, Nat.lt_of_le_of_lt minted room⟩

end Compile

namespace Instance

open Compile StraightLine

/-- Once a program has run on minted literals of a reachable formula, it gives the same literals after
any further requests, and changes nothing; only a run that needs more than 32 bits may do otherwise.

While there is room for variables, so does each call that is a symmetry of a connective that was
called: a disjunction in the other order, a conjunction of opposite literals, and an exclusive or in
both orders and with all signs, with the sign that it then has.  The formula has one gate at most for
two literals with an or, and for two variables with an exclusive or. -/
theorem Built.shares_gates {free : List Nat} {gates : List Clause} {i : Instance}
    (built : i.Built free gates) :
    (∀ (program : List Instruction) (operands : List Literal), (∀ l ∈ operands, i.Minted l) →
      let r := exec (run program operands) i
      Exhausted r ∨ r.2.Lasting (run program operands) r.1) ∧
    (∀ a b : Literal, i.Minted a → i.Minted b →
      (let r := exec (or a b) i
       r.2.numVars < varLimit → ∃ c, r.1 = .ok c ∧ r.2.Lasting (or b a) (.ok c) ∧
        r.2.Lasting (and a.opposite b.opposite) (.ok c.opposite)) ∧
      (let r := exec (and a b) i
       r.2.numVars < varLimit → ∃ c, r.1 = .ok c ∧
        r.2.Lasting (or a.opposite b.opposite) (.ok c.opposite)) ∧
      (let r := exec (xor a b) i
       r.2.numVars < varLimit → ∃ c, r.1 = .ok c ∧ ∀ s t,
        r.2.Lasting (xor (a.turn s) (b.turn t)) (.ok (c.turn (s ^^ t))) ∧
        r.2.Lasting (xor (b.turn t) (a.turn s)) (.ok (c.turn (s ^^ t))))) ∧
    ∃ minted, Inventory gates i minted := by
  refine ⟨?_, ?_, built.inventory⟩
  · intro program operands minted r
    refine Classical.or_iff_not_imp_left.mpr fun room => ?_
    rcases (shared_run program operands i).2 with ⟨e, broken, failed⟩ | ⟨-, again⟩
    · exact absurd broken (not_broken_run built program minted room failed)
    · exact again.lasting
  · intro a b ha hb
    refine ⟨?_, ?_, ?_⟩
    · intro r room
      obtain ⟨c, hc, settled, ha, hb, small⟩ := settled_connect built .or ha hb room
      exact ⟨c, hc, (settled.swap ha hb).lasting, (settled.and ha hb small).lasting⟩
    · intro r room
      have grows : i.Grows r.2 := adds_and a b i
      have small {l : Literal} (hl : i.Minted l) : l.var < varLimit :=
        Nat.lt_of_le_of_lt (Nat.le_trans hl grows.numVars_le) room
      have result : r = exec (or a.opposite b.opposite >>= neg) i :=
        exec_and (small ha) (small hb) i
      have minted {l : Literal} (hl : i.Minted l) : i.Minted l.opposite := by
        rw [Minted, var_opposite]
        exact hl
      rw [result, exec_bind_neg] at room ⊢
      obtain ⟨c, hc, settled, -, -, small⟩ := settled_connect built .or (minted ha) (minted hb) room
      refine ⟨c.opposite, ?_, ?_⟩
      · show (exec (or a.opposite b.opposite) i).1 >>= Literal.neg = _
        rw [show (exec (or a.opposite b.opposite) i).1 = .ok c from hc]
        exact neg_eq small
      · rw [opposite_opposite]
        exact settled.lasting
    · intro r room
      obtain ⟨c, hc, settled, ha, hb, small⟩ := settled_connect built .xor ha hb room
      refine ⟨c, hc, fun s t => ?_⟩
      have turned := Settled.turns settled ha hb small s t
      refine ⟨turned.lasting, (Settled.swap (g := .xor) turned ?_ ?_).lasting⟩
      · rwa [var_turn]
      · rwa [var_turn]

open StraightLine in
/-- After the first disjunction of two variables, its program and the disjunction in the other order
give its literal. -/
theorem Built.shares_gates_disjunction :
    let j := twoFree.withGate .or (ofVar 1, ofVar 2)
    exec (or (ofVar 1) (ofVar 2)) twoFree = (.ok (ofVar 3), j) ∧
      j.Lasting (run [.or 0 1] [ofVar 1, ofVar 2]) (.ok [ofVar 1, ofVar 2, ofVar 3]) ∧
      j.Lasting (or (ofVar 2) (ofVar 1)) (.ok (ofVar 3)) := by
  obtain ⟨programs, pairs, -⟩ := Built.shares_gates twoFree_built
  refine ⟨exec_get_twoFree, ?_, ?_⟩
  · have h := programs [.or 0 1] [ofVar 1, ofVar 2] (by decide)
    rw [exec_or_twoFree] at h
    exact h.resolve_left fun h => nomatch h.1
  · obtain ⟨or, -⟩ := pairs (ofVar 1) (ofVar 2) (by decide) (by decide)
    rw [exec_get_twoFree] at or
    obtain ⟨c, hc, lasting, -⟩ := or (by rw [numVars_withGate]; decide)
    cases hc
    exact lasting

end Instance

end FiniteStructures
