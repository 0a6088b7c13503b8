import FiniteStructures.Proofs.Sat.Gates

/-!
What calls to a formula are built of.  A property that computations keep when one follows the other is
one of loops (`Compile.Sequential`).  If the smallest calls have it, so have all calls: of clauses, of
the formula as it is read, of gates and of the connectives over them (`Compile.Closed`).
-/

namespace FiniteStructures

namespace Compile

/-- Computations that follow each other keep the property. -/
structure Sequential (Q : {α : Type} → Compile α → Prop) : Prop where
  pure : ∀ {α : Type} (a : α), Q (pure a : Compile α)
  bind : ∀ {α β : Type} {x : Compile α} {f : α → Compile β}, Q x → (∀ a, Q (f a)) → Q (x >>= f)

namespace Sequential

variable {Q : {α : Type} → Compile α → Prop} {α β : Type}

theorem ite {c : Prop} [Decidable c] {x y : Compile α} (hx : Q x) (hy : Q y) :
    Q (if c then x else y) := by
  split
  · exact hx
  · exact hy

theorem forM (h : Sequential Q) {f : α → Compile Unit} (hf : ∀ a, Q (f a)) (l : List α) :
    Q (l.forM f) := by
  induction l with
  | nil => exact h.pure ()
  | cons a l ih => exact h.bind (hf a) fun _ => ih

theorem mapM (h : Sequential Q) {f : α → Compile β} (hf : ∀ a, Q (f a)) (l : List α) :
    Q (l.mapM f) := by
  induction l with
  | nil => exact h.pure []
  | cons a l ih =>
    rw [List.mapM_cons]
    exact h.bind (hf a) fun _ => h.bind ih fun _ => h.pure _

theorem foldlM (h : Sequential Q) {f : β → α → Compile β} (hf : ∀ b a, Q (f b a)) (l : List α)
    (b : β) : Q (l.foldlM f b) := by
  induction l generalizing b with
  | nil => exact h.pure b
  | cons a l ih =>
    rw [List.foldlM_cons]
    exact h.bind (hf b a) ih

theorem traverse_go (h : Sequential Q) {f : α → Compile β} (hf : ∀ a, Q (f a)) (l : List α)
    (done : List β) {n : Nat} (hn : done.length + l.length = n) : Q (traverse.go f l done n hn) := by
  induction l generalizing done with
  | nil => exact h.pure _
  | cons a l ih => exact h.bind (hf a) fun b => ih (b :: done) _

/-- A connective negates its operands, or it is that of its gate. -/
theorem connect (h : Sequential Q) (neg : ∀ l : Literal, Q (liftM l.neg : Compile Literal)) {g : Gate}
    (gate : ∀ key : Literal × Literal, Q (g.get key)) (a b : Literal) : Q (g.connect a b) := by
  cases g with
  | or =>
    refine ite (h.pure _) (h.bind (neg b) fun _ => ?_)
    exact ite (h.pure _) (ite (h.pure _) (ite (h.pure _) (gate _)))
  | xor =>
    refine ite (h.pure _) (ite (h.pure _) (ite (neg b) (ite (neg a) (ite (h.pure _) ?_))))
    refine h.bind (neg b) fun _ => ite (h.pure _) ?_
    exact h.bind (gate _) fun c => ite (neg c) (h.pure c)

end Sequential

/-- The smallest calls have the property, and computations that follow each other keep it. -/
structure Closed (Q : {α : Type} → Compile α → Prop) : Prop extends Sequential Q where
  get : Q (get : Compile Instance)
  neg : ∀ l : Literal, Q (liftM l.neg : Compile Literal)
  fresh : Q fresh
  addClause : ∀ c : Clause, Q (addClause c)

namespace Closed

variable {Q : {α : Type} → Compile α → Prop}

/-! ## Variables and clauses -/

theorem ensure (h : Closed Q) (l : Literal) : Q (ensure l) :=
  Sequential.ite (h.addClause _) (h.pure ())

theorem freshTensor (h : Closed Q) {shape : List Nat}
    (store : Q (liftM (Shape.storable shape) : Compile Unit)) : Q (freshTensor shape) := by
  refine h.bind store fun _ => ?_
  exact h.bind (h.traverse_go (fun _ => h.fresh) _ [] _) fun _ => h.pure _

theorem formula (h : Closed Q) : Q formula := by
  refine h.bind h.get fun i => h.bind (h.forM (fun l => ?_) (idle i)) fun _ => ?_
  · exact h.bind (h.neg l) fun _ => h.addClause _
  · exact h.bind h.get fun _ => h.pure _

/-! ## Connectives -/

theorem mint (h : Closed Q) (g : Gate) (a b : Literal) : Q (g.mint a b) := by
  cases g with
  | or =>
    refine h.bind h.fresh fun c => ?_
    refine h.bind (h.neg _) fun _ => h.bind (h.addClause _) fun _ => ?_
    refine h.bind (h.neg _) fun _ => h.bind (h.addClause _) fun _ => ?_
    refine h.bind (h.neg _) fun _ => h.bind (h.addClause _) fun _ => ?_
    exact h.pure c
  | xor =>
    refine h.bind h.fresh fun c => ?_
    refine h.bind (h.neg _) fun _ => h.bind (h.neg _) fun _ => ?_
    refine h.bind (h.neg _) fun _ => h.bind (h.addClause _) fun _ => ?_
    refine h.bind (h.neg _) fun _ => h.bind (h.addClause _) fun _ => ?_
    refine h.bind (h.neg _) fun _ => h.bind (h.addClause _) fun _ => ?_
    refine h.bind (h.neg _) fun _ => h.bind (h.addClause _) fun _ => ?_
    exact h.pure c

theorem connect (h : Closed Q) (gates : ∀ (g : Gate) (key : Literal × Literal), Q (g.get key))
    (g : Gate) (a b : Literal) : Q (g.connect a b) :=
  h.toSequential.connect h.neg (gates g) a b

end Closed

end Compile

end FiniteStructures
