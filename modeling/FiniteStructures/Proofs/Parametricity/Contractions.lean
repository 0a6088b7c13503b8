import FiniteStructures.Contraction.Basic
import FiniteStructures.Proofs.Parametricity.Domains
import FiniteStructures.Proofs.Parametricity.Tensors

/-!
A contraction decides by sizes and variables what it does next, never by cells.  Contractions over
two semirings whose operations track each other therefore take the same steps:

    query ops entries result, query ops' entries' result    track each other
-/

namespace FiniteStructures

/-- Entries with the same variables and related tensors. -/
structure Entry.Rel {E F : Type} (r : E → F → Prop) (a : Entry E) (b : Entry F) : Prop where
  tensor : a.tensor.Rel r b.tensor
  vars : a.vars = b.vars

namespace Contraction

variable {E F : Type} {r : E → F → Prop} {es : List (Entry E)} {fs : List (Entry F)}

theorem map_vars (h : List.Forall₂ (Entry.Rel r) es fs) :
    es.map Entry.vars = fs.map Entry.vars := by
  induction h with
  | nil => rfl
  | cons hab _ ih => rw [List.map_cons, List.map_cons, hab.vars, ih]

theorem stays_rel (h : List.Forall₂ (Entry.Rel r) es fs) (result : List Char) :
    stays es result = stays fs result := by
  funext v
  unfold stays
  have count := congrArg (List.countP fun vars => vars.contains v) (map_vars h)
  rw [List.countP_map, List.countP_map] at count
  exact congrArg (fun n => decide (n > 1) || result.contains v) count

theorem partner_rel (vars : List Char) {e : Entry E} {f : Entry F} (hef : e.Rel r f)
    (h : List.Forall₂ (Entry.Rel r) es fs) :
    (partner vars e es).1.Rel r (partner vars f fs).1 ∧
      List.Forall₂ (Entry.Rel r) (partner vars e es).2 (partner vars f fs).2 := by
  have hcons := h.cons hef
  have hi : (e :: es).findIdx? (fun e => e.vars.any vars.contains) =
      (f :: fs).findIdx? fun e => e.vars.any vars.contains := by
    have := congrArg (List.findIdx? fun vs => vs.any vars.contains) (map_vars hcons)
    rwa [List.findIdx?_map, List.findIdx?_map] at this
  unfold partner
  simp only [hi, List.getD_eq_getElem?_getD]
  constructor
  · have getD {o : Option (Entry E)} {p : Option (Entry F)} (h : Option.Rel (Entry.Rel r) o p) :
        (o.getD e).Rel r (p.getD f) := by
      cases h with
      | some h => exact h
      | none => exact hef
    exact getD (Tensor.getElem?_rel hcons _)
  · rw [List.eraseIdx_eq_take_drop_succ, List.eraseIdx_eq_take_drop_succ]
    exact List.rel_append (List.forall₂_take _ hcons) (List.forall₂_drop _ hcons)

/-- Contractions with the same sizes and related entries. -/
structure Rel (r : E → F → Prop) (c : Contraction E) (d : Contraction F) : Prop where
  entries : List.Forall₂ (Entry.Rel r) c.entries d.entries
  sizes : c.sizes = d.sizes
  poisoned : c.poisoned = d.poisoned

theorem Rel.empty : Rel r (empty : Contraction E) (empty : Contraction F) := ⟨.nil, rfl, rfl⟩

theorem add_rel {c : Contraction E} {d : Contraction F} (h : Rel r c d) {t : Tensor E}
    {u : Tensor F} (ht : t.Rel r u) (vars : List Char) :
    (c.add t vars).1 = (d.add u vars).1 ∧ Rel r (c.add t vars).2 (d.add u vars).2 := by
  obtain ⟨entries, sizes, poisoned⟩ := c
  obtain ⟨entries', sizes', poisoned'⟩ := d
  obtain ⟨he, hs, hp⟩ := h
  obtain rfl : sizes = sizes' := hs
  obtain rfl : poisoned = poisoned' := hp
  have hb : bindEntry sizes t vars = bindEntry sizes u vars := by
    unfold bindEntry
    rw [ht.order, ht.shape]
  unfold add
  cases poisoned
  · simp only [Bool.false_eq_true, if_false, hb]
    rcases bindEntry sizes u vars with ⟨_ | _, sizes⟩
    · exact ⟨rfl, he, rfl, rfl⟩
    · exact ⟨rfl, List.rel_append he (.cons ⟨ht, rfl⟩ .nil), rfl, rfl⟩
  · exact ⟨rfl, he, rfl, rfl⟩

/-- What becomes of the last entry is decided by its variables. -/
theorem deliver_rel {a : Entry E} {b : Entry F} (h : a.Rel r b) (result : List Char) :
    Agree (Tensor.Rel r) (deliver result a) (deliver result b) := by
  unfold deliver
  rw [h.vars]
  split
  · exact .error _
  refine (Agree.refl (places result b.vars)).bind ?_
  rintro axes _ rfl
  dsimp only
  split
  · exact .error _
  · exact Tensor.permute_rel h.tensor axes

end Contraction

namespace Tracking.Semiring

open Contraction

variable {m : Type → Type} [Monad m] [MonadLiftT Outcome m] {T : Tracking m} {E F : Type}
  {r : T.World → E → F → Prop} {ops : SemiringOps E m} {ops' : SemiringOps F Outcome}
  {w : T.World}

theorem stable_entry (h : T.Semiring r ops ops') : T.Stable fun w => Entry.Rel (r w) :=
  fun w w' _ _ hw he => ⟨stable_tensor h.stable w w' _ _ hw he.tensor, he.vars⟩

theorem reduce (h : T.Semiring r ops ops') (sizes : Sizes) (stay : Char → Bool) {e : Entry E}
    {f : Entry F} (hef : e.Rel (r w) f) :
    T.Tracks w (fun w => Entry.Rel (r w)) (reduce ops sizes stay e)
      (reduce ops' sizes stay f) := by
  obtain ⟨t, vars⟩ := e
  obtain ⟨u, vars'⟩ := f
  obtain ⟨ht, hv⟩ := hef
  obtain rfl : vars = vars' := hv
  unfold Contraction.reduce
  extract_lets _ summed kept target jp _ _ _ _ jp'
  have rest {w'} {t' : Tensor E} {u' : Tensor F} (ht : t'.Rel (r w') u') :
      T.Tracks w' (fun w => Entry.Rel (r w)) (jp t') (jp' u') := by
    simp only [jp, jp']
    split
    · exact T.pure ⟨ht, rfl⟩
    · exact T.bind (foldM h.stable h.stable (fun _ => h.sum) ht _) fun _ ht => T.pure ⟨ht, rfl⟩
  split
  · exact T.bind (T.pure (R := fun w => Tensor.Rel (r w)) ht) fun _ => rest
  · exact T.bind (R := fun w => Tensor.Rel (r w)) (T.lift (Tensor.reshape_rel ht _ _))
      fun _ => rest

theorem join (h : T.Semiring r ops ops') (sizes : Sizes) {a b : Entry E} {a' b' : Entry F}
    (ha : a.Rel (r w) a') (hb : b.Rel (r w) b') :
    T.Tracks w (fun w => Entry.Rel (r w)) (join ops sizes a b) (join ops' sizes a' b') := by
  unfold Contraction.join
  rw [ha.vars, hb.vars]
  have stable := stable_tensor h.stable
  refine T.bind (R := fun w => Tensor.Rel (r w)) (T.lift (Tensor.reshape_rel ha.tensor _ _))
    fun hw hl => ?_
  refine T.bind (R := fun w => Tensor.Rel (r w))
    (T.lift (Tensor.reshape_rel (stable _ _ _ _ hw hb.tensor) _ _)) fun hw' hr => ?_
  exact T.bind (map2M h.stable h.stable h.stable (fun _ => h.mul) (stable _ _ _ _ hw' hl) hr)
    fun _ ht => T.pure ⟨ht, rfl⟩

theorem collapse (h : T.Semiring r ops ops') (sizes : Sizes) (result : List Char) (n : Nat)
    {es : List (Entry E)} {fs : List (Entry F)} (hes : List.Forall₂ (Entry.Rel (r w)) es fs) :
    T.Tracks w (fun w => Entry.Rel (r w)) (collapse ops sizes result n es)
      (collapse ops' sizes result n fs) := by
  induction n generalizing w es fs with
  | zero => exact fails rfl rfl
  | succ n ih =>
    unfold Contraction.collapse
    rw [stays_rel hes]
    refine T.bind (traverse h.stable_entry h.stable_entry (fun _ => h.reduce sizes _) hes) ?_
    rintro w' ⟨reduced, _⟩ ⟨reduced', _⟩ - (hr : List.Forall₂ (Entry.Rel (r w')) reduced reduced')
    cases hr with
    | nil => exact fails rfl rfl
    | @cons first _ _ _ hfirst hrest =>
      cases hrest with
      | nil => exact T.pure hfirst
      | cons hsecond hrest =>
        obtain ⟨hother, hothers⟩ := partner_rel first.vars hsecond hrest
        simp only [← hfirst.vars]
        refine T.bind (h.join sizes hfirst hother) fun hw' hj => ?_
        exact ih (.cons hj (forall₂_mono h.stable_entry hw' hothers))

theorem evaluate (h : T.Semiring r ops ops') (sizes : Sizes) {es : List (Entry E)}
    {fs : List (Entry F)} (hes : List.Forall₂ (Entry.Rel (r w)) es fs) (result : List Char) :
    T.Tracks w (fun w => Tensor.Rel (r w)) (evaluate ops sizes es result)
      (evaluate ops' sizes fs result) := by
  unfold Contraction.evaluate
  extract_lets entries entries'
  have hentries : List.Forall₂ (Entry.Rel (r w)) entries entries' := by
    cases hes with
    | nil => exact .cons ⟨.scalar (h.one w), rfl⟩ .nil
    | cons hab hes => exact .cons hab hes
  rw [hentries.length_eq]
  exact T.bind (h.collapse sizes result _ hentries) fun _ hlast => T.lift (deliver_rel hlast result)

theorem get (h : T.Semiring r ops ops') {c : Contraction E} {d : Contraction F}
    (hcd : Contraction.Rel (r w) c d) (result : List Char) :
    T.Tracks w (fun w p q => Agree (Tensor.Rel (r w)) p.1 q.1 ∧ Contraction.Rel (r w) p.2 q.2)
      (c.get ops result) (d.get ops' result) := by
  obtain ⟨entries, sizes, poisoned⟩ := c
  obtain ⟨entries', sizes', poisoned'⟩ := d
  obtain ⟨he, hs, hp⟩ := hcd
  obtain rfl : sizes = sizes' := hs
  obtain rfl : poisoned = poisoned' := hp
  unfold Contraction.get
  cases poisoned
  · simp only [Bool.false_eq_true, if_false]
    split
    · exact T.pure ⟨.error _, .nil, rfl, rfl⟩
    · exact T.bind (h.evaluate sizes he result) fun _ ht => T.pure ⟨.ok ht, .empty⟩
  · exact T.pure ⟨.error _, he, rfl, rfl⟩

/-- Queries of related entries with the same variables track each other. -/
theorem query (h : T.Semiring r ops ops') {es : List (Tensor E × List Char)}
    {fs : List (Tensor F × List Char)}
    (hes : List.Forall₂ (fun p q => p.1.Rel (r w) q.1 ∧ p.2 = q.2) es fs) (result : List Char) :
    T.Tracks w (fun w => Tensor.Rel (r w)) (query ops es result) (query ops' fs result) := by
  have stable : T.Stable fun w (p : Tensor E × List Char) (q : Tensor F × List Char) =>
      p.1.Rel (r w) q.1 ∧ p.2 = q.2 :=
    fun w w' _ _ hw hp => ⟨stable_tensor h.stable w w' _ _ hw hp.1, hp.2⟩
  have stable' : T.Stable fun w => Contraction.Rel (r w) := fun w w' _ _ hw hc =>
    ⟨forall₂_mono h.stable_entry hw hc.entries, hc.sizes, hc.poisoned⟩
  unfold Contraction.query
  refine T.bind (foldlM (S := fun w => Contraction.Rel (r w)) stable ?_ hes Rel.empty) fun _ hc => ?_
  · rintro w' c d ⟨t, vars⟩ ⟨u, vars'⟩ - hc ⟨ht, hv⟩
    obtain rfl : vars = vars' := hv
    replace ht : t.Rel (r w') u := ht
    obtain ⟨houtcome, hstate⟩ := add_rel hc ht vars
    have alike : Agree (fun _ _ => True) ((c.add t vars).1.mapError Fault.error)
        ((d.add u vars).1.mapError Fault.error) := by
      rw [houtcome]
      exact (Agree.refl _).mono fun _ _ _ => trivial
    exact T.bind (R := fun _ _ _ => True) (T.lift alike) fun hw _ =>
      T.pure (stable' _ _ _ _ hw hstate)
  · exact T.bind (h.get hc result) fun _ ht => T.lift (ht.1.mapError _)

end Tracking.Semiring

end FiniteStructures
