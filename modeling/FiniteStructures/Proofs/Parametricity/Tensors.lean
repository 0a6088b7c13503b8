import FiniteStructures.Tensor.Axes
import FiniteStructures.Proofs.Parametricity.Tracking

/-!
Operations on tensors look at shapes only; elements are moved, or handed to the given functions.
Tensors are related when their shapes are the same and their cells are related one by one, and
every operation takes related tensors to related ones:

    (t.reshape shape axes), (u.reshape shape axes)    agree, if t and u are related
    t.mapM f, u.mapM g                                track each other, if f and g do
-/

namespace FiniteStructures

/-- Tensors of one shape with related cells. -/
structure Tensor.Rel {E F : Type} (r : E → F → Prop) (t : Tensor E) (u : Tensor F) : Prop where
  shape : t.shape = u.shape
  elems : List.Forall₂ r t.elems u.elems

namespace Tensor

variable {E F : Type} {r : E → F → Prop} {t : Tensor E} {u : Tensor F}

theorem Rel.mono {s : E → F → Prop} (h : Rel r t u) (sub : ∀ a b, r a b → s a b) : Rel s t u :=
  ⟨h.shape, h.elems.imp sub⟩

theorem Rel.order (h : Rel r t u) : t.order = u.order := congrArg List.length h.shape

/-- Related by equality means equal. -/
theorem Rel.eq {t u : Tensor E} (h : Rel Eq t u) : t = u :=
  ext h.shape (List.forall₂_eq_eq_eq ▸ h.elems)

/-- If an element has one partner, so has a tensor. -/
theorem Rel.unique {u' : Tensor F} (functional : ∀ a b b', r a b → r a b' → b = b')
    (h : Rel r t u) (h' : Rel r t u') : u = u' :=
  ext (h.shape.symm.trans h'.shape)
    (List.right_unique_forall₂' (fun a b b' => functional a b b') h.elems h'.elems)

theorem Rel.map {E' F' : Type} {s : E' → F' → Prop} {f : E → E'} {g : F → F'} (h : Rel r t u)
    (hf : ∀ a b, r a b → s (f a) (g b)) : Rel s (t.map f) (u.map g) :=
  ⟨h.shape, List.rel_map hf h.elems⟩

theorem Rel.scalar {a : E} {b : F} (h : r a b) : Rel r (scalar a) (scalar b) :=
  ⟨rfl, .cons h .nil⟩

/-- Cells at the same place of the store are related. -/
theorem getElem?_rel {l : List E} {l' : List F} (h : List.Forall₂ r l l') (n : Nat) :
    Option.Rel r l[n]? l'[n]? := by
  induction h generalizing n with
  | nil => exact .none
  | cons hab _ ih =>
    cases n with
    | zero => simpa using Option.Rel.some hab
    | succ n => simpa using ih n

theorem blocks_rel {l : List E} {l' : List F} (h : List.Forall₂ r l l') (length count : Nat) :
    List.Forall₂ (List.Forall₂ r) (blocks length count l) (blocks length count l') := by
  unfold blocks
  refine List.rel_map (R := Eq) (fun c _ hc => ?_) (List.forall₂_same.mpr fun _ _ => rfl)
  subst hc
  rw [Array.toList_extract, Array.toList_extract]
  exact List.forall₂_take _ (List.forall₂_drop _ h)

end Tensor

/-! ## Cells with effects -/

namespace Tracking

variable {m : Type → Type} [Monad m] [MonadLiftT Outcome m] {T : Tracking m} {w : T.World}
variable {E F E' F' E'' F'' : Type} {r : T.World → E → F → Prop} {r' : T.World → E' → F' → Prop}
  {s : T.World → E'' → F'' → Prop}

theorem stable_tensor (hr : T.Stable r) : T.Stable fun w => Tensor.Rel (r w) :=
  fun w w' _ _ hw h => h.mono fun a b => hr w w' a b hw

theorem generate {shape : List Nat} {f : List Nat → m E} {g : List Nat → Outcome F}
    (hr : T.Stable r) (h : ∀ {w'} index, T.le w w' → T.Tracks w' r (f index) (g index)) :
    T.Tracks w (fun w => Tensor.Rel (r w)) (Tensor.generate shape f)
      (Tensor.generate shape g) := by
  unfold Tensor.generate
  refine T.bind (lift_self _) fun hw _ => ?_
  refine T.bind (traverse (R := fun _ => Eq) (fun _ _ _ _ _ h => h) hr (fun hw' heq => ?_)
    (List.forall₂_same.mpr fun _ _ => rfl)) fun _ hl => T.pure ⟨rfl, hl⟩
  subst heq
  exact h _ (T.le_trans hw hw')

theorem mapM {f : E → m E'} {g : F → Outcome F'} (hr : T.Stable r) (hr' : T.Stable r')
    (hf : ∀ {w' a b}, T.le w w' → r w' a b → T.Tracks w' r' (f a) (g b)) {t : Tensor E}
    {u : Tensor F} (h : t.Rel (r w) u) :
    T.Tracks w (fun w => Tensor.Rel (r' w)) (t.mapM f) (u.mapM g) :=
  T.bind (traverse hr hr' hf h.elems) fun _ hl => T.pure ⟨h.shape, hl⟩

theorem map2M {f : E → E' → m E''} {g : F → F' → Outcome F''} (hr : T.Stable r)
    (hr' : T.Stable r') (hs : T.Stable s)
    (hf : ∀ {w' a b a' b'}, T.le w w' → r w' a b → r' w' a' b' → T.Tracks w' s (f a a') (g b b'))
    {t : Tensor E} {u : Tensor F} {t' : Tensor E'} {u' : Tensor F'} (h : t.Rel (r w) u)
    (h' : t'.Rel (r' w) u') :
    T.Tracks w (fun w => Tensor.Rel (s w)) (t.map2M f t') (u.map2M g u') := by
  unfold Tensor.map2M
  split
  · next heq =>
    rw [dif_pos (by rw [← h.shape, ← h'.shape, heq])]
    have zipped : List.Forall₂ (fun p q => r w p.1 q.1 ∧ r' w p.2 q.2) (t.elems.zip t'.elems)
        (u.elems.zip u'.elems) :=
      forall₂_zip h.elems h'.elems
    refine T.bind (traverse (R := fun w p q => r w p.1 q.1 ∧ r' w p.2 q.2) ?_ hs ?_ zipped)
      fun _ hl => T.pure ⟨h.shape, hl⟩
    · exact fun w w' _ _ hw hp => ⟨hr w w' _ _ hw hp.1, hr' w w' _ _ hw hp.2⟩
    · exact fun hw hp => hf hw hp.1 hp.2
  · next heq =>
    rw [dif_neg (by rw [← h.shape, ← h'.shape]; exact heq), h.shape, h'.shape]
    exact fails rfl rfl

theorem foldM {f : List E → m E'} {g : List F → Outcome F'} (hr : T.Stable r)
    (hr' : T.Stable r')
    (hf : ∀ {w' l l'}, T.le w w' → List.Forall₂ (r w') l l' → T.Tracks w' r' (f l) (g l'))
    {t : Tensor E} {u : Tensor F} (h : t.Rel (r w) u) (axes : Nat) :
    T.Tracks w (fun w => Tensor.Rel (r' w)) (t.foldM axes f) (u.foldM axes g) := by
  obtain ⟨shape, elems, _⟩ := t
  obtain ⟨shape', elems', _⟩ := u
  obtain ⟨hs, h⟩ := h
  obtain rfl : shape = shape' := hs
  unfold Tensor.foldM
  refine guard Iff.rfl rfl rfl fun _ => ?_
  refine T.bind (lift_self _) fun hw hb => ?_
  subst hb
  refine T.bind (lift_self _) fun hw' _ => ?_
  have hw := T.le_trans hw hw'
  exact T.bind (traverse (R := fun w => List.Forall₂ (r w))
    (fun _ _ _ _ hw h => forall₂_mono hr hw h) hr' (fun hw' => hf (T.le_trans hw hw'))
    (Tensor.blocks_rel (forall₂_mono hr hw h) _ _)) fun _ hl => T.pure ⟨rfl, hl⟩

end Tracking

/-! ## Moving cells -/

namespace Tensor

variable {E F : Type} {r : E → F → Prop} {t : Tensor E} {u : Tensor F}

theorem constant_rel {a : E} {b : F} (h : r a b) (shape : List Nat) :
    Agree (Rel r) (constant shape a) (constant shape b) :=
  (Agree.refl _).bind fun _ _ _ => .ok ⟨rfl, Tracking.forall₂_replicate h _⟩

/-- Tensors whose cells agree index by index. -/
theorem generate_rel {shape : List Nat} {f : List Nat → Outcome E} {g : List Nat → Outcome F}
    (h : ∀ index, Agree r (f index) (g index)) :
    Agree (Rel r) (generate shape f) (generate shape g) :=
  Tracking.generate (T := Tracking.outcome) (r := fun _ => r) (w := ())
    (fun _ _ _ _ _ h => h) fun index _ => h index

/-- A cell of the store, or the fault that there is none. -/
theorem cell_rel {l : List E} {l' : List F} (h : List.Forall₂ r l l') (n : Nat) :
    Agree r (match l[n]? with | some e => .ok e | none => Outcome.breach .outOfBounds)
      (match l'[n]? with | some e => .ok e | none => Outcome.breach .outOfBounds) := by
  have hn := getElem?_rel h n
  generalize l[n]? = o at hn ⊢
  generalize l'[n]? = p at hn ⊢
  cases hn with
  | some h => exact .ok h
  | none => exact .error _

theorem get_rel (h : t.Rel r u) (index : List Nat) : Agree r (t.get index) (u.get index) := by
  unfold get
  rw [h.order, h.shape]
  refine Tracking.guard (T := Tracking.outcome) (w := ()) (R := fun _ => r) Iff.rfl rfl rfl
    fun _ => ?_
  exact (Agree.refl _).bind fun _ _ _ => cell_rel h.elems _

theorem toScalar_rel (h : t.Rel r u) : Agree r t.toScalar u.toScalar := by
  obtain ⟨shape, elems, hl⟩ := t
  obtain ⟨shape', elems', hl'⟩ := u
  obtain ⟨hs, he⟩ := h
  obtain rfl : shape = shape' := hs
  unfold toScalar order
  cases shape with
  | nil =>
    cases he with
    | nil => exact .error _
    | cons h _ => exact .ok h
  | cons d ds => exact .error _

theorem reshape_rel (h : t.Rel r u) (shape axes : List Nat) :
    Agree (Rel r) (t.reshape shape axes) (u.reshape shape axes) := by
  unfold reshape
  rw [h.order, h.shape]
  refine Tracking.guard (T := Tracking.outcome) (w := ()) (R := fun _ => Rel r) Iff.rfl rfl rfl
    fun _ => ?_
  refine (Agree.refl _).bind fun steps _ hs => ?_
  subst hs
  refine generate_rel fun index => ?_
  simp only [List.getElem?_toArray]
  exact cell_rel h.elems _

theorem permute_rel (h : t.Rel r u) (axes : List Nat) :
    Agree (Rel r) (t.permute axes) (u.permute axes) := by
  unfold permute
  rw [h.order, h.shape]
  refine Tracking.guard (T := Tracking.outcome) (w := ()) (R := fun _ => Rel r) Iff.rfl rfl rfl
    fun _ => ?_
  split
  · exact reshape_rel h _ _
  · exact .error _

end Tensor

end FiniteStructures
