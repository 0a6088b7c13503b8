import FiniteStructures.Proofs.Contraction.Unfailing

/-!
The contraction as an object.  What a call answers is decided by the calls before it: by the axes that
were bound, and by a call that was refused, since the contraction was last empty,

    bindings events    the axes of the entries added, in order, with their variables
    Refusing events    a call was refused

(`Contraction.refused_iff`).  What a refused call leaves in the object is never seen.
-/

namespace FiniteStructures

/-- A call of a contraction and its reply. -/
inductive Event (E : Type) where
  | added (t : Tensor E) (vars : List Char) (reply : Except Error Unit)
  | got (result : List Char) (reply : Except Error (Tensor E))
  | cleared

namespace Event

variable {E : Type}

/-- The call ended with an error. -/
def refused : Event E → Bool
  | added _ _ (.error _) => true
  | got _ (.error _) => true
  | _ => false

/-- The call leaves no entries. -/
def resets : Event E → Bool
  | got _ (.ok _) => true
  | cleared => true
  | _ => false

/-- The axes of an entry that was added, with their variables. -/
def bindings : Event E → List (Char × Nat)
  | added t vars (.ok _) => vars.zip t.shape
  | _ => []

end Event

namespace Contraction

open Event Outcome

variable {E : Type} {m : Type → Type} {σ : Type} [Monad m] [MonadLiftT Outcome m] [Runnable m σ]

/-- Calls of a new contraction that all came to an end, the latest first, lead to a contraction.  Where
the operations have a state, it may be any at each call. -/
inductive Ran (ops : SemiringOps E m) : List (Event E) → Contraction E → Prop
  | start : Ran ops [] empty
  | add {events c c' reply} {t : Tensor E} {vars : List Char} (before : Ran ops events c)
      (call : c.add t vars = (reply, c')) : Ran ops (.added t vars reply :: events) c'
  | get {events c c' s s' reply} {result : List Char} (before : Ran ops events c)
      (call : Runnable.run (c.get ops result) s = (.ok (reply, c'), s')) :
      Ran ops (.got result reply :: events) c'
  | clear {events c} (before : Ran ops events c) : Ran ops (.cleared :: events) c.clear

/-! ## What calls are refused -/

variable {events : List (Event E)} {t : Tensor E} {vars result : List Char} {v : Char}

/-- The events since the contraction was last empty, the latest first. -/
def recent (events : List (Event E)) : List (Event E) := events.takeWhile (!·.resets)

/-- Since the contraction was last empty, a call was refused. -/
def Refusing (events : List (Event E)) : Prop := ∃ e ∈ recent events, e.refused

/-- The axes of the entries that were added since the contraction was last empty, in order. -/
def bindings (events : List (Event E)) : List (Char × Nat) :=
  (recent events).reverse.flatMap Event.bindings

/-- Some entry has the variable. -/
def Bound (events : List (Event E)) (v : Char) : Prop := v ∈ (bindings events).map Prod.fst

/-- After those of the log, each of the axes has the size that its variable was first bound to. -/
def Alike (log axes : List (Char × Nat)) : Prop := ∀ p ∈ axes, (log ++ axes).lookup p.1 = some p.2

/-- How axes are refused after those of the log.  They are gone through from left to right; the first
one that has another size than its variable is refused. -/
inductive Conflict (log axes : List (Char × Nat)) : Error → Prop
  | intro {before after v first second} (split : axes = before ++ (v, second) :: after)
      (alike : Alike log before) (known : (log ++ before).lookup v = some first)
      (ne : first ≠ second) : Conflict log axes (.sizeConflict v first second)

/-- How an entry is refused after the given calls. -/
inductive AddFails (events : List (Event E)) (t : Tensor E) (vars : List Char) : Error → Prop
  | spent (refusing : Refusing events) : AddFails events t vars (.spent .contraction)
  | arity (accepting : ¬ Refusing events) (ne : vars.length ≠ t.order) :
      AddFails events t vars (.arityMismatch t.order vars.length)
  | conflict {e} (accepting : ¬ Refusing events) (eq : vars.length = t.order)
      (conflict : Conflict (bindings events) (vars.zip t.shape) e) : AddFails events t vars e

/-- How a list of variables is refused as a result.  They are gone through from left to right. -/
inductive Unfit (bound : Char → Prop) (result : List Char) : Error → Prop
  | repeated {before after v} (split : result = before ++ v :: after) (distinct : before.Nodup)
      (known : ∀ w ∈ before, bound w) (again : v ∈ before) :
      Unfit bound result (.arityMismatch result.toFinset.card result.length)
  | unbound {before after v} (split : result = before ++ v :: after) (distinct : before.Nodup)
      (known : ∀ w ∈ before, bound w) (new : v ∉ before) (unknown : ¬ bound v) :
      Unfit bound result (.unboundVariable v)

/-- How a result is refused after the given calls. -/
inductive GetFails (events : List (Event E)) (result : List Char) : Error → Prop
  | spent (refusing : Refusing events) : GetFails events result (.spent .contraction)
  | unfit {e} (accepting : ¬ Refusing events) (unfit : Unfit (Bound events) result e) :
      GetFails events result e

/-! ## Recent events -/

theorem recent_reset {e : Event E} (h : e.resets) : recent (e :: events) = [] := by
  simp [recent, h]

theorem recent_cons {e : Event E} (h : ¬ e.resets) : recent (e :: events) = e :: recent events := by
  simp [recent, h]

theorem refusing_reset {e : Event E} (h : e.resets) : ¬ Refusing (e :: events) := by
  rintro ⟨e', he', -⟩
  rw [recent_reset h] at he'
  cases he'

theorem refusing_cons {e : Event E} (h : ¬ e.resets) :
    Refusing (e :: events) ↔ e.refused ∨ Refusing events := by
  unfold Refusing
  rw [recent_cons h, List.exists_mem_cons_iff]

theorem bindings_reset {e : Event E} (h : e.resets) : bindings (e :: events) = [] := by
  unfold bindings
  rw [recent_reset h]
  rfl

theorem bindings_cons {e : Event E} (h : ¬ e.resets) :
    bindings (e :: events) = bindings events ++ e.bindings := by
  unfold bindings
  rw [recent_cons h, List.reverse_cons, List.flatMap_append, List.flatMap_singleton]

/-! ## Binding -/

section Binding

variable {log axes : List (Char × Nat)} {sizes : Sizes} {e : Error}

theorem alike_snoc {v : Char} {d : Nat} (alike : Alike log axes)
    (fits : ∀ first, (log ++ axes).lookup v = some first → first = d) :
    Alike log (axes ++ [(v, d)]) := by
  intro p hp
  rw [← List.append_assoc, List.lookup_append]
  rcases List.mem_append.mp hp with hp | hp
  · rw [alike p hp, Option.some_or]
  · rw [List.mem_singleton.mp hp]
    cases known : (log ++ axes).lookup v with
    | none => rw [Option.none_or, List.lookup_cons_self]
    | some first => rw [Option.some_or, fits first known]

theorem alike_or_conflict (log axes : List (Char × Nat)) :
    Alike log axes ∨ ∃ e, Conflict log axes e := by
  induction axes using List.reverseRecOn with
  | nil => exact .inl nofun
  | append_singleton axes p ih =>
    obtain ⟨v, d⟩ := p
    rcases ih with alike | ⟨_, @⟨before, after, w, first, second, split, alike, known, ne⟩⟩
    · by_cases fits : ∀ first, (log ++ axes).lookup v = some first → first = d
      · exact .inl (alike_snoc alike fits)
      · push Not at fits
        obtain ⟨first, known, ne⟩ := fits
        exact .inr ⟨_, .intro rfl alike known ne⟩
    · have longer : axes ++ [(v, d)] = before ++ (w, second) :: (after ++ [(v, d)]) := by
        rw [split, List.append_assoc]
        rfl
      exact .inr ⟨_, .intro longer alike known ne⟩

/-- Axes that are alike are passed over; the log then has them too. -/
theorem bind_append {before : List (Char × Nat)} (same : ∀ v, sizes.lookup v = log.lookup v)
    (alike : Alike log before) (rest : List (Char × Nat)) :
    ∃ sizes', bind (before ++ rest) sizes = bind rest sizes' ∧
      ∀ v, sizes'.lookup v = (log ++ before).lookup v := by
  induction before generalizing log sizes with
  | nil => exact ⟨sizes, rfl, by rwa [List.append_nil]⟩
  | cons p before ih =>
    obtain ⟨v, d⟩ := p
    have here := alike (v, d) List.mem_cons_self
    have alike' : Alike (log ++ [(v, d)]) before := fun p hp => by
      rw [← List.append_cons]
      exact alike p (List.mem_cons_of_mem _ hp)
    rw [List.cons_append, List.append_cons log]
    cases known : log.lookup v with
    | none =>
      rw [bind_new (by rw [same, known])]
      refine ih (fun w => ?_) alike'
      rw [List.lookup_append, List.lookup_append, same]
    | some first =>
      rw [List.lookup_append, known, Option.some_or, Option.some_inj] at here
      subst here
      rw [bind_known (by rw [same, known])]
      refine ih (fun w => ?_) alike'
      rw [List.lookup_append, same]
      by_cases hw : w = v
      · rw [hw, known, Option.some_or]
      · have other : [(v, first)].lookup w = none :=
          List.lookup_eq_none_iff.mpr (List.forall_mem_singleton.mpr (bne_iff_ne.mpr hw))
        rw [other, Option.or_none]

theorem bind_alike (same : ∀ v, sizes.lookup v = log.lookup v) (alike : Alike log axes) :
    ∃ sizes', bind axes sizes = (.ok (), sizes') ∧ ∀ v, sizes'.lookup v = (log ++ axes).lookup v := by
  have passed := bind_append same alike []
  rwa [List.append_nil] at passed

theorem bind_conflict (same : ∀ v, sizes.lookup v = log.lookup v) (conflict : Conflict log axes e) :
    (bind axes sizes).1 = .error e := by
  obtain ⟨split, alike, known, ne⟩ := conflict
  obtain ⟨sizes', passed, same'⟩ := bind_append same alike ((_, _) :: _)
  rw [split, passed, bind_other (by rw [same', known]) ne]

end Binding

/-! ## Results -/

section Results

variable {sizes : Sizes} {bound : Char → Prop} {result : List Char} {e : Error}

theorem fit_or_unfit (bound : Char → Prop) (result : List Char) :
    (result.Nodup ∧ ∀ v ∈ result, bound v) ∨ ∃ e, Unfit bound result e := by
  induction result using List.reverseRecOn with
  | nil => exact .inl ⟨.nil, nofun⟩
  | append_singleton result v ih =>
    rcases ih with ⟨distinct, known⟩ | ⟨_, unfit⟩
    · by_cases again : v ∈ result
      · exact .inr ⟨_, .repeated rfl distinct known again⟩
      by_cases bound : bound v
      · refine .inl ⟨List.nodup_append'.mpr ⟨distinct, List.nodup_singleton v, ?_⟩, ?_⟩
        · exact List.disjoint_singleton.mpr again
        · exact List.forall_mem_append.mpr ⟨known, List.forall_mem_singleton.mpr bound⟩
      · exact .inr ⟨_, .unbound rfl distinct known again bound⟩
    · have longer {before after : List Char} {w : Char} (split : result = before ++ w :: after) :
          result ++ [v] = before ++ w :: (after ++ [v]) := by
        rw [split, List.append_assoc]
        rfl
      cases unfit with
      | repeated split distinct known again =>
        exact .inr ⟨_, .repeated (longer split) distinct known again⟩
      | unbound split distinct known new unknown =>
        exact .inr ⟨_, .unbound (longer split) distinct known new unknown⟩

theorem length_distinct (l : List Char) : (distinct l).length = l.toFinset.card := by
  rw [← List.toFinset_card_of_nodup (nodup_distinct l)]
  congr 1
  ext v
  rw [List.mem_toFinset, List.mem_toFinset, mem_distinct]

theorem checkResult_unfit (unfit : Unfit (· ∈ Contraction.bound sizes) result e) :
    checkResult sizes result [] result = .error e := by
  cases unfit with
  | @repeated before after v split distinct known again =>
    have passed := checkResult_append result distinct (fun _ _ => List.not_mem_nil) known (v :: after)
    rw [← split, List.append_nil] at passed
    rw [passed, checkResult, if_pos (List.mem_reverse.mpr again), length_distinct]
  | @unbound before after v split distinct known new unknown =>
    have passed := checkResult_append result distinct (fun _ _ => List.not_mem_nil) known (v :: after)
    have none : sizes.lookup v = none :=
      Option.eq_none_iff_forall_ne_some.mpr fun d hd => unknown (mem_bound.mpr ⟨d, hd⟩)
    rw [← split, List.append_nil] at passed
    rw [passed, checkResult, if_neg (List.mem_reverse.not.mpr new), none, Option.isNone_none,
      if_pos rfl]

end Results

/-! ## One call -/

/-- The contraction that the calls lead to.  Once it refuses calls, nothing else of it matters. -/
structure Tracks (events : List (Event E)) (c : Contraction E) : Prop where
  poisoned : c.poisoned = true ↔ Refusing events
  wellBound : ¬ Refusing events → WellBound c
  sizes : ¬ Refusing events → ∀ v, c.sizes.lookup v = (bindings events).lookup v

variable {c c' : Contraction E} {e : Error}

theorem Tracks.empty (accepting : ¬ Refusing events) (none : bindings events = []) :
    Tracks events empty where
  poisoned := ⟨nofun, fun refusing => absurd refusing accepting⟩
  wellBound _ := Filled.empty.wellBound.1
  sizes _ v := by rw [none]; rfl

theorem Tracks.start : Tracks ([] : List (Event E)) Contraction.empty := .empty nofun rfl

theorem Tracks.reset {e : Event E} (resets : e.resets) : Tracks (e :: events) Contraction.empty :=
  .empty (refusing_reset resets) (bindings_reset resets)

theorem resets_of_refused {e : Event E} (h : e.refused) : ¬ e.resets := by
  unfold Event.refused at h
  split at h
  · exact Bool.false_ne_true
  · exact Bool.false_ne_true
  · cases h

theorem Tracks.refused {e : Event E} (refused : e.refused) (poisoned : c.poisoned = true) :
    Tracks (e :: events) c := by
  have refusing : Refusing (e :: events) :=
    (refusing_cons (resets_of_refused refused)).mpr (.inl refused)
  exact ⟨⟨fun _ => refusing, fun _ => poisoned⟩, absurd refusing, absurd refusing⟩

theorem Tracks.accepts (h : Tracks events c) (accepting : ¬ Refusing events) : c.poisoned = false :=
  (h.wellBound accepting).accepts

theorem Tracks.bound (h : Tracks events c) (accepting : ¬ Refusing events) (v : Char) :
    v ∈ Contraction.bound c.sizes ↔ Bound events v := by
  rw [mem_bound, h.sizes accepting]
  exact mem_bound.symm

theorem add_spent (poisoned : c.poisoned = true) (t : Tensor E) (vars : List Char) :
    c.add t vars = (.error (.spent .contraction), c) := if_pos poisoned

/-- An entry that fails leaves a contraction that refuses calls. -/
theorem Tracks.add_fails (h : Tracks events c) (fails : AddFails events t vars e) :
    ∃ c', c.add t vars = (.error e, c') ∧ c'.poisoned = true := by
  cases fails with
  | spent refusing =>
    have poisoned := h.poisoned.mpr refusing
    exact ⟨c, add_spent poisoned t vars, poisoned⟩
  | arity accepting ne =>
    unfold add bindEntry
    rw [h.accepts accepting, if_neg Bool.false_ne_true, if_pos ne]
    exact ⟨_, rfl, rfl⟩
  | conflict accepting eq conflict =>
    unfold add bindEntry
    rw [h.accepts accepting, if_neg Bool.false_ne_true, if_neg (not_not.mpr eq)]
    have refused := bind_conflict (h.sizes accepting) conflict
    generalize bind (vars.zip t.shape) c.sizes = o at refused ⊢
    obtain ⟨_, sizes⟩ := o
    obtain rfl : _ = Except.error e := refused
    exact ⟨_, rfl, rfl⟩

/-- Other entries are added. -/
theorem Tracks.add_passes (h : Tracks events c) (accepting : ¬ Refusing events)
    (eq : vars.length = t.order) (alike : Alike (bindings events) (vars.zip t.shape)) :
    ∃ c', c.add t vars = (.ok (), c') ∧
      ∀ v, c'.sizes.lookup v = (bindings events ++ vars.zip t.shape).lookup v := by
  obtain ⟨sizes, binds, same⟩ := bind_alike (h.sizes accepting) alike
  unfold add bindEntry
  rw [h.accepts accepting, if_neg Bool.false_ne_true, if_neg (not_not.mpr eq), binds]
  exact ⟨_, rfl, same⟩

/-- What an entry does to a contraction. -/
theorem Tracks.add_cases (h : Tracks events c) (t : Tensor E) (vars : List Char) :
    (∃ e c', AddFails events t vars e ∧ c.add t vars = (.error e, c') ∧ c'.poisoned = true) ∨
      ¬ Refusing events ∧ ∃ c', c.add t vars = (.ok (), c') ∧
        ∀ v, c'.sizes.lookup v = (bindings events ++ vars.zip t.shape).lookup v := by
  have refuse {e : Error} (fails : AddFails events t vars e) :
      ∃ e c', AddFails events t vars e ∧ c.add t vars = (.error e, c') ∧ c'.poisoned = true := by
    obtain ⟨c', call, poisoned⟩ := h.add_fails fails
    exact ⟨e, c', fails, call, poisoned⟩
  by_cases refusing : Refusing events
  · exact .inl (refuse (.spent refusing))
  by_cases eq : vars.length = t.order
  · rcases alike_or_conflict (bindings events) (vars.zip t.shape) with alike | ⟨e, conflict⟩
    · exact .inr ⟨refusing, h.add_passes refusing eq alike⟩
    · exact .inl (refuse (.conflict refusing eq conflict))
  · exact .inl (refuse (.arity refusing eq))

theorem get_spent (poisoned : c.poisoned = true) (ops : SemiringOps E m) (result : List Char) :
    c.get ops result = pure (.error (.spent .contraction), c) := if_pos poisoned

/-- A result that fails leaves a contraction that refuses calls. -/
theorem Tracks.get_fails (h : Tracks events c) (fails : GetFails events result e)
    (ops : SemiringOps E m) :
    ∃ c', c.get ops result = pure (.error e, c') ∧ c'.poisoned = true := by
  cases fails with
  | spent refusing =>
    have poisoned := h.poisoned.mpr refusing
    exact ⟨c, get_spent poisoned ops result, poisoned⟩
  | unfit accepting unfit =>
    have unfit' : Unfit (· ∈ Contraction.bound c.sizes) result e := by
      rwa [show (· ∈ Contraction.bound c.sizes) = Bound events from
        funext fun v => propext (h.bound accepting v)]
    unfold Contraction.get
    rw [h.accepts accepting, if_neg Bool.false_ne_true, checkResult_unfit unfit']
    exact ⟨_, rfl, rfl⟩

variable {ops : SemiringOps E m} {raises : Fault → Prop}

/-- Other results are given, and then the contraction is empty, unless the contraction stops. -/
theorem Tracks.get_passes (h : Tracks events c) (operations : ops.Raises raises)
    (accepting : ¬ Refusing events) (distinct : result.Nodup) (known : ∀ v ∈ result, Bound events v)
    (s : σ) :
    (∃ t, (Runnable.run (c.get ops result) s).1 = .ok (.ok t, Contraction.empty)) ∨
      ∃ f, (Runnable.run (c.get ops result) s).1 = .error f ∧ f.Stops raises := by
  have known' : ∀ v ∈ result, v ∈ Contraction.bound c.sizes := fun v hv =>
    (h.bound accepting v).mpr (known v hv)
  have ends := evaluate_ends operations (h.wellBound accepting) distinct known' s
  unfold Contraction.get
  rw [h.accepts accepting, if_neg Bool.false_ne_true,
    checkResult_ok distinct (fun _ _ => List.not_mem_nil) known']
  dsimp only
  rw [Runnable.run_bind]
  generalize Runnable.run (evaluate ops c.sizes c.entries result) s = r at ends ⊢
  obtain ⟨f | t, s'⟩ := r
  · rcases ends with ⟨_, ⟨⟩⟩ | ⟨_, ⟨⟩, stops⟩
    exact .inr ⟨f, rfl, stops⟩
  · dsimp only
    rw [Runnable.run_pure]
    exact .inl ⟨t, rfl⟩

/-- What a result does to a contraction, unless the contraction stops. -/
theorem Tracks.get_cases (h : Tracks events c) (operations : ops.Raises raises) {s s' : σ}
    {o : Outcome (Except Error (Tensor E) × Contraction E)}
    (call : Runnable.run (c.get ops result) s = (o, s')) :
    (∃ e c', GetFails events result e ∧ o = .ok (.error e, c') ∧ c'.poisoned = true) ∨
      (∃ t, o = .ok (.ok t, Contraction.empty)) ∨ ∃ f, o = .error f ∧ f.Stops raises := by
  have refuse {e : Error} (fails : GetFails events result e) :
      ∃ e c', GetFails events result e ∧ o = .ok (.error e, c') ∧ c'.poisoned = true := by
    obtain ⟨c', refused, poisoned⟩ := h.get_fails fails ops
    rw [refused, Runnable.run_pure] at call
    exact ⟨e, c', fails, (congrArg Prod.fst call).symm, poisoned⟩
  by_cases refusing : Refusing events
  · exact .inl (refuse (.spent refusing))
  rcases fit_or_unfit (Bound events) result with ⟨distinct, known⟩ | ⟨e, unfit⟩
  · have passes := h.get_passes operations refusing distinct known s
    rw [call] at passes
    exact .inr passes
  · exact .inl (refuse (.unfit refusing unfit))

/-! ## Replies -/

theorem Tracks.add_error_iff (h : Tracks events c) (t : Tensor E) (vars : List Char) (e : Error) :
    (c.add t vars).1 = .error e ↔ AddFails events t vars e := by
  constructor
  · intro refused
    rcases h.add_cases t vars with ⟨e', c', fails, call, -⟩ | ⟨-, c', call, -⟩
    · rw [call] at refused
      cases refused
      exact fails
    · rw [call] at refused
      cases refused
  · intro fails
    obtain ⟨c', call, -⟩ := h.add_fails fails
    rw [call]

theorem Tracks.get_error_iff (h : Tracks events c) (operations : ops.Raises raises) {s s' : σ}
    {reply : Except Error (Tensor E)}
    (call : Runnable.run (c.get ops result) s = (.ok (reply, c'), s')) (e : Error) :
    reply = .error e ↔ GetFails events result e := by
  constructor
  · rintro rfl
    rcases h.get_cases operations call with ⟨e', c', fails, ⟨⟩, -⟩ | ⟨t, ⟨⟩⟩ | ⟨f, ⟨⟩, -⟩
    exact fails
  · intro fails
    obtain ⟨d, refused, -⟩ := h.get_fails fails ops
    rw [refused, Runnable.run_pure] at call
    cases call
    rfl

/-! ## All calls -/

theorem Tracks.add (h : Tracks events c) {reply : Except Error Unit}
    (call : c.add t vars = (reply, c')) : Tracks (.added t vars reply :: events) c' := by
  rcases h.add_cases t vars with ⟨e, d, -, call', poisoned⟩ | ⟨accepting, d, call', sizes⟩
  · cases call.symm.trans call'
    exact .refused rfl poisoned
  · cases call.symm.trans call'
    have accepting' : ¬ Refusing (.added t vars (.ok ()) :: events) := by
      rw [refusing_cons (e := .added t vars (.ok ())) Bool.false_ne_true]
      exact not_or_intro Bool.false_ne_true accepting
    obtain ⟨wellBound, -⟩ := (h.wellBound accepting).add call
    refine ⟨⟨fun poisoned => ?_, fun refusing => absurd refusing accepting'⟩, fun _ => wellBound,
      fun _ v => ?_⟩
    · rw [wellBound.accepts] at poisoned
      cases poisoned
    · rw [bindings_cons (e := .added t vars (.ok ())) Bool.false_ne_true]
      exact sizes v

theorem Tracks.get (h : Tracks events c) (operations : ops.Raises raises) {s s' : σ}
    {reply : Except Error (Tensor E)}
    (call : Runnable.run (c.get ops result) s = (.ok (reply, c'), s')) :
    Tracks (.got result reply :: events) c' := by
  rcases h.get_cases operations call with ⟨e, d, -, ⟨⟩, poisoned⟩ | ⟨t, ⟨⟩⟩ | ⟨f, ⟨⟩, -⟩
  · exact .refused rfl poisoned
  · exact .reset rfl

theorem Ran.tracks (operations : ops.Raises raises) (ran : Ran ops events c) :
    Tracks events c := by
  induction ran with
  | start => exact .start
  | add _ call ih => exact ih.add call
  | get _ call ih => exact ih.get operations call
  | clear _ _ => exact .reset rfl

/-- After a call that was refused, the contraction refuses calls until it is cleared. -/
theorem Ran.refusing (operations : ops.Raises raises) {later earlier : List (Event E)} {e : Event E}
    (ran : Ran ops (later ++ e :: earlier) c) (refused : e.refused)
    (uncleared : .cleared ∉ later) : Refusing (later ++ e :: earlier) := by
  induction later generalizing c with
  | nil => exact (refusing_cons (resets_of_refused refused)).mpr (.inl refused)
  | cons x later ih =>
    rw [List.mem_cons, not_or] at uncleared
    cases ran with
    | add before call =>
      refine (refusing_cons ?_).mpr (.inr (ih before uncleared.2))
      exact Bool.false_ne_true
    | get before call =>
      have refusing := ih before uncleared.2
      have tracked := before.tracks operations
      rw [get_spent (tracked.poisoned.mpr refusing), Runnable.run_pure] at call
      cases call
      exact (refusing_cons (e := .got _ (.error _)) Bool.false_ne_true).mpr (.inr refusing)
    | clear before => exact absurd rfl uncleared.1

/-- After a call that leaves no entries, the contraction is a new one. -/
theorem Ran.reset (operations : ops.Raises raises) {e : Event E}
    (ran : Ran ops (e :: events) c) (resets : e.resets) : c = Contraction.empty := by
  cases ran with
  | add before call => cases resets
  | get before call =>
    rcases (before.tracks operations).get_cases operations call with
      ⟨e, d, -, ⟨⟩, -⟩ | ⟨t, ⟨⟩⟩ | ⟨f, ⟨⟩, -⟩
    · cases resets
    · rfl
  | clear before => rfl

/-- Whatever was called before, an entry is refused as `AddFails` tells, and a result as `GetFails`
does; only numbers that leave their range, or the operations, can stop a call.  After a call that was
refused, all are refused until the contraction is cleared; once it is, or has given a result, it is a
new one. -/
theorem refused_iff (operations : ops.Raises raises) (own : ∀ cause, ¬ raises (.error cause))
    (ran : Ran ops events c) :
    (∀ t vars e, (c.add t vars).1 = .error e ↔ AddFails events t vars e) ∧
    (∀ result s,
      (∃ f, (Runnable.run (c.get ops result) s).1 = .error f ∧ f.Stops raises ∧
        ∀ cause, f ≠ .error cause) ∨
      ∃ reply c', (Runnable.run (c.get ops result) s).1 = .ok (reply, c') ∧
        ∀ e, reply = .error e ↔ GetFails events result e) ∧
    (∀ later e earlier, events = later ++ e :: earlier → e.refused → .cleared ∉ later →
      (∀ t vars, c.add t vars = (.error (.spent .contraction), c)) ∧
        ∀ result, c.get ops result = pure (.error (.spent .contraction), c)) ∧
    ∀ e earlier, events = e :: earlier → e.resets → c = empty := by
  have tracked := ran.tracks operations
  refine ⟨tracked.add_error_iff, fun result s => ?_, ?_, ?_⟩
  · rcases run : Runnable.run (c.get ops result) s with ⟨f | ⟨reply, c'⟩, s'⟩
    · rcases tracked.get_cases operations run with ⟨e, d, -, ⟨⟩, -⟩ | ⟨t, ⟨⟩⟩ | ⟨_, ⟨⟩, stops⟩
      exact .inl ⟨f, rfl, stops, stops.ne_error own⟩
    · exact .inr ⟨reply, c', rfl, tracked.get_error_iff operations run⟩
  · rintro later e earlier rfl refused uncleared
    have poisoned := tracked.poisoned.mpr (ran.refusing operations refused uncleared)
    exact ⟨add_spent poisoned, get_spent poisoned ops⟩
  · rintro e earlier rfl resets
    exact ran.reset operations resets

/-- Integers of 64 bits only overflow. -/
theorem raises_counting : SemiringOps.counting.Raises (· = .overflow) := by
  have check (n : Int) : Fails (· = .overflow) (Whole.check n) := by
    rintro ⟨⟩ e he
    change Whole.check n = .error e at he
    unfold Whole.check at he
    split at he
    · cases he
    · cases he
      rfl
  exact ⟨fun a b => check (a * b), fun elems => .foldlM (fun a b => check (a + b)) elems 0⟩

/-- Two rows and two columns. -/
def square : Tensor Int := ⟨[2, 2], [1, 2, 3, 4], rfl⟩

/-- The square, added to a new contraction. -/
def squareOnly : Contraction Int := ⟨[⟨square, ['i', 'j']⟩], [('i', 2), ('j', 2)], false⟩

/-- What a refused result leaves of it. -/
def squareLost : Contraction Int := ⟨[], [('i', 2), ('j', 2)], true⟩

/-- A result with a variable of no entry is refused, and so is every later entry. -/
theorem refused_iff_square :
    squareOnly.get SemiringOps.counting ['i', 'k'] = .ok (.error (.unboundVariable 'k'), squareLost) ∧
      GetFails [.added square ['i', 'j'] (.ok ())] ['i', 'k'] (.unboundVariable 'k') ∧
      ∀ t vars, squareLost.add t vars = (.error (.spent .contraction), squareLost) := by
  have ran : Ran SemiringOps.counting [.added square ['i', 'j'] (.ok ())] squareOnly :=
    .add .start rfl
  have refused : squareOnly.get SemiringOps.counting ['i', 'k'] =
      .ok (.error (.unboundVariable 'k'), squareLost) := rfl
  refine ⟨refused, ?_, ?_⟩
  · obtain ⟨-, results, -⟩ := refused_iff raises_counting nofun ran
    rcases results ['i', 'k'] () with ⟨f, stopped, -⟩ | ⟨reply, c, run, fails⟩
    · cases stopped.symm.trans refused
    · cases run.symm.trans refused
      exact (fails _).mp rfl
  · have call : Runnable.run (squareOnly.get SemiringOps.counting ['i', 'k']) () =
        (.ok (.error (.unboundVariable 'k'), squareLost), ()) := rfl
    have ran' : Ran SemiringOps.counting [.got ['i', 'k'] (.error (.unboundVariable 'k')),
        .added square ['i', 'j'] (.ok ())] squareLost := .get ran call
    obtain ⟨-, -, spent, -⟩ := refused_iff raises_counting nofun ran'
    exact (spent [] _ _ rfl rfl List.not_mem_nil).1

end Contraction

end FiniteStructures
