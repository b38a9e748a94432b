import ScriptMachine.Proofs.Binding.Quiet
import ScriptMachine.Proofs.Capture.Course

/-!
# What an operation does to the bindings

An enter or an exit is performed without another one begun by the listeners and policies that it
runs. Nested enters and exits only count; the first enter of a thread binds a context and the
last exit releases it. `Config.enter_effect` and `Config.exit_effect` list all that can come of
them.
-/

namespace ScriptMachine

variable {σ : Type} {α β goal : Kind}

namespace Store

/-- One context has a new binding, and the table of threads is a given one. -/
structure Rebinds (m : Store σ) (registry : List (Id .thread × Id .context)) (c : Id .context)
    (binding : Option (Id .thread) × Nat) (m' : Store σ) : Prop where
  registry : m'.bindings = registry
  here : m'.binding c = binding
  others : ∀ c', c' ≠ c → m'.binding c' = m.binding c'

variable {m m₁ m' : Store σ} {registry : List (Id .thread × Id .context)} {c : Id .context}
  {b : Option (Id .thread) × Nat}

theorem Rebinds.after (h : m.Rebinds registry c b m₁) (h' : m₁.SameBindings m') :
    m.Rebinds registry c b m' :=
  ⟨h'.registry.trans h.registry, (h'.contexts c).trans h.here,
    fun c' hc' => (h'.contexts c').trans (h.others c' hc')⟩

theorem Rebinds.before (h : m₁.Rebinds registry c b m') (h' : m.SameBindings m₁) :
    m.Rebinds registry c b m' :=
  ⟨h.registry, h.here, fun c' hc' => (h.others c' hc').trans (h'.contexts c')⟩

theorem rebinds_modifyContext (h : m.Knows c) (registry : List (Id .thread × Id .context))
    (f : Context → Context) :
    m.Rebinds registry c (f (m.context c)).binding
      { m.modifyContext c f with bindings := registry } :=
  ⟨rfl, congrArg Context.binding (context_modifyContext h f),
    fun _ hc' => congrArg Context.binding (context_modifyContext_of_ne hc' f)⟩

/-- A context that was not made is bound to nobody. -/
theorem knows_of_binding (h : m.binding c ≠ (none, 0)) : m.Knows c := by
  refine Classical.byContradiction fun hknown => h ?_
  have hnone : m.contexts.get? c = none := by simpa [Knows] using hknown
  rw [binding, context, Table.get, hnone]
  rfl

/-- The table of threads and the contexts agree on who is bound to whom, and exactly the bound
contexts are entered. -/
structure Registered (m : Store σ) : Prop where
  agrees : ∀ t c, m.current? t = some c ↔ (m.binding c).1 = some t
  counts : ∀ c, (m.binding c).1 = none ↔ (m.binding c).2 = 0

theorem Registered.knows (hm : m.Registered) {t : Id .thread} (h : m.current? t = some c) :
    m.Knows c := by
  refine knows_of_binding fun hbinding => ?_
  have hbound := (hm.agrees t c).mp h
  rw [hbinding] at hbound
  cases hbound

end Store

namespace Config

variable (host : Host σ) (thread : Id .thread)

/-- A thread performs an enter or an exit that comes to a result. What it runs on the way begins
no other, and a policy gives a context that was made. -/
def Completes (m : Store σ) (a : Action) (x : a.kind.Result) (m' : Store σ) : Prop :=
  (∃ n, (ofAction host thread m a).run host thread n = give m' a.kind x .nil) ∧
    (∀ i, ((ofAction host thread m a).run host thread i).state.operation? = none) ∧
    ∀ (i : Nat) (m₁ : Store σ) (c : Id .context) (s : Stack σ .entered a.kind),
      (ofAction host thread m a).run host thread i = give m₁ .made c (.cons .bindMade s) →
      m₁.Knows c

/-- The context that an enter is to bind to a thread that has none: the one that is requested, or
the one that the factory makes. -/
def Proposes (m : Store σ) (f : Id .factory) (requested : Option (Id .context))
    (c : Id .context) : Prop :=
  requested = some c ∨ requested = none ∧ ∃ (i : Nat) (m₁ : Store σ),
    (ofAction host thread m (.makeContext f)).run host thread i = give m₁ .made c .nil

variable {host thread} {m₀ m m' : Store σ}

/-! ## How operations begin -/

section Begin

variable (host) (thread)

/-- A thread that is bound enters its context once more. -/
theorem exists_beginEnter_nested {c : Id .context} (hknown : m.Knows c)
    (hcurrent : m.current? thread = some c) (f : Id .factory) (requested : Option (Id .context))
    (s : Stack σ .entered goal) :
    ∃ m', m.Rebinds m.bindings c ((m.binding c).1, (m.binding c).2 + 1) m' ∧
      beginEnter host thread m f requested s = give m' .entered (.ok c) s := by
  refine ⟨_, Store.rebinds_modifyContext hknown m.bindings
    fun cx => { cx with enterCount := cx.enterCount + 1 }, ?_⟩
  simp only [beginEnter, hcurrent]
  rfl

/-- A bound context is refused. -/
theorem exists_beginBind_bound {c : Id .context} (hbound : (m.binding c).1.isSome)
    (s : Stack σ .entered goal) :
    ∃ cause, beginBind thread m c s = give m .entered (.error (.illegalState cause)) s := by
  obtain ⟨owner, howner⟩ := Option.isSome_iff_exists.mp hbound
  have hbind : (m.context c).bind thread =
      .error (if owner = thread then .boundTwice else .boundToOtherThread) := by
    simp only [Context.bind, show (m.context c).boundTo = some owner from howner]
  exact ⟨_, by rw [beginBind, hbind]⟩

/-- A context that is not bound is bound once. -/
theorem exists_beginBind_free {c : Id .context} (hknown : m.Knows c)
    (hfree : (m.binding c).1 = none) (s : Stack σ .entered goal) :
    ∃ m', m.Rebinds ((thread, c) :: m.bindings.filter (·.1 != thread)) c (some thread, 1) m' ∧
      beginBind thread m c s = beginNotify m' .created c (.cons (.entered c) s) := by
  have hbind : (m.context c).bind thread =
      .ok { m.context c with boundTo := some thread, enterCount := 1 } := by
    simp only [Context.bind, show (m.context c).boundTo = none from hfree]
  refine ⟨_, Store.rebinds_modifyContext hknown _
    fun _ => { m.context c with boundTo := some thread, enterCount := 1 }, ?_⟩
  rw [beginBind, hbind]
  rfl

variable {thread} in
/-- A thread that is bound to nothing has nothing to exit. -/
theorem beginExit_free (hcurrent : m.current? thread = none) (s : Stack σ .left goal) :
    beginExit thread m s = give m .left (.error (.illegalState .exitWithoutEnter)) s := by
  simp only [beginExit, hcurrent]

/-- An exit that does not release the context. -/
theorem exists_beginExit_nested {c : Id .context} {n : Nat}
    (hcurrent : m.current? thread = some c) (hcount : (m.binding c).2 = n + 2)
    (s : Stack σ .left goal) :
    ∃ m', m.Rebinds m.bindings c ((m.binding c).1, n + 1) m' ∧
      beginExit thread m s = give m' .left (.ok ()) s := by
  have hknown : m.Knows c := Store.knows_of_binding fun h => by
    rw [h] at hcount
    cases hcount
  have hrelease : (m.context c).release =
      .ok (false, { m.context c with enterCount := n + 1 }) := by
    simp only [Context.release, show (m.context c).enterCount = n + 2 from hcount]
  refine ⟨_, Store.rebinds_modifyContext hknown m.bindings
    fun _ => { m.context c with enterCount := n + 1 }, ?_⟩
  simp only [beginExit, hcurrent, hrelease]
  rfl

/-- An exit that releases the context. -/
theorem exists_beginExit_last {c : Id .context} (hcurrent : m.current? thread = some c)
    (hcount : (m.binding c).2 = 1) (s : Stack σ .left goal) :
    ∃ m', m.Rebinds (m.bindings.filter (·.1 != thread)) c (none, 0) m' ∧
      beginExit thread m s = beginNotify m' .released c (.cons .left s) := by
  have hknown : m.Knows c := Store.knows_of_binding fun h => by
    rw [h] at hcount
    cases hcount
  have hrelease : (m.context c).release =
      .ok (true, { m.context c with enterCount := 0, boundTo := none }) := by
    simp only [Context.release, show (m.context c).enterCount = 1 from hcount]
  refine ⟨_, Store.rebinds_modifyContext hknown (m.bindings.filter (·.1 != thread))
    fun _ => { m.context c with enterCount := 0, boundTo := none }, ?_⟩
  simp only [beginExit, hcurrent, hrelease]
  rfl

end Begin

/-! ## Runs that begin no operation -/

theorem operation?_give_nil (m : Store σ) (x : α.Result) :
    (give m α x .nil).state.operation? = none := by
  cases α <;> rfl

/-- An operation that comes to its result in a number of steps. -/
theorem completes_of_run {a : Action} {x : a.kind.Result} {n : Nat}
    (hrun : (ofAction host thread m a).run host thread n = give m' a.kind x .nil)
    (hnone : ∀ i < n, ((ofAction host thread m a).run host thread i).state.operation? = none)
    (hmade : ∀ i < n, ∀ (m₁ : Store σ) (c : Id .context) (s : Stack σ .entered a.kind),
      (ofAction host thread m a).run host thread i = give m₁ .made c (.cons .bindMade s) →
      m₁.Knows c) :
    Completes host thread m a x m' := by
  have hlater (i : Nat) (hi : ¬ i < n) :
      (ofAction host thread m a).run host thread i = give m' a.kind x .nil := by
    obtain ⟨k, rfl⟩ := Nat.exists_eq_add_of_le (Nat.le_of_not_lt hi)
    rw [run_add, hrun, run_give_nil]
  refine ⟨⟨n, hrun⟩, ?_, ?_⟩
  · intro i
    by_cases hi : i < n
    · exact hnone i hi
    · rw [hlater i hi]
      exact operation?_give_nil m' x
  · intro i m₁ c s h
    by_cases hi : i < n
    · exact hmade i hi m₁ c s h
    · rw [hlater i hi] at h
      exact absurd h.symm (onto_cons_ne_give (give m₁ .made c .nil) .bindMade s m' x)

/-- An operation is begun on top of a stack as it is begun alone. -/
theorem operation?_onto {Y : Config σ α} {o : Operation σ α} (h : Y.state.operation? = some o)
    (s : Stack σ α β) : (Y.onto s).state.operation? = some ⟨o.action, o.rest.append s⟩ := by
  obtain ⟨m, state⟩ := Y
  dsimp only at h
  unfold State.operation? at h
  split at h <;> cases h <;> rfl

theorem operation?_of_onto {Y : Config σ α} {s : Stack σ α β}
    (h : (Y.onto s).state.operation? = none) : Y.state.operation? = none := by
  cases hY : Y.state.operation? with
  | none => rfl
  | some o =>
    rw [operation?_onto hY s] at h
    cases h

theorem run_quiet {X : Config σ goal} (h : X.IsQuiet m₀) {n : Nat}
    (hnone : ∀ i < n, (X.run host thread i).state.operation? = none) :
    (X.run host thread n).IsQuiet m₀ := by
  induction n generalizing X with
  | zero => exact h
  | succ n ih =>
    rw [run]
    refine ih (step_quiet host thread h (hnone 0 (Nat.succ_pos n))) ?_
    intro i hi
    exact hnone (i + 1) (Nat.succ_lt_succ hi)

/-- What is not begun by a run is not begun later in it. -/
theorem none_of_run {X Y : Config σ goal}
    (hnone : ∀ i, (X.run host thread i).state.operation? = none) {k : Nat}
    (hk : X.run host thread k = Y) (i : Nat) : (Y.run host thread i).state.operation? = none := by
  rw [← hk, ← run_add]
  exact hnone (k + i)

/-- Listeners are told about an event, and then a task gives its result. -/
theorem quiet_of_notify {t : Task σ .done β} {event : ContextEvent} {c : Id .context}
    (hpasses : (Stack.cons t .nil).IsOpen) (hplain : (Stack.cons t .nil).IsPlain) {y : β.Result}
    (hstep : ∀ m : Store σ, (give m .done () (.cons t .nil)).step host thread = give m β y .nil)
    {n : Nat} {x : β.Result}
    (hrun : (beginNotify m event c (.cons t .nil)).run host thread n = give m' β x .nil)
    (hnone : ∀ i, ((beginNotify m event c (.cons t .nil)).run host thread
      i).state.operation? = none) :
    m.SameBindings m' ∧ x = y := by
  have hquiet : (beginNotify m event c (.cons t .nil)).IsQuiet m := ⟨.refl m, hplain⟩
  have hend := run_quiet hquiet (n := n) fun i _ => hnone i
  rw [hrun] at hend
  refine ⟨hend.1, ?_⟩
  have honto : beginNotify m event c (.cons t .nil) =
      (beginNotify m event c .nil).onto (.cons t .nil) := rfl
  rw [honto] at hrun
  obtain ⟨k, m₁, u, -, -, -, hrest⟩ := exists_result_of_onto hpasses hrun
  have hresult : (give m₁ .done u (.cons t .nil)).run host thread 1 = give m₁ β y .nil := hstep m₁
  exact ((eq_of_run_give hresult hrest).2).symm

/-! ## Enters -/

/-- A bound context is refused; one that is not bound is bound once. -/
theorem bind_effect {c : Id .context} (hknown : m.Knows c) {n : Nat}
    {x : Except Fault (Id .context)}
    (hrun : (beginBind thread m c .nil).run host thread n = give m' .entered x .nil)
    (hnone : ∀ i, ((beginBind thread m c .nil : Config σ .entered).run host thread
      i).state.operation? = none) :
    ((m.binding c).1 = none ∧ x = .ok c ∧
      m.Rebinds ((thread, c) :: m.bindings.filter (·.1 != thread)) c (some thread, 1) m') ∨
    ((m.binding c).1.isSome ∧ (∃ cause, x = .error (.illegalState cause)) ∧
      m.SameBindings m') := by
  cases hbound : (m.binding c).1 with
  | some owner =>
    obtain ⟨cause, hbegin⟩ :=
      exists_beginBind_bound thread (by rw [hbound]; rfl) (.nil : Stack σ .entered .entered)
    rw [hbegin, run_give_nil] at hrun
    cases hrun
    exact .inr ⟨rfl, ⟨cause, rfl⟩, .refl m⟩
  | none =>
    obtain ⟨m₁, hrebinds, hbegin⟩ :=
      exists_beginBind_free thread hknown hbound (.nil : Stack σ .entered .entered)
    rw [hbegin] at hrun hnone
    have hpasses : (Stack.cons (Task.entered c : Task σ .done .entered) .nil).IsOpen :=
      ⟨trivial, trivial⟩
    obtain ⟨hsame, rfl⟩ := quiet_of_notify (y := .ok c) hpasses trivial (fun _ => rfl) hrun hnone
    exact .inl ⟨rfl, rfl, hrebinds.after hsame⟩

/-- There is one context to bind. -/
theorem Proposes.unique {f : Id .factory} {requested : Option (Id .context)} {c c' : Id .context}
    (h : Proposes host thread m f requested c) (h' : Proposes host thread m f requested c') :
    c = c' := by
  rcases h with rfl | ⟨rfl, i, m₁, hi⟩
  · rcases h' with h' | ⟨h', -⟩
    · exact Option.some.inj h'
    · cases h'
  · rcases h' with h' | ⟨-, i', m₂, hi'⟩
    · cases h'
    · exact (eq_of_run_give hi hi').2

/-- A factory makes a context and leaves the bindings alone; the context waits to be bound. -/
theorem exists_made (hcurrent : m.current? thread = none) {f : Id .factory}
    {x : Except Fault (Id .context)} (h : Completes host thread m (.enter f none) x m') :
    ∃ (k n : Nat) (m₁ : Store σ) (c : Id .context), Proposes host thread m f none c ∧
      (ofAction host thread m (.enter f none)).run host thread k =
        give m₁ .made c (.cons .bindMade .nil) ∧
      m.SameBindings m₁ ∧ m₁.Knows c ∧
      (give m₁ .made c (.cons .bindMade .nil)).run host thread n = give m' .entered x .nil := by
  obtain ⟨⟨n, hrun⟩, hnone, hmade⟩ := h
  have hbegin : ofAction host thread m (.enter f none) =
      (beginMake host m f .nil).onto (.cons .bindMade .nil) := by
    simp only [ofAction, beginAction, beginEnter, hcurrent]
    exact beginMake_append host m f .nil (.cons .bindMade .nil)
  have hpasses : (Stack.cons (Task.bindMade : Task σ .made .entered) .nil).IsOpen :=
    ⟨trivial, trivial⟩
  rw [hbegin] at hrun
  obtain ⟨k, m₁, c, -, hk, honto, hrest⟩ := exists_result_of_onto hpasses hrun
  rw [← hbegin] at honto
  have hwaits : (ofAction host thread m (.enter f none)).run host thread k =
      give m₁ .made c (.cons .bindMade .nil) := by
    rw [honto k (Nat.le_refl k), hk]
    rfl
  have hquiet : (beginMake host m f .nil : Config σ .made).IsQuiet m :=
    beginMake_quiet host (s := .nil) ⟨.refl m, trivial⟩ f
  have hend := run_quiet hquiet (n := k) fun i hi => by
    refine operation?_of_onto (s := .cons .bindMade .nil) ?_
    rw [← honto i (Nat.le_of_lt hi)]
    exact hnone i
  rw [hk] at hend
  exact ⟨k, n, m₁, c, .inr ⟨rfl, k, m₁, hk⟩, hwaits, hend.1, hmade k m₁ c .nil hwaits, hrest⟩

/-- The context that a factory makes is bound to a thread that has none, unless it is bound. -/
theorem make_effect (hcurrent : m.current? thread = none) {f : Id .factory}
    {x : Except Fault (Id .context)} (h : Completes host thread m (.enter f none) x m') :
    ∃ c, Proposes host thread m f none c ∧
      (((m.binding c).1 = none ∧ x = .ok c ∧
        m.Rebinds ((thread, c) :: m.bindings.filter (·.1 != thread)) c (some thread, 1) m') ∨
      ((m.binding c).1.isSome ∧ (∃ cause, x = .error (.illegalState cause)) ∧
        m.SameBindings m')) := by
  obtain ⟨k, n, m₁, c, hproposes, hwaits, hsame, hknown, hrest⟩ := exists_made hcurrent h
  refine ⟨c, hproposes, ?_⟩
  have hcontext : m₁.binding c = m.binding c := hsame.contexts c
  have hnext := run_step_of_give hrest
  by_cases hbound : (m₁.context c).boundTo.isSome
  · have hstep : (give m₁ .made c (.cons .bindMade .nil)).step host thread =
        give m₁ .entered (.error (.illegalState .madeBoundContext)) .nil := if_pos hbound
    rw [hstep, run_give_nil] at hnext
    cases hnext
    refine .inr ⟨?_, ⟨_, rfl⟩, hsame⟩
    rw [← hcontext]
    exact hbound
  · have hstep : (give m₁ .made c (.cons .bindMade .nil)).step host thread =
        beginBind thread m₁ c .nil := if_neg hbound
    have hnone := none_of_run h.2.1 (k := k + 1) (by rw [run_add, hwaits, run_one, hstep])
    rw [hstep] at hnext
    rcases bind_effect hknown hnext hnone with ⟨hfree, hx, hm'⟩ | ⟨hbound', -⟩
    · rw [hcontext] at hfree
      rw [hsame.registry] at hm'
      exact .inl ⟨hfree, hx, hm'.before hsame⟩
    · exact absurd hbound' hbound

/-- A thread that is bound to a context enters it once more. -/
theorem reenter_effect (hm : m.Registered) {c : Id .context}
    (hcurrent : m.current? thread = some c) {f : Id .factory} {requested : Option (Id .context)}
    {x : Except Fault (Id .context)} (h : Completes host thread m (.enter f requested) x m') :
    x = .ok c ∧ m.Rebinds m.bindings c (some thread, (m.binding c).2 + 1) m' := by
  obtain ⟨⟨n, hrun⟩, -, -⟩ := h
  obtain ⟨m₁, hrebinds, hbegin⟩ :=
    exists_beginEnter_nested host thread (hm.knows hcurrent) hcurrent f requested .nil
  rw [show ofAction host thread m (.enter f requested) = _ from hbegin, run_give_nil] at hrun
  cases hrun
  rw [← (hm.agrees thread c).mp hcurrent]
  exact ⟨rfl, hrebinds⟩

/-- All that can come of an enter. -/
theorem enter_effect (hm : m.Registered) {f : Id .factory} {requested : Option (Id .context)}
    (hrequested : ∀ c, requested = some c → m.Knows c) {x : Except Fault (Id .context)}
    (h : Completes host thread m (.enter f requested) x m') :
    (∃ c, m.current? thread = some c ∧ x = .ok c ∧
      m.Rebinds m.bindings c (some thread, (m.binding c).2 + 1) m') ∨
    (m.current? thread = none ∧ ∃ c, Proposes host thread m f requested c ∧
      (((m.binding c).1 = none ∧ x = .ok c ∧
        m.Rebinds ((thread, c) :: m.bindings.filter (·.1 != thread)) c (some thread, 1) m') ∨
      ((m.binding c).1.isSome ∧ (∃ cause, x = .error (.illegalState cause)) ∧
        m.SameBindings m'))) := by
  cases hcurrent : m.current? thread with
  | some c => exact .inl ⟨c, rfl, reenter_effect hm hcurrent h⟩
  | none =>
    refine .inr ⟨rfl, ?_⟩
    cases requested with
    | none => exact make_effect hcurrent h
    | some c =>
      obtain ⟨⟨n, hrun⟩, hnone, -⟩ := h
      simp only [ofAction, beginAction, beginEnter, hcurrent] at hrun hnone
      exact ⟨c, .inl rfl, bind_effect (hrequested c rfl) hrun hnone⟩

/-! ## Exits -/

/-- All that can come of an exit. -/
theorem exit_effect (hm : m.Registered) {x : Except Fault Unit}
    (h : Completes host thread m .exit x m') :
    (m.current? thread = none ∧ x = .error (.illegalState .exitWithoutEnter) ∧ m' = m) ∨
    (∃ c n, m.current? thread = some c ∧ m.binding c = (some thread, n + 2) ∧ x = .ok () ∧
      m.Rebinds m.bindings c (some thread, n + 1) m') ∨
    (∃ c, m.current? thread = some c ∧ m.binding c = (some thread, 1) ∧ x = .ok () ∧
      m.Rebinds (m.bindings.filter (·.1 != thread)) c (none, 0) m') := by
  obtain ⟨⟨n, hrun⟩, hnone, -⟩ := h
  simp only [ofAction, beginAction] at hrun hnone
  cases hcurrent : m.current? thread with
  | none =>
    rw [beginExit_free hcurrent, run_give_nil] at hrun
    cases hrun
    exact .inl ⟨rfl, rfl, rfl⟩
  | some c =>
    have hbound : (m.binding c).1 = some thread := (hm.agrees thread c).mp hcurrent
    cases hcount : (m.binding c).2 with
    | zero =>
      have hfree := (hm.counts c).mpr hcount
      rw [hbound] at hfree
      cases hfree
    | succ count =>
      cases count with
      | zero =>
        obtain ⟨m₁, hrebinds, hbegin⟩ :=
          exists_beginExit_last thread hcurrent hcount (.nil : Stack σ .left .left)
        rw [hbegin] at hrun hnone
        have hpasses : (Stack.cons (Task.left : Task σ .done .left) .nil).IsOpen :=
          ⟨trivial, trivial⟩
        obtain ⟨hsame, rfl⟩ :=
          quiet_of_notify (y := .ok ()) hpasses trivial (fun _ => rfl) hrun hnone
        exact .inr (.inr ⟨c, rfl, Prod.ext hbound hcount, rfl, hrebinds.after hsame⟩)
      | succ count =>
        obtain ⟨m₁, hrebinds, hbegin⟩ :=
          exists_beginExit_nested thread hcurrent hcount (.nil : Stack σ .left .left)
        rw [hbegin, run_give_nil] at hrun
        cases hrun
        rw [hbound] at hrebinds
        exact .inr (.inl ⟨c, count, rfl, Prod.ext hbound hcount, rfl, hrebinds⟩)

end Config

end ScriptMachine
