import ScriptMachine.Proofs.Machine.Bookkeeping

/-!
# What leaves the bindings of threads alone

Threads are bound to contexts by enters and released by exits, wherever these come from: a host
program, the two ends of a bracket, or a panic that goes through one. `State.operation?` is the
one that the next step begins. A step that begins none leaves every binding as it is
(`Config.step_quiet`), whatever else it does: scripts, policies and listeners included.
-/

namespace ScriptMachine

variable {σ : Type} {α β goal : Kind}

/-- The thread that a context is bound to, and how often it was entered. -/
def Context.binding (cx : Context) : Option (Id .thread) × Nat := (cx.boundTo, cx.enterCount)

theorem Context.binding_countInstruction (cx : Context) :
    cx.countInstruction.2.binding = cx.binding := by
  unfold countInstruction
  split
  · rfl
  · dsimp only
    split <;> rfl

namespace Store

variable {m m' m'' : Store σ}

/-- The binding of a context. -/
def binding (m : Store σ) (c : Id .context) : Option (Id .thread) × Nat := (m.context c).binding

/-- The threads are bound as before. -/
structure SameBindings (m m' : Store σ) : Prop where
  registry : m'.bindings = m.bindings
  contexts : ∀ c, m'.binding c = m.binding c

theorem SameBindings.refl (m : Store σ) : m.SameBindings m := ⟨rfl, fun _ => rfl⟩

theorem SameBindings.trans (h : m.SameBindings m') (h' : m'.SameBindings m'') :
    m.SameBindings m'' :=
  ⟨h'.registry.trans h.registry, fun c => (h'.contexts c).trans (h.contexts c)⟩

theorem SameBindings.current? (h : m.SameBindings m') (t : Id .thread) :
    m'.current? t = m.current? t := by
  rw [Store.current?, h.registry, Store.current?]

theorem sameBindings_of_eq (hcontexts : m'.contexts = m.contexts)
    (hbindings : m'.bindings = m.bindings) : m.SameBindings m' :=
  ⟨hbindings, fun c => by rw [binding, context, hcontexts]; rfl⟩

theorem sameBindings_modifyContext (m : Store σ) (other : Id .context) {f : Context → Context}
    (hf : (f (m.context other)).binding = (m.context other).binding) :
    m.SameBindings (m.modifyContext other f) := by
  refine ⟨rfl, ?_⟩
  intro c
  by_cases hc : c = other
  · subst hc
    by_cases hknown : m.Knows c
    · rw [binding, context_modifyContext hknown, hf, binding]
    · -- a context that was not made has the default state before and after
      have hnone : m.contexts.get? c = none := by simpa [Knows] using hknown
      simp only [binding, context, modifyContext, Table.get, Table.get?_modify, if_true, hnone,
        Option.map_none]
  · rw [binding, context_modifyContext_of_ne hc, binding]

/-- A context that was just made is bound to nobody. -/
theorem sameBindings_insert (m : Store σ) {cx : Context} (hcx : cx.binding = (none, 0)) :
    m.SameBindings { m with contexts := (m.contexts.insert cx).2 } := by
  refine ⟨rfl, ?_⟩
  intro c
  by_cases hc : c = m.contexts.next
  · subst hc
    have hnone : m.contexts.get? m.contexts.next = none := by simp [Table.get?, Table.next]
    simp only [binding, context, Table.get, Table.get?_insert, if_true, hnone, Option.getD_some,
      Option.getD_none, hcx]
    rfl
  · simp only [binding, context, Table.get, Table.get?_insert, if_neg hc]

theorem sameBindings_newContext (m : Store σ) (f : Id .factory) :
    m.SameBindings (m.newContext f).2 := sameBindings_insert m rfl

theorem sameBindings_plannedContext (m : Store σ) (f : Id .factory) (plan : ContextPlan) :
    m.SameBindings (m.plannedContext f plan).2 := sameBindings_insert m rfl

theorem bindings_createExecutable (host : Host σ) (thread : Id .thread) (m : Store σ)
    (kind : RoutineKind) (r : SharedRoutine) (domain : Option Payload) :
    (m.createExecutable host thread kind r domain).2.bindings = m.bindings := by
  unfold createExecutable
  split
  · rfl
  · split
    · rfl
    · split
      · rfl
      · split
        · rfl
        · split <;> rfl

theorem bindings_requestCapture {c : Id .context} {p : Pending}
    (h : m.requestCapture c = .ok (p, m')) : m'.bindings = m.bindings := by
  obtain ⟨continuations, rfl⟩ := requestCapture_frame h
  rfl

/-- No query binds or releases a context. -/
theorem sameBindings_ask (host : Host σ) (thread : Id .thread) (m : Store σ) (q : Query σ) :
    m.SameBindings (q.perform host thread m).2 := by
  cases q with
  | context q =>
    cases q with
    | create f => exact sameBindings_newContext _ _
    | setController c controller =>
      simp only [Query.perform, ContextQuery.perform]
      split
      · exact .refl m
      · exact sameBindings_modifyContext _ _ rfl
    | requestCapture c =>
      simp only [Query.perform, ContextQuery.perform]
      split
      · next h => exact sameBindings_of_eq (contexts_requestCapture h) (bindings_requestCapture h)
      · exact .refl m
    | state | current | hasFeature => exact .refl m
    | setVersion | setThreshold | setFrameLimit | setCountsGenerated | setExtension =>
      exact sameBindings_modifyContext _ _ rfl
  | code q =>
    cases q with
    | share r => exact sameBindings_of_eq rfl rfl
    | create kind r domain =>
      exact sameBindings_of_eq (contexts_createExecutable host thread m kind r domain)
        (bindings_createExecutable host thread m kind r domain)
    | nested e index =>
      simp only [Query.perform, CodeQuery.perform]
      split <;> exact sameBindings_of_eq rfl rfl
  | _ => exact sameBindings_of_eq rfl rfl

end Store

/-! ## Operations -/

/-- An enter or an exit that is about to begin, and what waits for its result. -/
structure Operation (σ : Type) (goal : Kind) where
  action : Action
  rest : Stack σ action.kind goal

/-- The enter or exit that the next step begins. -/
def State.operation? : State σ goal → Option (Operation σ goal)
  | .running (.act (.enter f requested) k) s => some ⟨.enter f requested, .cons (.program k) s⟩
  | .running (.act .exit k) s => some ⟨.exit, .cons (.program k) s⟩
  | .running (.bracket f body k) s =>
    some ⟨.enter f none, .cons (.bracketBody body) (.cons (.program k) s)⟩
  | .returning _ (.cons .release s) => some ⟨.exit, .cons .released s⟩
  | .panicking (.cons .release s) => some ⟨.exit, .cons .repanic s⟩
  | _ => none

/-- A step that begins an operation does nothing else. -/
theorem Config.step_of_operation (host : Host σ) (thread : Id .thread) {X : Config σ goal}
    {o : Operation σ goal} (h : X.state.operation? = some o) :
    X.step host thread = beginAction host thread X.store o.action o.rest := by
  obtain ⟨m, state⟩ := X
  dsimp only at h
  unfold State.operation? at h
  split at h <;> cases h <;> rfl

/-! ## Steps that begin no operation -/

/-- No made context waits to be bound when the task is given its result. -/
def Task.Plainly (rest : Prop) : Task σ α β → Prop
  | .bindMade => False
  | _ => rest

/-- No made context waits to be bound. -/
def Stack.IsPlain : {α : Kind} → Stack σ α goal → Prop
  | _, .nil => True
  | _, .cons t rest => t.Plainly rest.IsPlain

/-- No made context waits to be bound beneath what runs. -/
def State.IsPlain : State σ goal → Prop
  | .running _ s | .calling _ _ s | .counting _ s | .executing _ s | .returning _ s
  | .panicking s => s.IsPlain
  | .crashed => True

/-- The threads are bound as in an earlier store, and no made context waits to be bound. -/
def Config.IsQuiet (m₀ : Store σ) (X : Config σ goal) : Prop :=
  m₀.SameBindings X.store ∧ X.state.IsPlain

/-- The same of a store and a stack. -/
def Stack.IsQuiet (m₀ m : Store σ) (s : Stack σ α goal) : Prop := m₀.SameBindings m ∧ s.IsPlain

namespace Stack.IsQuiet

variable {m₀ m m' : Store σ} {s : Stack σ α goal}

theorem after (h : s.IsQuiet m₀ m) (hm : m.SameBindings m') : s.IsQuiet m₀ m' :=
  ⟨h.1.trans hm, h.2⟩

theorem of_eq (h : s.IsQuiet m₀ m) (hcontexts : m'.contexts = m.contexts)
    (hbindings : m'.bindings = m.bindings) : s.IsQuiet m₀ m' :=
  h.after (Store.sameBindings_of_eq hcontexts hbindings)

theorem modifyContext (h : s.IsQuiet m₀ m) (c : Id .context) {f : Context → Context}
    (hf : (f (m.context c)).binding = (m.context c).binding) :
    s.IsQuiet m₀ (m.modifyContext c f) := h.after (Store.sameBindings_modifyContext m c hf)

end Stack.IsQuiet

namespace Config

variable (host : Host σ) (thread : Id .thread) {m₀ m : Store σ}

theorem follow_quiet {s : Stack σ .exit goal} (h : s.IsQuiet m₀ m) (c : Id .context)
    (flow : Flow) : (follow m c flow s).IsQuiet m₀ := by
  cases flow with
  | next a => exact h
  | leave e => exact h.modifyContext c rfl

theorem execute_quiet {s : Stack σ .exit goal} (h : s.IsQuiet m₀ m) (a : Activation) :
    (execute m a s).IsQuiet m₀ := by
  have hcontexts := (a.execute_frame m).1
  have hbindings : (a.execute m).2.bindings = m.bindings := by rw [a.execute_eq]; rfl
  unfold execute
  split
  · next heq =>
    rw [heq] at hcontexts hbindings
    exact follow_quiet (h.of_eq hcontexts hbindings) _ _
  · next heq =>
    rw [heq] at hcontexts hbindings
    exact h.of_eq hcontexts hbindings

theorem beginActivation_quiet {s : Stack σ .exit goal} (h : s.IsQuiet m₀ m) (c : Id .context)
    (frames : List Frame) (isGenerator : Bool) :
    (beginActivation m c frames isGenerator s).IsQuiet m₀ := h.modifyContext c rfl

variable {s : Stack σ .completion goal}

theorem interpret_quiet (h : s.IsQuiet m₀ m) (e : Executable) (site : CallSite) :
    (interpret m e site s).IsQuiet m₀ := by
  unfold interpret
  dsimp only
  split
  · exact h.of_eq rfl rfl
  · exact beginActivation_quiet (s := .cons .callEnd s) h _ _ _

theorem beginOutermost_quiet (h : s.IsQuiet m₀ m) (f : Callable) (site : CallSite)
    (isStrict : Bool) : (beginOutermost host m f site isStrict s).IsQuiet m₀ := by
  unfold beginOutermost
  split
  · exact h
  · dsimp only
    split <;> exact h.modifyContext _ rfl

theorem beginCapturing_quiet (h : s.IsQuiet m₀ m) (f : Callable) (c : Id .context)
    (scope : Id .scope) (args : List Value) (isStrict : Bool) :
    (beginCapturing host m f c scope args isStrict s).IsQuiet m₀ :=
  beginOutermost_quiet host (s := .cons (.restoreCaptures c (m.context c).acceptsCaptures) s)
    (Stack.IsQuiet.modifyContext (s := s) h c rfl) _ _ _

theorem beginStep_quiet {s : Stack σ .step goal} (h : s.IsQuiet m₀ m) (g : Generator)
    (op : GeneratorOp) (c : Id .context) (v : Value) : (beginStep m g op c v s).IsQuiet m₀ := by
  have hput (state : GeneratorState) : (Stack.cons (.bodyEnd g) s).IsQuiet m₀
      { m with generators := m.generators.set g.id state } :=
    Stack.IsQuiet.of_eq (s := s) h rfl rfl
  unfold beginStep
  dsimp only
  split
  · cases op <;> exact h
  · split
    · exact h
    · split
      · cases op with
        | next => exact beginActivation_quiet (hput _) _ _ _
        | throw | «return» =>
          dsimp only
          split
          · exact beginActivation_quiet (hput _) _ _ _
          · exact hput _
      · cases op with
        | next => exact beginActivation_quiet (hput _) _ _ _
        | throw | «return» => exact hput _

theorem beginResumption_quiet {s : Stack σ .step goal} (h : s.IsQuiet m₀ m) (via : Executable)
    (g : Generator) (op : GeneratorOp) (c : Id .context) (scope : Id .scope) (v : Value) :
    (beginResumption host m via g op c scope v s).IsQuiet m₀ := by
  have hinsert (resumptions : Table .resumption Resumption) :
      s.IsQuiet m₀ { m with resumptions } := h.of_eq rfl rfl
  unfold beginResumption
  split
  · exact h
  · split
    · exact beginStep_quiet h _ _ _ _
    · exact beginOutermost_quiet host (s := .cons (.reportStep _) s) (hinsert _) _ _ _

theorem beginContinuation_quiet (h : s.IsQuiet m₀ m) (k : Id .continuation) (v : Value)
    (c : Id .context) : (beginContinuation m k v c s).IsQuiet m₀ := by
  unfold beginContinuation
  split
  · exact h
  · next htake =>
    obtain ⟨continuations, rfl⟩ := Store.takeFrames_frame htake
    exact h.of_eq rfl rfl
  · next htake =>
    obtain ⟨continuations, rfl⟩ := Store.takeFrames_frame htake
    have hs : s.IsQuiet m₀ { m with continuations } := h.of_eq rfl rfl
    exact beginActivation_quiet (s := .cons .callEnd s) hs _ _ _

theorem beginCall_quiet (h : s.IsQuiet m₀ m) (f : Callable) (site : CallSite) :
    (beginCall host m f site s).IsQuiet m₀ := by
  cases f with
  | executable e =>
    simp only [beginCall]
    split
    · exact interpret_quiet h _ _
    · exact beginOutermost_quiet host h _ _ _
  | hostFunction f => exact h
  | resumption r g op =>
    have hs (resumptions : Table .resumption Resumption) :
        s.IsQuiet m₀ { m with resumptions } := h.of_eq rfl rfl
    exact beginStep_quiet (s := .cons (.recordStep r) s) (hs _) _ _ _ _
  | continuation k v => exact beginContinuation_quiet h _ _ _

theorem beginMake_quiet {s : Stack σ .made goal} (h : s.IsQuiet m₀ m) (f : Id .factory) :
    (beginMake host m f s).IsQuiet m₀ := by
  unfold beginMake
  split
  · exact h.after (Store.sameBindings_newContext _ _)
  · exact h.after (Store.sameBindings_plannedContext _ _ _)
  · exact h

theorem beginCapturingCall_quiet (h : s.IsQuiet m₀ m) (e : Executable) (c : Id .context)
    (scope : Id .scope) (args : List Value) :
    (beginAction.beginCapturingCall host m e c scope args s).IsQuiet m₀ := by
  unfold beginAction.beginCapturingCall
  split
  · exact h
  · exact beginCapturing_quiet host h _ _ _ _ _

/-- An action that is neither an enter nor an exit. -/
theorem beginAction_quiet {κ : Kind} {a : Action} {next : a.kind.Result → Program σ κ}
    {s : Stack σ κ goal} (h : s.IsQuiet m₀ m)
    (hnone : (State.running (.act a next) s).operation? = none) :
    (beginAction host thread m a (.cons (.program next) s)).IsQuiet m₀ := by
  have hs : (Stack.cons (.program next) s).IsQuiet m₀ m := h
  cases a with
  | call f site => exact h
  | callOutermost f site isStrict => exact beginOutermost_quiet host hs _ _ _
  | execute e c scope =>
    simp only [beginAction]
    split <;> exact hs
  | executeCapturing e c scope =>
    simp only [beginAction]
    split
    · exact hs
    · exact beginCapturingCall_quiet host hs _ _ _ _
  | callCapturing e c scope args => exact beginCapturingCall_quiet host hs _ _ _ _
  | resume k c scope v =>
    simp only [beginAction]
    split
    · exact hs
    · split
      · exact hs
      · exact beginCapturing_quiet host hs _ _ _ _ _
  | step via g op c scope v => exact beginResumption_quiet host hs _ _ _ _ _ _
  | enter f requested => cases hnone
  | exit => cases hnone
  | makeContext f => exact beginMake_quiet host hs _

theorem endBody_quiet {s : Stack σ .step goal} (h : s.IsQuiet m₀ m) (g : Generator)
    (e : Except Abrupt Exit) : (endBody m g e s).IsQuiet m₀ := by
  unfold endBody
  dsimp only
  split <;> exact h.of_eq rfl rfl

theorem take_quiet {t : Task σ α β} {x : α.Result} {s : Stack σ β goal}
    (h : (Stack.cons t s).IsQuiet m₀ m)
    (hnone : (State.returning x (.cons t s)).operation? = none) :
    (take host thread m t x s).IsQuiet m₀ := by
  cases t with
  | clearTopCall c => exact Stack.IsQuiet.modifyContext (s := s) h c rfl
  | restoreCaptures c previous => exact Stack.IsQuiet.modifyContext (s := s) h c rfl
  | flattenResult =>
    cases x with
    | ok v => exact Stack.IsQuiet.of_eq (s := s) h rfl rfl
    | error e => exact h
  | called a =>
    cases x with
    | ok v => exact follow_quiet (s := s) h _ _
    | error e =>
      have hs : s.IsQuiet m₀ (a.fail e m).2 := by
        obtain ⟨continuations, heq⟩ := a.fail_frame m e
        rw [heq]
        exact Stack.IsQuiet.of_eq (s := s) h rfl rfl
      exact follow_quiet hs _ _
  | observed a =>
    cases x with
    | ok u => exact h
    | error reason => exact follow_quiet (s := s) h _ _
  | callEnd =>
    cases x with
    | ok exit => cases exit <;> exact h
    | error e => exact h
  | bodyEnd g => exact endBody_quiet (s := s) h _ _
  | recordStep i =>
    cases x with
    | ok step => exact Stack.IsQuiet.of_eq (s := s) h rfl rfl
    | error e => exact h
  | reportStep i => cases x <;> exact h
  | bindMade => exact absurd h.2 id
  | notifying event c rest => cases rest <;> exact h
  | bracketBody body => cases x <;> exact h
  | release => cases hnone
  | program | entered | left | released | repanic | guarded => exact h

theorem passPanic_quiet {t : Task σ α β} {s : Stack σ β goal} (h : (Stack.cons t s).IsQuiet m₀ m)
    (hnone : (State.panicking (.cons t s)).operation? = none) :
    (passPanic thread m t s).IsQuiet m₀ := by
  cases t with
  | clearTopCall c => exact Stack.IsQuiet.modifyContext (s := s) h c rfl
  | restoreCaptures c previous => exact Stack.IsQuiet.modifyContext (s := s) h c rfl
  | called a | observed a => exact Stack.IsQuiet.modifyContext (s := s) h a.context rfl
  | bindMade => exact absurd h.2 id
  | release => cases hnone
  | repanic => exact ⟨h.1, trivial⟩
  | _ => exact h

theorem runProgram_quiet {κ : Kind} {p : Program σ κ} {s : Stack σ κ goal} (h : s.IsQuiet m₀ m)
    (hnone : (State.running p s).operation? = none) :
    (runProgram host thread m p s).IsQuiet m₀ := by
  cases p with
  | ask q k => exact h.after (Store.sameBindings_ask host thread m q)
  | act a k => exact beginAction_quiet host thread h hnone
  | bracket f body k => cases hnone
  | finish | panic | guard => exact h

theorem count_quiet {s : Stack σ .exit goal} (h : s.IsQuiet m₀ m) (a : Activation) :
    (count host m a s).IsQuiet m₀ := by
  have hm := h.modifyContext a.context (f := fun _ => ((m.context a.context).countInstruction).2)
    (Context.binding_countInstruction _)
  unfold count
  dsimp only
  split <;> exact hm

/-- A step that begins no operation leaves every binding as it is. -/
theorem step_quiet {X : Config σ goal} (h : X.IsQuiet m₀) (hnone : X.state.operation? = none) :
    (X.step host thread).IsQuiet m₀ := by
  obtain ⟨m, state⟩ := X
  cases state with
  | running p s => exact runProgram_quiet host thread h hnone
  | calling f site s => exact beginCall_quiet host h f site
  | counting a s => exact count_quiet host h a
  | executing a s => exact execute_quiet h a
  | returning x s =>
    cases s with
    | nil => exact h
    | cons t s => exact take_quiet host thread h hnone
  | panicking s =>
    cases s with
    | nil => exact h
    | cons t s => exact passPanic_quiet thread h hnone
  | crashed => exact h

end Config

end ScriptMachine
