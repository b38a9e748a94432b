import ScriptMachine.Proofs.Machine.Bookkeeping

/-!
# What only queries set

Much in the state of a context says how scripts are to be run: the version, the limit of frames,
how often the observer is called. Running changes none of it. A step keeps the settings of every
context and the factories, unless it is a query of host code about them or counts an instruction
(`Config.step_steady`), and a context that is made on the way allows at least one frame.
-/

namespace ScriptMachine

variable {σ : Type} {α β goal : Kind}

/-- A context without what is known of it only while it runs or is bound. -/
def Context.settings (cx : Context) : Context :=
  { cx with topCall := none, acceptsCaptures := false, depth := 0, boundTo := none, enterCount := 0 }

namespace Context

variable {cx cx' : Context}

theorem settings_bind {thread : Id .thread} (h : cx.bind thread = .ok cx') :
    cx'.settings = cx.settings := by
  unfold bind at h
  split at h <;> cases h
  rfl

theorem settings_release {last : Bool} (h : cx.release = .ok (last, cx')) :
    cx'.settings = cx.settings := by
  unfold release at h
  split at h <;> cases h <;> rfl

theorem frameLimit_of_settings (h : cx'.settings = cx.settings) :
    cx'.frameLimit = cx.frameLimit := by
  change cx'.settings.frameLimit = cx.settings.frameLimit
  rw [h]

end Context

namespace Store

variable {m m' m'''' : Store σ} {c : Id .context}

/-- The known contexts keep their settings, new ones allow a frame, and the factories stay. -/
structure Steady (m m' : Store σ) : Prop where
  factories : m'.factories = m.factories
  kept : ∀ c, m.Knows c → m'.Knows c ∧ (m'.context c).settings = (m.context c).settings
  made : ∀ c, ¬ m.Knows c → 1 ≤ (m'.context c).frameLimit

theorem context_of_not_knows (h : ¬ m.Knows c) : m.context c = default := by
  have hnone : m.contexts.get? c = none := by simpa [Knows] using h
  rw [context, Table.get, hnone, Option.getD_none]

namespace Steady

theorem refl (m : Store σ) : m.Steady m where
  factories := rfl
  kept _ h := ⟨h, rfl⟩
  made c h := by
    rw [context_of_not_knows h]
    decide

theorem trans (h : m.Steady m') (h' : m'.Steady m'') : m.Steady m'' where
  factories := h'.factories.trans h.factories
  kept c hc := by
    obtain ⟨hknown, hsettings⟩ := h.kept c hc
    exact ⟨(h'.kept c hknown).1, (h'.kept c hknown).2.trans hsettings⟩
  made c hc := by
    by_cases hknown : m'.Knows c
    · rw [Context.frameLimit_of_settings (h'.kept c hknown).2]
      exact h.made c hc
    · exact h'.made c hknown

theorem of_contexts_eq (h : m'.contexts = m.contexts) (hfactories : m'.factories = m.factories) :
    m.Steady m' where
  factories := hfactories
  kept c hc := by
    simp only [Knows, context, h, and_true]
    exact hc
  made c hc := by
    rw [context, h]
    exact (refl m).made c hc

theorem modifyContext (m : Store σ) (other : Id .context) {f : Context → Context}
    (hf : (f (m.context other)).settings = (m.context other).settings) :
    m.Steady (m.modifyContext other f) where
  factories := rfl
  kept c hc := by
    refine ⟨knows_modifyContext other f hc, ?_⟩
    by_cases h : c = other
    · subst h
      rw [context_modifyContext hc, hf]
    · rw [context_modifyContext_of_ne h]
  made c hc := by
    have hnone : (m.modifyContext other f).context c = default := by
      have hnone : m.contexts.get? c = none := by simpa [Knows] using hc
      simp only [context, Store.modifyContext, Table.get, Table.get?_modify, hnone,
        Option.map_none, ite_self, Option.getD_none]
    rw [hnone]
    decide

theorem insert (m : Store σ) {cx : Context} (hcx : 1 ≤ cx.frameLimit) :
    m.Steady { m with contexts := (m.contexts.insert cx).2 } where
  factories := rfl
  kept c hc := by
    have hne : c ≠ m.contexts.next := by
      rintro rfl
      simp [Knows, Table.get?, Table.next] at hc
    simp only [Knows, context, Table.get, Table.get?_insert, if_neg hne, and_true]
    exact hc
  made c hc := by
    simp only [context, Table.get, Table.get?_insert]
    split
    · exact hcx
    · exact (refl m).made c hc

theorem newContext (m : Store σ) (f : Id .factory) : m.Steady (m.newContext f).2 :=
  insert m (Nat.le_add_left 1 1023)

theorem plannedContext (m : Store σ) (f : Id .factory) (plan : ContextPlan) :
    m.Steady (m.plannedContext f plan).2 := insert m (Nat.le_max_right _ _)

end Steady

end Store

namespace Config

variable (host : Host σ) (thread : Id .thread) {m₀ m : Store σ}

theorem follow_steady (h : m₀.Steady m) (c : Id .context) (flow : Flow) (s : Stack σ .exit goal) :
    m₀.Steady (follow m c flow s).store := by
  cases flow with
  | next a => exact h
  | leave e => exact h.trans (.modifyContext m c rfl)

theorem execute_steady (h : m₀.Steady m) (a : Activation) (s : Stack σ .exit goal) :
    m₀.Steady (execute m a s).store := by
  have hm := h.trans (.of_contexts_eq (a.execute_frame m).1 (by rw [a.execute_eq]; rfl))
  unfold execute
  split
  · next heq =>
    rw [heq] at hm
    exact follow_steady hm _ _ s
  · next heq =>
    rw [heq] at hm
    exact hm

theorem beginActivation_steady (h : m₀.Steady m) (c : Id .context) (frames : List Frame)
    (isGenerator : Bool) (s : Stack σ .exit goal) :
    m₀.Steady (beginActivation m c frames isGenerator s).store :=
  h.trans (.modifyContext m c rfl)

variable (s : Stack σ .completion goal)

theorem interpret_steady (h : m₀.Steady m) (e : Executable) (site : CallSite) :
    m₀.Steady (interpret m e site s).store := by
  unfold interpret
  dsimp only
  split
  · exact h.trans (.of_contexts_eq rfl rfl)
  · exact beginActivation_steady h _ _ _ _

theorem beginOutermost_steady (h : m₀.Steady m) (f : Callable) (site : CallSite)
    (isStrict : Bool) : m₀.Steady (beginOutermost host m f site isStrict s).store := by
  unfold beginOutermost
  split
  · exact h
  · dsimp only
    split <;> exact h.trans (.modifyContext m site.context rfl)

theorem beginCapturing_steady (h : m₀.Steady m) (f : Callable) (c : Id .context)
    (scope : Id .scope) (args : List Value) (isStrict : Bool) :
    m₀.Steady (beginCapturing host m f c scope args isStrict s).store :=
  beginOutermost_steady host _ (h.trans (.modifyContext m c rfl)) _ _ _

theorem beginStep_steady {s : Stack σ .step goal} (h : m₀.Steady m) (g : Generator)
    (op : GeneratorOp) (c : Id .context) (v : Value) :
    m₀.Steady (beginStep m g op c v s).store := by
  have hput (state : GeneratorState) :
      m₀.Steady { m with generators := m.generators.set g.id state } :=
    h.trans (.of_contexts_eq rfl rfl)
  unfold beginStep
  dsimp only
  split
  · cases op <;> exact h
  · split
    · exact h
    · split
      · cases op with
        | next => exact beginActivation_steady (hput _) _ _ _ _
        | throw | «return» =>
          dsimp only
          split
          · exact beginActivation_steady (hput _) _ _ _ _
          · exact hput _
      · cases op with
        | next => exact beginActivation_steady (hput _) _ _ _ _
        | throw | «return» => exact hput _

theorem beginResumption_steady {s : Stack σ .step goal} (h : m₀.Steady m) (via : Executable)
    (g : Generator) (op : GeneratorOp) (c : Id .context) (scope : Id .scope) (v : Value) :
    m₀.Steady (beginResumption host m via g op c scope v s).store := by
  unfold beginResumption
  split
  · exact h
  · split
    · exact beginStep_steady h _ _ _ _
    · have hm (resumptions : Table .resumption Resumption) : m₀.Steady { m with resumptions } :=
        h.trans (.of_contexts_eq rfl rfl)
      exact beginOutermost_steady host (.cons (.reportStep _) s) (hm _) _ _ _

theorem beginContinuation_steady (h : m₀.Steady m) (k : Id .continuation) (v : Value)
    (c : Id .context) : m₀.Steady (beginContinuation m k v c s).store := by
  unfold beginContinuation
  split
  · exact h
  · next htake =>
    obtain ⟨continuations, rfl⟩ := Store.takeFrames_frame htake
    exact h.trans (.of_contexts_eq rfl rfl)
  · next htake =>
    obtain ⟨continuations, rfl⟩ := Store.takeFrames_frame htake
    have hm : m₀.Steady { m with continuations } := h.trans (.of_contexts_eq rfl rfl)
    exact beginActivation_steady hm _ _ _ _

theorem beginCall_steady (h : m₀.Steady m) (f : Callable) (site : CallSite) :
    m₀.Steady (beginCall host m f site s).store := by
  cases f with
  | executable e =>
    simp only [beginCall]
    split
    · exact interpret_steady s h _ _
    · exact beginOutermost_steady host s h _ _ _
  | hostFunction f => exact h
  | resumption r g op =>
    have hm (resumptions : Table .resumption Resumption) : m₀.Steady { m with resumptions } :=
      h.trans (.of_contexts_eq rfl rfl)
    exact beginStep_steady (hm _) _ _ _ _
  | continuation k v => exact beginContinuation_steady s h _ _ _

theorem beginMake_steady (h : m₀.Steady m) (f : Id .factory) (s : Stack σ .made goal) :
    m₀.Steady (beginMake host m f s).store := by
  unfold beginMake
  split
  · exact h.trans (.newContext _ _)
  · exact h.trans (.plannedContext _ _ _)
  · exact h

theorem beginBind_steady (h : m₀.Steady m) (c : Id .context) (s : Stack σ .entered goal) :
    m₀.Steady (beginBind thread m c s).store := by
  unfold beginBind
  split
  · exact h
  · next hbind =>
    exact (h.trans (.modifyContext m c (Context.settings_bind hbind))).trans (.of_contexts_eq rfl rfl)

theorem beginEnter_steady (h : m₀.Steady m) (f : Id .factory) (requested : Option (Id .context))
    (s : Stack σ .entered goal) : m₀.Steady (beginEnter host thread m f requested s).store := by
  unfold beginEnter
  split
  · exact h.trans (.modifyContext m _ rfl)
  · split
    · exact beginBind_steady thread h _ s
    · exact beginMake_steady host h f _

theorem beginExit_steady (h : m₀.Steady m) (s : Stack σ .left goal) :
    m₀.Steady (beginExit thread m s).store := by
  unfold beginExit
  split
  · exact h
  · split
    · exact h
    · next hrelease => exact h.trans (.modifyContext m _ (Context.settings_release hrelease))
    · next hrelease =>
      exact (h.trans (.modifyContext m _ (Context.settings_release hrelease))).trans
        (.of_contexts_eq rfl rfl)

theorem beginCapturingCall_steady (h : m₀.Steady m) (e : Executable) (c : Id .context)
    (scope : Id .scope) (args : List Value) :
    m₀.Steady (beginAction.beginCapturingCall host m e c scope args s).store := by
  unfold beginAction.beginCapturingCall
  split
  · exact h
  · exact beginCapturing_steady host s h _ _ _ _ _

theorem beginAction_steady (h : m₀.Steady m) (a : Action) (s : Stack σ a.kind goal) :
    m₀.Steady (beginAction host thread m a s).store := by
  cases a with
  | call f site => exact h
  | callOutermost f site isStrict => exact beginOutermost_steady host s h _ _ _
  | execute e c scope =>
    simp only [beginAction]
    split <;> exact h
  | executeCapturing e c scope =>
    simp only [beginAction]
    split
    · exact h
    · exact beginCapturingCall_steady host s h _ _ _ _
  | callCapturing e c scope args => exact beginCapturingCall_steady host s h _ _ _ _
  | resume k c scope v =>
    simp only [beginAction]
    split
    · exact h
    · split
      · exact h
      · exact beginCapturing_steady host s h _ _ _ _ _
  | step via g op c scope v => exact beginResumption_steady host h _ _ _ _ _ _
  | enter f requested => exact beginEnter_steady host thread h f requested s
  | exit => exact beginExit_steady thread h s
  | makeContext f => exact beginMake_steady host h f s

theorem endBody_steady (h : m₀.Steady m) (g : Generator) (e : Except Abrupt Exit)
    (s : Stack σ .step goal) : m₀.Steady (endBody m g e s).store := by
  unfold endBody
  dsimp only
  split <;> exact h.trans (.of_contexts_eq rfl rfl)

theorem take_steady (h : m₀.Steady m) (t : Task σ α β) (x : α.Result) (s : Stack σ β goal) :
    m₀.Steady (take host thread m t x s).store := by
  cases t with
  | clearTopCall c | restoreCaptures c previous => exact h.trans (.modifyContext m c rfl)
  | flattenResult =>
    cases x with
    | ok v => exact h.trans (.of_contexts_eq rfl rfl)
    | error e => exact h
  | called a =>
    cases x with
    | ok v => exact follow_steady h _ _ s
    | error e =>
      have hm : m₀.Steady (a.fail e m).2 := by
        obtain ⟨continuations, heq⟩ := a.fail_frame m e
        rw [heq]
        exact h.trans (.of_contexts_eq rfl rfl)
      exact follow_steady hm _ _ s
  | observed a =>
    cases x with
    | ok u => exact h
    | error reason => exact follow_steady h _ _ s
  | callEnd =>
    cases x with
    | ok exit => cases exit <;> exact h
    | error e => exact h
  | bodyEnd g => exact endBody_steady h g x s
  | recordStep i =>
    cases x with
    | ok step => exact h.trans (.of_contexts_eq rfl rfl)
    | error e => exact h
  | reportStep i => cases x <;> exact h
  | bindMade =>
    simp only [take]
    split
    · exact h
    · exact beginBind_steady thread h _ s
  | notifying event c rest => cases rest <;> exact h
  | bracketBody body => cases x <;> exact h
  | release => exact beginExit_steady thread h _
  | program | entered | left | released | repanic | guarded => exact h

theorem passPanic_steady (h : m₀.Steady m) (t : Task σ α β) (s : Stack σ β goal) :
    m₀.Steady (passPanic thread m t s).store := by
  cases t with
  | clearTopCall c | restoreCaptures c previous => exact h.trans (.modifyContext m c rfl)
  | called a | observed a => exact h.trans (.modifyContext m a.context rfl)
  | release => exact beginExit_steady thread h _
  | _ => exact h

end Config

/-! ## Steps that are no queries about contexts -/

/-- The query about contexts that the next step answers. -/
def State.contextQuery? : State σ goal → Option ContextQuery
  | .running (.ask (.context q) _) _ => some q
  | _ => none

/-- The query about factories that the next step answers. -/
def State.factoryQuery? : State σ goal → Option FactoryQuery
  | .running (.ask (.factory q) _) _ => some q
  | _ => none

/-- The activation for which the next step counts an instruction. -/
def State.counting? : State σ goal → Option Activation
  | .counting a _ => some a
  | _ => none

theorem Store.factories_createExecutable (host : Host σ) (thread : Id .thread) (m : Store σ)
    (kind : RoutineKind) (r : SharedRoutine) (domain : Option Payload) :
    (m.createExecutable host thread kind r domain).2.factories = m.factories := by
  unfold createExecutable
  split
  · rfl
  · split
    · rfl
    · split
      · rfl
      · split
        · rfl
        · split <;> rfl

theorem Store.Steady.ask (host : Host σ) (thread : Id .thread) (m : Store σ) {q : Query σ}
    (hcontext : ∀ r, q ≠ .context r) (hfactory : ∀ r, q ≠ .factory r) :
    m.Steady (q.perform host thread m).2 := by
  cases q with
  | context r => exact absurd rfl (hcontext r)
  | factory r => exact absurd rfl (hfactory r)
  | code q =>
    cases q with
    | share r => exact .of_contexts_eq rfl rfl
    | create kind r domain =>
      exact .of_contexts_eq (contexts_createExecutable host thread m kind r domain)
        (factories_createExecutable host thread m kind r domain)
    | nested e index =>
      simp only [Query.perform, CodeQuery.perform]
      split <;> exact .of_contexts_eq rfl rfl
  | _ => exact .of_contexts_eq rfl rfl

namespace Config

variable (host : Host σ) (thread : Id .thread)

theorem step_steady {X : Config σ goal} (hcontext : X.state.contextQuery? = none)
    (hfactory : X.state.factoryQuery? = none)
    (hcounting : X.state.counting? = none) : X.store.Steady (X.step host thread).store := by
  obtain ⟨m, state⟩ := X
  have hm := Store.Steady.refl m
  cases state with
  | running p s =>
    cases p with
    | ask q k =>
      refine .ask host thread m ?_ ?_
      · rintro r rfl
        cases hcontext
      · rintro r rfl
        cases hfactory
    | act a k => exact beginAction_steady host thread hm a _
    | bracket f body k => exact beginEnter_steady host thread hm f none _
    | finish | panic | guard => exact hm
  | calling f site s => exact beginCall_steady host s hm f site
  | counting a s => cases hcounting
  | executing a s => exact execute_steady hm a s
  | returning x s =>
    cases s with
    | nil => exact hm
    | cons t s => exact take_steady host thread hm t x s
  | panicking s =>
    cases s with
    | nil => exact hm
    | cons t s => exact passPanic_steady thread hm t s
  | crashed => exact hm

end Config

end ScriptMachine
