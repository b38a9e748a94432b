import ScriptMachine.Proofs.Ledger.Order

/-!
# Top calls on the stack

A top call of a context begins where the policy of the context is asked to perform an outermost
call, and lasts as long as the task that ends it is on the stack. An entry from
outside begins one, on a context in which no top call is in progress
(`Config.step_begins_topCall`). Every other step leaves the top calls of a context as they are,
or ends one (`Config.step_proceeds`).
-/

namespace ScriptMachine

variable {σ : Type} {α β γ goal : Kind}

/-! ## The top call of a context -/

namespace Store

variable {m m' : Store σ} {c : Id .context}

/-- Whether a top call of a context is in progress. -/
def inTopCall (m : Store σ) (c : Id .context) : Bool := (m.context c).topCall.isSome

theorem inTopCall_of_contexts_eq (h : m'.contexts = m.contexts) :
    m'.inTopCall c = m.inTopCall c := by
  rw [inTopCall, inTopCall, context, context, h]

theorem inTopCall_of_ledger_eq (h : m'.ledger c = m.ledger c) : m'.inTopCall c = m.inTopCall c :=
  congrArg (fun l => l.topCall.isSome) h

/-- There is no top call of a context that was not made. -/
theorem knows_of_inTopCall (h : m.inTopCall c = true) : m.Knows c := knows_of_topCall h

/-- A change that is none for the top call of one context is none for that of any. -/
theorem inTopCall_modifyContext {other : Id .context} {f : Context → Context}
    (h : (f (m.context other)).topCall = (m.context other).topCall) :
    (m.modifyContext other f).inTopCall c = m.inTopCall c := by
  by_cases hc : other = c
  · subst hc
    by_cases hk : m.Knows other
    · rw [inTopCall, context_modifyContext hk, h, inTopCall]
    · have hk' : ¬ (m.modifyContext other f).Knows other := by
        simpa [Knows, modifyContext, Table.get?_modify] using hk
      refine inTopCall_of_ledger_eq ?_
      rw [ledger_of_not_knows hk', ledger_of_not_knows hk]
  · exact inTopCall_of_ledger_eq (ledger_modifyContext_of_ne hc f)

/-- The top call of a context is ended, whether it was made or not. -/
theorem inTopCall_clear (m : Store σ) (c : Id .context) :
    (m.modifyContext c fun cx => { cx with topCall := none }).inTopCall c = false := by
  refine Bool.eq_false_iff.mpr fun h => ?_
  have hk : m.Knows c := by
    have hk' := knows_of_inTopCall h
    simpa [Knows, modifyContext, Table.get?_modify] using hk'
  rw [inTopCall, context_modifyContext hk] at h
  cases h

end Store

/-! ## The tasks that end top calls -/

/-- How often a task ends a top call of a context. -/
def Task.topCalls (c : Id .context) : Task σ α β → Nat
  | .clearTopCall other => if other = c then 1 else 0
  | _ => 0

/-- How many tasks of a stack end a top call of a context. -/
def Stack.topCalls (c : Id .context) : {α : Kind} → Stack σ α goal → Nat
  | _, .nil => 0
  | _, .cons t rest => t.topCalls c + rest.topCalls c

/-- How many top calls of a context the stack beneath what runs is to end. -/
def State.topCalls (c : Id .context) : State σ goal → Nat
  | .running _ s | .calling _ _ s | .counting _ s | .executing _ s | .returning _ s
  | .panicking s => s.topCalls c
  | .crashed => 0

theorem Stack.topCalls_append (c : Id .context) (r : Stack σ α β) (s : Stack σ β γ) :
    (r.append s).topCalls c = r.topCalls c + s.topCalls c := by
  induction r with
  | nil => exact (Nat.zero_add _).symm
  | cons t rest ih => simp only [cons_append, topCalls, ih, Nat.add_assoc]

theorem State.topCalls_onto (c : Id .context) {state : State σ α} (h : state ≠ .crashed)
    (s : Stack σ α β) : (state.onto s).topCalls c = state.topCalls c + s.topCalls c := by
  cases state with
  | crashed => exact absurd rfl h
  | running | calling | counting | executing | returning | panicking =>
    exact Stack.topCalls_append c _ s

/-! ## Entries -/

/-- An action has a policy perform an outermost call of a context, if there is no top call. -/
def Action.Opens (m : Store σ) (c : Id .context) : Action → Prop
  | .callOutermost _ site _ => site.context = c
  | .executeCapturing e other _ => e.routine.isScript = true ∧ other = c
  | .callCapturing _ other _ _ => other = c
  | .resume k other _ _ => (m.continuations.get k).isResumable = true ∧ other = c
  | .step via g _ other _ _ => g.body.sameCode via = true ∧ other = c
  | .call _ _ | .execute _ _ _ | .enter _ _ | .exit | .makeContext _ => False

/-- What is about to happen has a policy perform an outermost call of a context, if there is no
top call. -/
def Config.Opens (c : Id .context) (X : Config σ goal) : Prop :=
  match X.state with
  | .running (.act a _) _ => a.Opens X.store c
  | .calling (.executable _) site _ => site.context = c
  | _ => False

theorem Action.Opens.on {m : Store σ} {c : Id .context} {a : Action} (h : a.Opens m c) :
    a.on? = some c := by
  cases a with
  | callOutermost | callCapturing => exact congrArg some h
  | executeCapturing | resume | step => exact congrArg some h.2
  | call | execute | enter | exit | makeContext => exact absurd h id

theorem Config.Opens.on {X : Config σ goal} {c : Id .context} (h : X.Opens c) :
    X.state.on? = some c := by
  obtain ⟨m, state⟩ := X
  cases state with
  | running p s =>
    cases p with
    | act a k => exact Action.Opens.on h
    | finish | panic | ask | bracket | guard => exact absurd h id
  | calling f site s =>
    cases f with
    | executable e => exact congrArg some h
    | hostFunction | resumption | continuation => exact absurd h id
  | counting | executing | returning | panicking | crashed => exact absurd h id

namespace Config

variable (host : Host σ) (thread : Id .thread) (c : Id .context) (m : Store σ)

/-- Something that begins from a store on a stack of its own begins no top call. -/
def Calm (Y : Config σ goal) : Prop :=
  Y.store.inTopCall c = m.inTopCall c ∧ Y.state.topCalls c = 0

/-- Something begins from a store on a stack of its own, and with it a top call if it opens one
and none is in progress. -/
structure Turns (opens : Prop) (Y : Config σ goal) : Prop where
  calm : ¬ (opens ∧ m.inTopCall c = false) → Y.Calm c m
  begun : opens → m.inTopCall c = false →
    (m.Knows c → Y.store.inTopCall c = true) ∧ Y.state.topCalls c = 1 ∧ Y.state ≠ .crashed

variable {host thread c m}

theorem Calm.of_eq {m' : Store σ} {Y : Config σ goal} (h : Y.Calm c m')
    (hm : m'.inTopCall c = m.inTopCall c) : Y.Calm c m := ⟨h.1.trans hm, h.2⟩

theorem Calm.turns {Y : Config σ goal} (h : Y.Calm c m) {opens : Prop} (hopens : ¬ opens) :
    Y.Turns c m opens := ⟨fun _ => h, fun ho => absurd ho hopens⟩

/-- What is refused because of a top call of a context begins none. -/
theorem Calm.turns_of_inTopCall {Y : Config σ goal} (h : Y.Calm c m) {other : Id .context}
    (hcalled : m.inTopCall other = true) : Y.Turns c m (other = c) := by
  refine ⟨fun _ => h, ?_⟩
  rintro rfl hfree
  rw [hcalled] at hfree
  cases hfree

theorem Turns.of_eq {m' : Store σ} {opens : Prop} {Y : Config σ goal} (h : Y.Turns c m' opens)
    (hm : m'.inTopCall c = m.inTopCall c) (hk : m.Knows c → m'.Knows c) : Y.Turns c m opens := by
  constructor
  · intro hnot
    rw [← hm] at hnot
    exact (h.calm hnot).of_eq hm
  · intro ho hfree
    obtain ⟨hflag, hrest⟩ := h.begun ho (hm.trans hfree)
    exact ⟨fun hc => hflag (hk hc), hrest⟩

/-- A further condition on what opens a top call may be checked before. -/
theorem Turns.and {opens p : Prop} {Y : Config σ goal} (h : Y.Turns c m opens) (hp : p) :
    Y.Turns c m (p ∧ opens) :=
  ⟨fun hnot => h.calm fun ho => hnot ⟨⟨hp, ho.1⟩, ho.2⟩, fun ho => h.begun ho.2⟩

theorem Calm.onto {Y : Config σ α} (h : Y.Calm c m) {s : Stack σ α goal} (hs : s.topCalls c = 0) :
    (Y.onto s).Calm c m := by
  refine ⟨h.1, ?_⟩
  obtain ⟨m', state⟩ := Y
  by_cases hcrashed : state = .crashed
  · subst hcrashed
    rfl
  · exact (State.topCalls_onto c hcrashed s).trans (by rw [hs]; exact h.2)

theorem Turns.onto {Y : Config σ α} {opens : Prop} (h : Y.Turns c m opens) {s : Stack σ α goal}
    (hs : s.topCalls c = 0) : (Y.onto s).Turns c m opens := by
  refine ⟨fun hnot => (h.calm hnot).onto hs, ?_⟩
  intro ho hfree
  obtain ⟨hflag, htasks, hstate⟩ := h.begun ho hfree
  refine ⟨hflag, (State.topCalls_onto c hstate s).trans (by rw [hs]; exact htasks), ?_⟩
  obtain ⟨m', state⟩ := Y
  cases state with
  | crashed => exact absurd rfl hstate
  | running | calling | counting | executing | returning | panicking => nofun

/-! ## The beginnings of activities -/

theorem calm_give (κ : Kind) (x : κ.Result) : (give m κ x .nil).Calm c m := ⟨rfl, rfl⟩

theorem calm_follow (other : Id .context) (flow : Flow) :
    (follow m other flow .nil).Calm c m := by
  cases flow with
  | next a => exact ⟨rfl, rfl⟩
  | leave e => exact ⟨Store.inTopCall_modifyContext rfl, rfl⟩

theorem calm_execute (a : Activation) : (execute m a .nil).Calm c m := by
  have hm : (a.execute m).2.inTopCall c = m.inTopCall c :=
    Store.inTopCall_of_contexts_eq (a.execute_frame m).1
  unfold execute
  split
  · next flow m' heq =>
    rw [heq] at hm
    obtain ⟨hflag, htasks⟩ := calm_follow (c := c) (m := m') a.context flow
    exact ⟨hflag.trans hm, htasks⟩
  · next heq =>
    rw [heq] at hm
    exact ⟨hm, rfl⟩

theorem calm_beginActivation (other : Id .context) (frames : List Frame) (isGenerator : Bool)
    {t : Task σ .exit β} (ht : t.topCalls c = 0) :
    (beginActivation m other frames isGenerator (.cons t .nil)).Calm c m := by
  refine ⟨Store.inTopCall_modifyContext rfl, ?_⟩
  show t.topCalls c + 0 = 0
  rw [ht]

theorem calm_interpret (e : Executable) (site : CallSite) : (interpret m e site .nil).Calm c m := by
  unfold interpret
  dsimp only
  split
  · exact ⟨rfl, rfl⟩
  · exact calm_beginActivation _ _ _ rfl

/-- The policy of a context performs an outermost call. -/
def performOutermost (host : Host σ) (m : Store σ) (f : Callable) (site : CallSite)
    (s : Stack σ .completion goal) : Config σ goal :=
  match (m.factoryOf site.context).policy with
  | .custom p => ⟨m, .running (host.outermost p f site) s⟩
  | .standard | .planned _ => ⟨m, .calling f site (.cons .flattenResult s)⟩

theorem performOutermost_spec (host : Host σ) (m : Store σ) (f : Callable) (site : CallSite)
    (s : Stack σ .completion goal) :
    (performOutermost host m f site s).store = m ∧
      (performOutermost host m f site s).state.topCalls c = s.topCalls c ∧
      (performOutermost host m f site s).state ≠ .crashed := by
  unfold performOutermost
  split
  · exact ⟨rfl, rfl, nofun⟩
  · exact ⟨rfl, Nat.zero_add _, nofun⟩
  · exact ⟨rfl, Nat.zero_add _, nofun⟩

theorem beginOutermost_eq (host : Host σ) {site : CallSite}
    (h : m.inTopCall site.context = false) (f : Callable) (isStrict : Bool)
    (s : Stack σ .completion goal) :
    beginOutermost host m f site isStrict s =
      performOutermost host (m.modifyContext site.context fun cx =>
        { cx with topCall := some ⟨site.scope, isStrict⟩ }) f site
        (.cons (.clearTopCall site.context) s) := by
  rw [Store.inTopCall] at h
  simp only [beginOutermost, h, Bool.false_eq_true, if_false]
  rfl

theorem beginOutermost_of_inTopCall (host : Host σ) {site : CallSite}
    (h : m.inTopCall site.context = true) (f : Callable) (isStrict : Bool)
    (s : Stack σ .completion goal) :
    beginOutermost host m f site isStrict s = failCall m (.illegalState .topCallInProgress) s :=
  if_pos h

/-- An outermost call begins a top call of its context. The tasks beneath it end none. -/
theorem turns_beginOutermost (host : Host σ) {s : Stack σ .completion goal}
    (hs : s.topCalls c = 0) (f : Callable) (site : CallSite) (isStrict : Bool) :
    (beginOutermost host m f site isStrict s).Turns c m (site.context = c) := by
  cases hflag : m.inTopCall site.context with
  | true =>
    rw [beginOutermost_of_inTopCall host hflag]
    have hrefused : Calm c m (failCall m (.illegalState .topCallInProgress) s) := ⟨rfl, hs⟩
    exact hrefused.turns_of_inTopCall hflag
  | false =>
    rw [beginOutermost_eq host hflag]
    obtain ⟨hstore, htasks, hstate⟩ := performOutermost_spec (c := c) host
      (m.modifyContext site.context fun cx =>
        { cx with topCall := some ⟨site.scope, isStrict⟩ }) f site
      (.cons (.clearTopCall site.context) s)
    have hcount : (Stack.cons (.clearTopCall site.context) s).topCalls c =
        if site.context = c then 1 else 0 := by
      rw [Stack.topCalls, hs]
      rfl
    constructor
    · intro hnot
      have hc : site.context ≠ c := fun hc => hnot ⟨hc, hc ▸ hflag⟩
      refine ⟨?_, htasks.trans (hcount.trans (if_neg hc))⟩
      rw [hstore]
      exact Store.inTopCall_of_ledger_eq (Store.ledger_modifyContext_of_ne hc _)
    · rintro rfl -
      refine ⟨fun hknown => ?_, htasks.trans (hcount.trans (if_pos rfl)), hstate⟩
      rw [hstore, Store.inTopCall, Store.context_modifyContext hknown]
      rfl

theorem turns_beginCapturing (host : Host σ) (f : Callable) (other : Id .context)
    (scope : Id .scope) (args : List Value) (isStrict : Bool) :
    (beginCapturing host m f other scope args isStrict .nil).Turns c m (other = c) := by
  have hs : (Stack.cons (.restoreCaptures other (m.context other).acceptsCaptures)
      (.nil : Stack σ .completion .completion)).topCalls c = 0 := rfl
  refine (turns_beginOutermost host hs f ⟨other, scope, .object scope, args⟩ isStrict).of_eq ?_ ?_
  · exact Store.inTopCall_modifyContext rfl
  · exact Store.knows_modifyContext other _

theorem turns_beginCapturingCall (host : Host σ) (e : Executable) (other : Id .context)
    (scope : Id .scope) (args : List Value) :
    (beginAction.beginCapturingCall host m e other scope args .nil).Turns c m (other = c) := by
  unfold beginAction.beginCapturingCall
  split
  · next hcalled => exact Calm.turns_of_inTopCall (calm_give _ _) hcalled
  · exact turns_beginCapturing _ _ _ _ _ _

theorem calm_beginStep (g : Generator) (op : GeneratorOp) (other : Id .context) (v : Value)
    {s : Stack σ .step goal} (hs : s.topCalls c = 0) :
    (beginStep m g op other v s).Calm c m := by
  have hbody : (Stack.cons (.bodyEnd g) s).topCalls c = 0 := (Nat.zero_add _).trans hs
  unfold beginStep
  dsimp only
  split
  · cases op <;> exact ⟨rfl, hs⟩
  · split
    · exact ⟨rfl, hs⟩
    · split
      · cases op with
        | next => exact ⟨Store.inTopCall_modifyContext rfl, hbody⟩
        | throw =>
          dsimp only
          split
          · exact ⟨Store.inTopCall_modifyContext rfl, hbody⟩
          · exact ⟨rfl, hbody⟩
        | «return» =>
          dsimp only
          split
          · exact ⟨Store.inTopCall_modifyContext rfl, hbody⟩
          · exact ⟨rfl, hbody⟩
      · cases op with
        | next => exact ⟨Store.inTopCall_modifyContext rfl, hbody⟩
        | throw | «return» => exact ⟨rfl, hs⟩

theorem turns_beginResumption (host : Host σ) (via : Executable) (g : Generator)
    (op : GeneratorOp) (other : Id .context) (scope : Id .scope) (v : Value) :
    (beginResumption host m via g op other scope v .nil).Turns c m
      (g.body.sameCode via = true ∧ other = c) := by
  unfold beginResumption
  split
  · next hforeign =>
    refine (calm_give _ _).turns fun ho => ?_
    rw [ho.1] at hforeign
    cases hforeign
  next hsame =>
    have hvia : g.body.sameCode via = true := by simpa using hsame
    split
    · next hcalled =>
      exact ((calm_beginStep g op other v rfl).turns_of_inTopCall hcalled).and hvia
    · have hs : (Stack.cons (.reportStep (m.resumptions.insert { value := some v }).1)
          (.nil : Stack σ .step .step)).topCalls c = 0 := rfl
      refine Turns.and ?_ hvia
      exact (turns_beginOutermost host hs _ ⟨other, scope, .object scope, []⟩ _).of_eq rfl id

theorem calm_beginContinuation (k : Id .continuation) (v : Value) (other : Id .context) :
    (beginContinuation m k v other .nil).Calm c m := by
  unfold beginContinuation
  split
  · exact calm_give _ _
  · next heq =>
    obtain ⟨continuations, rfl⟩ := Store.takeFrames_frame heq
    exact ⟨rfl, rfl⟩
  · next heq =>
    obtain ⟨continuations, rfl⟩ := Store.takeFrames_frame heq
    exact (calm_beginActivation _ _ _ rfl).of_eq rfl

/-- A call begins a top call if it calls an executable. -/
theorem turns_beginCall (host : Host σ) (f : Callable) (site : CallSite) :
    (beginCall host m f site .nil).Turns c m
      (Config.Opens c (⟨m, .calling f site .nil⟩ : Config σ .completion)) := by
  cases f with
  | executable e =>
    show (beginCall host m (.executable e) site .nil).Turns c m (site.context = c)
    simp only [beginCall]
    split
    · next hcalled => exact (calm_interpret e site).turns_of_inTopCall hcalled
    · exact turns_beginOutermost host rfl _ _ _
  | hostFunction h => exact ⟨fun _ => ⟨rfl, rfl⟩, fun ho => absurd ho id⟩
  | resumption r g op =>
    have hs : (Stack.cons (.recordStep r) (.nil : Stack σ .completion .completion)).topCalls c =
        0 := rfl
    refine Calm.turns ?_ id
    exact (calm_beginStep g op _ _ hs).of_eq rfl
  | continuation k v => exact (calm_beginContinuation k v _).turns id

/-! ## Bindings -/

theorem calm_beginMake (host : Host σ) (f : Id .factory) {s : Stack σ .made goal}
    (hs : s.topCalls c = 0) : (beginMake host m f s).Calm c m := by
  have hmade : ∀ cx : Context, cx.ledger = .idle →
      ({ m with contexts := (m.contexts.insert cx).2 } : Store σ).inTopCall c = m.inTopCall c :=
    fun cx hcx => Store.inTopCall_of_ledger_eq (Store.ledger_insert hcx)
  unfold beginMake
  split
  · exact ⟨hmade _ rfl, hs⟩
  · exact ⟨hmade _ rfl, hs⟩
  · exact ⟨rfl, hs⟩

theorem calm_beginBind (other : Id .context) : (beginBind thread m other .nil).Calm c m := by
  unfold beginBind
  split
  · exact calm_give _ _
  · next heq =>
    refine ⟨?_, rfl⟩
    refine Store.inTopCall_modifyContext (m := m) ?_
    exact congrArg Ledger.topCall (Context.ledger_bind heq)

theorem calm_beginEnter (f : Id .factory) (requested : Option (Id .context)) :
    (beginEnter host thread m f requested .nil).Calm c m := by
  unfold beginEnter
  split
  · exact ⟨Store.inTopCall_modifyContext rfl, rfl⟩
  · split
    · exact calm_beginBind _
    · exact calm_beginMake host f (s := .cons .bindMade .nil) rfl

theorem calm_beginExit {s : Stack σ .left goal} (hs : s.topCalls c = 0) :
    (beginExit thread m s).Calm c m := by
  have htelling : ∀ (event : ContextEvent) (other : Id .context) (rest : List (Id .listener)),
      (Stack.cons (.notifying event other rest) (.cons .left s)).topCalls c = 0 :=
    fun _ _ _ => (Nat.zero_add _).trans ((Nat.zero_add _).trans hs)
  unfold beginExit
  split
  · exact ⟨rfl, hs⟩
  · split
    · exact ⟨rfl, hs⟩
    · next heq =>
      refine ⟨Store.inTopCall_modifyContext ?_, hs⟩
      exact congrArg Ledger.topCall (Context.ledger_release heq)
    · next heq =>
      refine ⟨?_, htelling _ _ _⟩
      refine Store.inTopCall_modifyContext (m := m) ?_
      exact congrArg Ledger.topCall (Context.ledger_release heq)

/-! ## Actions, results and panics -/

variable (host thread) in
theorem turns_beginAction (a : Action) :
    (beginAction host thread m a .nil).Turns c m (a.Opens m c) := by
  cases a with
  | call f site => exact ⟨fun _ => ⟨rfl, rfl⟩, fun ho => absurd ho id⟩
  | callOutermost f site isStrict => exact turns_beginOutermost host rfl f site isStrict
  | execute e other scope =>
    simp only [beginAction]
    split <;> exact ⟨fun _ => ⟨rfl, rfl⟩, fun ho => absurd ho id⟩
  | executeCapturing e other scope =>
    simp only [beginAction]
    split
    · next hscript =>
      refine (calm_give _ _).turns fun ho => ?_
      rw [ho.1] at hscript
      cases hscript
    · next hscript =>
      exact (turns_beginCapturingCall host e other scope []).and (by simpa using hscript)
  | callCapturing e other scope args => exact turns_beginCapturingCall host e other scope args
  | resume k other scope v =>
    simp only [beginAction]
    split
    · next hcalled =>
      refine ⟨fun _ => calm_give _ _, ?_⟩
      rintro ⟨-, rfl⟩ hfree
      rw [Store.inTopCall, hcalled] at hfree
      cases hfree
    · split
      · next hheld =>
        refine (calm_give _ _).turns fun ho => ?_
        rw [ho.1] at hheld
        cases hheld
      · next hheld =>
        exact (turns_beginCapturing host (.continuation k v) other scope [] _).and
          (by simpa using hheld)
  | step via g op other scope v => exact turns_beginResumption host via g op other scope v
  | enter f requested => exact (calm_beginEnter f requested).turns id
  | exit => exact (calm_beginExit rfl).turns id
  | makeContext f => exact (calm_beginMake host f rfl).turns id

theorem calm_take {t : Task σ α β} (ht : t.topCalls c = 0) (x : α.Result) :
    (take host thread m t x .nil).Calm c m := by
  cases t with
  | clearTopCall other =>
    have hc : other ≠ c := by
      rintro rfl
      simp only [Task.topCalls, if_true] at ht
      cases ht
    exact ⟨Store.inTopCall_of_ledger_eq (Store.ledger_modifyContext_of_ne hc _), rfl⟩
  | restoreCaptures other previous => exact ⟨Store.inTopCall_modifyContext rfl, rfl⟩
  | called a =>
    cases x with
    | ok v => exact calm_follow _ _
    | error e =>
      exact (calm_follow _ _).of_eq (Store.inTopCall_of_contexts_eq (a.contexts_fail m e))
  | observed a =>
    cases x with
    | ok u => exact ⟨rfl, rfl⟩
    | error reason => exact calm_follow (m := m) a.context (.leave (.error (.aborted reason)))
  | bodyEnd g =>
    show (endBody m g x .nil).Calm c m
    unfold endBody
    dsimp only
    split <;> exact ⟨rfl, rfl⟩
  | bindMade =>
    simp only [take]
    split
    · exact calm_give _ _
    · exact calm_beginBind _
  | release => exact calm_beginExit (s := .cons .released .nil) rfl
  | callEnd =>
    cases x with
    | ok exit => cases exit <;> exact ⟨rfl, rfl⟩
    | error e => exact ⟨rfl, rfl⟩
  | flattenResult | recordStep | reportStep | bracketBody => cases x <;> exact ⟨rfl, rfl⟩
  | notifying event other rest => cases rest <;> exact ⟨rfl, rfl⟩
  | program | entered | left | released | repanic | guarded => exact ⟨rfl, rfl⟩

theorem calm_passPanic {t : Task σ α β} (ht : t.topCalls c = 0) :
    (passPanic thread m t .nil).Calm c m := by
  cases t with
  | clearTopCall other =>
    have hc : other ≠ c := by
      rintro rfl
      simp only [Task.topCalls, if_true] at ht
      cases ht
    exact ⟨Store.inTopCall_of_ledger_eq (Store.ledger_modifyContext_of_ne hc _), rfl⟩
  | restoreCaptures other previous => exact ⟨Store.inTopCall_modifyContext rfl, rfl⟩
  | called a | observed a => exact ⟨Store.inTopCall_modifyContext rfl, rfl⟩
  | release => exact calm_beginExit (s := .cons .repanic .nil) rfl
  | _ => exact ⟨rfl, rfl⟩

theorem turns_runProgram {κ : Kind} (p : Program σ κ) :
    (runProgram host thread m p .nil).Turns c m
      (Config.Opens c (⟨m, .running p .nil⟩ : Config σ κ)) := by
  cases p with
  | act a k =>
    have hs : (Stack.cons (.program k) (.nil : Stack σ κ κ)).topCalls c = 0 := rfl
    show (beginAction host thread m a (.cons (.program k) .nil)).Turns c m (a.Opens m c)
    rw [show Stack.cons (.program k) .nil = Stack.nil.append (.cons (.program k) .nil) from rfl,
      beginAction_append]
    exact (turns_beginAction host thread a).onto hs
  | ask q k =>
    refine Calm.turns ?_ id
    exact ⟨Store.inTopCall_of_ledger_eq (Store.ledger_ask host thread m q c), rfl⟩
  | bracket f body k =>
    have hs : (Stack.cons (.bracketBody body) (.cons (.program k) (.nil : Stack σ κ κ))).topCalls
        c = 0 := rfl
    refine Calm.turns ?_ id
    show Calm c m
      (beginEnter host thread m f none (.cons (.bracketBody body) (.cons (.program k) .nil)))
    rw [show Stack.cons (.bracketBody body) (.cons (.program k) .nil) =
      Stack.nil.append (.cons (.bracketBody body) (.cons (.program k) .nil)) from rfl,
      beginEnter_append]
    exact (calm_beginEnter f none).onto hs
  | finish | panic | guard => exact ⟨fun _ => ⟨rfl, rfl⟩, fun ho => absurd ho id⟩

theorem calm_count (a : Activation) : (count host m a .nil).Calm c m := by
  have hcount : (m.modifyContext a.context fun _ =>
      (m.context a.context).countInstruction.2).inTopCall c = m.inTopCall c :=
    Store.inTopCall_modifyContext (congrArg Ledger.topCall (Context.ledger_countInstruction _))
  unfold count
  dsimp only
  split <;> exact ⟨hcount, rfl⟩

/-! ## Steps -/

end Config

/-- Whether a top call of a context is in progress, and how many tasks are to end one. -/
structure TopCalls where
  inProgress : Bool
  tasks : Nat

/-- What a step that begins no top call of a context does to its top calls. -/
inductive TopCalls.Moves : TopCalls → TopCalls → Prop
  | stays (l : TopCalls) : Moves l l
  | ended (inProgress : Bool) (n : Nat) : Moves ⟨inProgress, n + 1⟩ ⟨false, n⟩

namespace Config

variable {host : Host σ} {thread : Id .thread} {c : Id .context} {m : Store σ}

/-- The top calls of a context at the moment. -/
def topCalls (c : Id .context) (X : Config σ goal) : TopCalls :=
  ⟨X.store.inTopCall c, X.state.topCalls c⟩

/-- Something comes from a store and a stack without beginning a top call of a context. -/
def Proceeds (c : Id .context) (l : TopCalls) (X : Config σ goal) : Prop :=
  l.Moves (X.topCalls c) ∨ X.state = .crashed ∧ X.store.inTopCall c = l.inProgress

/-- No step but one that begins a top call puts a task on the stack that ends one. -/
theorem Proceeds.tasks_le {l : TopCalls} {X : Config σ goal} (h : X.Proceeds c l) :
    X.state.topCalls c ≤ l.tasks := by
  rcases h with h | ⟨hcrashed, -⟩
  · generalize hl : X.topCalls c = l' at h
    have htasks : X.state.topCalls c = l'.tasks := congrArg TopCalls.tasks hl
    rw [htasks]
    cases h with
    | stays => exact Nat.le_refl _
    | ended => exact Nat.le_succ _
  · rw [hcrashed]
    exact Nat.zero_le _

/-- A top call that nothing above a stack is to end stays in progress. -/
theorem Proceeds.stays {l : TopCalls} {X : Config σ goal} (h : X.Proceeds c l)
    (hl : l.tasks = 0) : X.topCalls c = l := by
  rcases h with h | ⟨hcrashed, hflag⟩
  · generalize X.topCalls c = l' at h
    cases h with
    | stays => rfl
    | ended => cases hl
  · rw [topCalls, hcrashed, hflag]
    show TopCalls.mk _ 0 = l
    rw [← hl]

theorem Calm.proceeds {Y : Config σ α} (h : Y.Calm c m) (s : Stack σ α goal) :
    (Y.onto s).Proceeds c ⟨m.inTopCall c, s.topCalls c⟩ := by
  obtain ⟨m', state⟩ := Y
  obtain ⟨hflag, htasks⟩ := h
  have hflag' : m'.inTopCall c = m.inTopCall c := hflag
  by_cases hcrashed : state = .crashed
  · subst hcrashed
    exact .inr ⟨rfl, hflag'⟩
  · refine .inl ?_
    show TopCalls.Moves _ ⟨m'.inTopCall c, (state.onto s).topCalls c⟩
    rw [hflag', State.topCalls_onto c hcrashed, show state.topCalls c = 0 from htasks, Nat.zero_add]
    exact .stays _

/-- A top call ends with the task that is to end it. -/
theorem moves_clear (m : Store σ) (s : Stack σ .completion goal) :
    TopCalls.Moves ⟨m.inTopCall c, (Stack.cons (.clearTopCall c) s).topCalls c⟩
      ⟨(m.modifyContext c fun cx => { cx with topCall := none }).inTopCall c, s.topCalls c⟩ := by
  have htasks : (Stack.cons (.clearTopCall c) s).topCalls c = s.topCalls c + 1 := by
    simp only [Stack.topCalls, Task.topCalls, if_true, Nat.add_comm]
  rw [htasks, Store.inTopCall_clear]
  exact .ended _ _

/-- A task that ends no top call of a context may go. -/
theorem topCalls_cons {t : Task σ α β} (ht : t.topCalls c = 0) (s : Stack σ β goal) :
    (Stack.cons t s).topCalls c = s.topCalls c := by
  rw [Stack.topCalls, ht, Nat.zero_add]

theorem take_proceeds (t : Task σ α β) (x : α.Result) (s : Stack σ β goal) :
    (take host thread m t x s).Proceeds c ⟨m.inTopCall c, (Stack.cons t s).topCalls c⟩ := by
  by_cases ht : t.topCalls c = 0
  · have htake : take host thread m t x s = (take host thread m t x .nil).onto s :=
      take_append host thread m t x .nil s
    rw [htake, topCalls_cons ht]
    exact (calm_take ht x).proceeds s
  · cases t with
    | clearTopCall other =>
      have hc : other = c := Classical.byContradiction fun hc => ht (if_neg hc)
      rw [hc]
      exact .inl (moves_clear m s)
    | _ => exact absurd rfl ht

theorem passPanic_proceeds (t : Task σ α β) (s : Stack σ β goal) :
    (passPanic thread m t s).Proceeds c ⟨m.inTopCall c, (Stack.cons t s).topCalls c⟩ := by
  by_cases ht : t.topCalls c = 0
  · have hpass : passPanic thread m t s = (passPanic thread m t .nil).onto s :=
      passPanic_append thread m t .nil s
    rw [hpass, topCalls_cons ht]
    exact (calm_passPanic ht).proceeds s
  · cases t with
    | clearTopCall other =>
      have hc : other = c := Classical.byContradiction fun hc => ht (if_neg hc)
      rw [hc]
      exact .inl (moves_clear m s)
    | _ => exact absurd rfl ht

variable (host thread) in
/-- A step that does not open a top call of a context begins none. -/
theorem step_proceeds {X : Config σ goal} (h : ¬ (X.Opens c ∧ X.store.inTopCall c = false)) :
    (X.step host thread).Proceeds c (X.topCalls c) := by
  obtain ⟨m, state⟩ := X
  cases state with
  | running p s =>
    have hstep : step host thread ⟨m, .running p s⟩ = (runProgram host thread m p .nil).onto s :=
      runProgram_append host thread m p .nil s
    rw [hstep]
    refine ((turns_runProgram p).calm ?_).proceeds s
    cases p <;> exact h
  | calling f site s =>
    have hstep : step host thread ⟨m, .calling f site s⟩ = (beginCall host m f site .nil).onto s :=
      beginCall_append host m f site .nil s
    rw [hstep]
    refine ((turns_beginCall host f site).calm ?_).proceeds s
    cases f <;> exact h
  | counting a s =>
    have hstep : step host thread ⟨m, .counting a s⟩ = (count host m a .nil).onto s :=
      count_append host m a .nil s
    rw [hstep]
    exact (calm_count a).proceeds s
  | executing a s =>
    have hstep : step host thread ⟨m, .executing a s⟩ = (execute m a .nil).onto s :=
      execute_append m a .nil s
    rw [hstep]
    exact (calm_execute a).proceeds s
  | returning x s =>
    cases s with
    | nil => exact .inl (.stays _)
    | cons t s => exact take_proceeds t x s
  | panicking s =>
    cases s with
    | nil => exact .inl (.stays _)
    | cons t s => exact passPanic_proceeds t s
  | crashed => exact .inl (.stays _)

variable (host thread) in
/-- A step that opens a top call of a context in which none is in progress begins one. -/
theorem step_begins_topCall {X : Config σ goal} (h : X.Opens c)
    (hfree : X.store.inTopCall c = false) :
    (X.store.Knows c → (X.step host thread).store.inTopCall c = true) ∧
      (X.step host thread).state.topCalls c = X.state.topCalls c + 1 := by
  obtain ⟨m, state⟩ := X
  have hbegun : ∀ {κ : Kind} {Y : Config σ κ} (s : Stack σ κ goal),
      step host thread ⟨m, state⟩ = Y.onto s → s.topCalls c = state.topCalls c →
      (m.Knows c → Y.store.inTopCall c = true) ∧ Y.state.topCalls c = 1 ∧ Y.state ≠ .crashed →
      (m.Knows c → (step host thread ⟨m, state⟩).store.inTopCall c = true) ∧
        (step host thread ⟨m, state⟩).state.topCalls c = state.topCalls c + 1 := by
    intro κ Y s hstep hs hY
    obtain ⟨hflag, htasks, hstate⟩ := hY
    rw [hstep]
    refine ⟨hflag, (State.topCalls_onto c hstate s).trans ?_⟩
    rw [htasks, hs, Nat.add_comm]
  cases state with
  | running p s =>
    refine hbegun s (runProgram_append host thread m p .nil s) rfl
      ((turns_runProgram p).begun ?_ hfree)
    cases p <;> exact h
  | calling f site s =>
    refine hbegun s (beginCall_append host m f site .nil s) rfl
      ((turns_beginCall host f site).begun ?_ hfree)
    cases f <;> exact h
  | counting | executing | returning | panicking | crashed => exact absurd h id

end Config

end ScriptMachine
