import ScriptMachine.Proofs.Binding.Registry
import ScriptMachine.Proofs.Machine.Hosts
import ScriptMachine.Proofs.Machine.Settings

/-!
# Notices

When a context is bound to a thread or released, the listeners of its factory are told one after
the other. The notices that are still due lie on the stack of the thread, so a listener that is
added or removed meanwhile changes nothing about them. A step delivers the first of them, adds
those of an event, or leaves them alone (`Config.notices_step`), unless a listener panics.
-/

namespace ScriptMachine

variable {σ : Type} {α β goal : Kind}

/-- A listener is to be told about an event. -/
structure Notice where
  event : ContextEvent
  listener : Id .listener
  deriving DecidableEq

/-- The notices of an event, in the order of the listeners. -/
def notices (event : ContextEvent) (listeners : List (Id .listener)) : List Notice :=
  listeners.map fun l => ⟨event, l⟩

/-- The notices about a context that a task will deliver. -/
def Task.notices (c : Id .context) : Task σ α β → List Notice
  | .notifying event d rest => if d = c then ScriptMachine.notices event rest else []
  | _ => []

/-- The first of them, which the task delivers when it goes on. -/
def Task.notice? (c : Id .context) : Task σ α β → Option Notice
  | .notifying event d (l :: _) => if d = c then some ⟨event, l⟩ else none
  | _ => none

/-- The notice about a context that the task on top delivers when it goes on. -/
def Stack.notice? (c : Id .context) : Stack σ α goal → Option Notice
  | .nil => none
  | .cons t _ => t.notice? c

/-- The notices about a context that are due on a stack, from the top. -/
def Stack.notices (c : Id .context) : {α : Kind} → Stack σ α goal → List Notice
  | _, .nil => []
  | _, .cons t rest => t.notices c ++ rest.notices c

namespace State

/-- The notices about a context that are due beneath what runs. -/
def notices (c : Id .context) : State σ goal → List Notice
  | .running _ s | .calling _ _ s | .counting _ s | .executing _ s | .returning _ s
  | .panicking s => s.notices c
  | .crashed => []

/-- The notice about a context that the next step delivers: it starts the code of the listener. -/
def notice? (c : Id .context) : State σ goal → Option Notice
  | .returning _ s => s.notice? c
  | _ => none

/-- A listener gave up. The panic is about to pass those that are still to be told, or has met the
one for which its bracket is being left. -/
def isListenerPanic : State σ goal → Bool
  | .panicking (.cons (.notifying _ _ _) _) | .panicking (.cons .repanic _) => true
  | _ => false

end State

theorem State.notices_of_ending? {state : State σ goal} {x : Ending goal} (c : Id .context)
    (h : state.ending? = some x) : state.notices c = [] := by
  unfold State.ending? at h
  split at h
  · rfl
  · rfl
  · rfl
  · cases h

/-- What it means for a context that the thread it is bound to changes. To be bound to a thread in
place of another one would be to be bound. -/
def ContextEvent.between? : Option (Id .thread) → Option (Id .thread) → Option ContextEvent
  | none, none => none
  | none, some _ => some .created
  | some _, none => some .released
  | some owner, some owner' => if owner' = owner then none else some .created

theorem ContextEvent.between?_self (owner : Option (Id .thread)) : between? owner owner = none := by
  cases owner <;> simp [between?]

theorem ContextEvent.eq_of_between?_eq_none {owner owner' : Option (Id .thread)}
    (h : between? owner owner' = none) : owner' = owner := by
  cases owner <;> cases owner' <;> simp_all [between?]

namespace Store

/-- What a change of the store means for a context: it was bound or released. -/
def event? (m m' : Store σ) (c : Id .context) : Option ContextEvent :=
  ContextEvent.between? (m.context c).boundTo (m'.context c).boundTo

/-- The notices about a context that a change of the store calls for. They go to the listeners
that are registered at its factory when the change is made. -/
def announces (m m' : Store σ) (c : Id .context) : List Notice :=
  (m.event? m' c).elim [] fun event => ScriptMachine.notices event (m.factoryOf c).listeners

variable {m m' : Store σ} {c d : Id .context}

theorem SameBindings.event? (h : m.SameBindings m') (c : Id .context) : m.event? m' c = none := by
  have hbound : (m'.context c).boundTo = (m.context c).boundTo := congrArg Prod.fst (h.contexts c)
  rw [Store.event?, hbound, ContextEvent.between?_self]

theorem SameBindings.announces (h : m.SameBindings m') (c : Id .context) :
    m.announces m' c = [] := by
  rw [Store.announces, h.event?]
  rfl

theorem Rebinds.event? {registry : List (Id .thread × Id .context)}
    {b : Option (Id .thread) × Nat} (h : m.Rebinds registry d b m') (c : Id .context) :
    m.event? m' c = if d = c then ContextEvent.between? (m.binding d).1 b.1 else none := by
  split
  · next hd =>
    subst hd
    rw [← h.here]
    rfl
  · next hd =>
    have hbound : (m'.context c).boundTo = (m.context c).boundTo :=
      congrArg Prod.fst (h.others c (Ne.symm hd))
    rw [Store.event?, hbound, ContextEvent.between?_self]

/-- A step binds a context that is free, or releases one that is bound. -/
theorem Moves.eq_created_iff {t : Id .thread} {event : ContextEvent} (hm : m.Entered)
    (h : m.Moves t m') (hevent : m.event? m' c = some event) :
    (event = .created ↔ (m.context c).boundTo = none) ∧
      (event = .created ↔ (m'.context c).boundTo ≠ none) := by
  have hchange {registry : List (Id .thread × Id .context)} {d : Id .context}
      {b : Option (Id .thread) × Nat} (h : m.Rebinds registry d b m') :
      d = c ∧ ContextEvent.between? (m.binding d).1 b.1 = some event ∧
        (m'.context d).boundTo = b.1 := by
    rw [h.event?] at hevent
    split at hevent
    · next hd => exact ⟨hd, hevent, congrArg Prod.fst h.here⟩
    · cases hevent
  cases h with
  | stays h => cases (h.event? c).symm.trans hevent
  | nests d _ h | unnests d _ _ h =>
    obtain ⟨-, hbetween, -⟩ := hchange h
    rw [ContextEvent.between?_self] at hbetween
    cases hbetween
  | binds d hfree h =>
    obtain ⟨rfl, hbetween, hafter⟩ := hchange h
    rw [hfree] at hbetween
    cases hbetween
    exact ⟨⟨fun _ => hfree, fun _ => rfl⟩, ⟨fun _ => by simp [hafter], fun _ => rfl⟩⟩
  | releases d hcurrent h =>
    obtain ⟨rfl, hbetween, hafter⟩ := hchange h
    have hbound : (m.context d).boundTo = some t := (hm t d hcurrent).1
    rw [show (m.binding d).1 = some t from hbound] at hbetween
    cases hbetween
    simp [hbound, hafter]

theorem Steady.factoryOf (h : m.Steady m') (hc : m.Knows c) :
    m'.factoryOf c = m.factoryOf c := by
  have hfactory : (m'.context c).settings.factory = (m.context c).settings.factory :=
    congrArg Context.factory (h.kept c hc).2
  rw [Store.factoryOf, h.factories]
  exact congrArg m.factories.get hfactory

end Store

/-! ## Steps that bind and release nothing -/

namespace Config

variable (host : Host σ) (thread : Id .thread) (c : Id .context) (m : Store σ)

theorem notices_follow (d : Id .context) (flow : Flow) (s : Stack σ .exit goal) :
    (follow m d flow s).state.notices c = s.notices c := by
  cases flow <;> rfl

theorem notices_execute (a : Activation) (s : Stack σ .exit goal) :
    (execute m a s).state.notices c = s.notices c := by
  unfold execute
  split
  · exact notices_follow c _ _ _ _
  · rfl

variable (s : Stack σ .completion goal)

theorem notices_interpret (e : Executable) (site : CallSite) :
    (interpret m e site s).state.notices c = s.notices c := by
  unfold interpret
  dsimp only
  split <;> rfl

theorem notices_beginOutermost (f : Callable) (site : CallSite) (isStrict : Bool) :
    (beginOutermost host m f site isStrict s).state.notices c = s.notices c := by
  unfold beginOutermost
  split
  · rfl
  · dsimp only
    split <;> rfl

theorem notices_beginCapturing (f : Callable) (d : Id .context) (scope : Id .scope)
    (args : List Value) (isStrict : Bool) :
    (beginCapturing host m f d scope args isStrict s).state.notices c = s.notices c :=
  notices_beginOutermost host c _ (.cons (.restoreCaptures d (m.context d).acceptsCaptures) s) f _ _

theorem notices_beginStep (g : Generator) (op : GeneratorOp) (d : Id .context) (v : Value)
    (s : Stack σ .step goal) : (beginStep m g op d v s).state.notices c = s.notices c := by
  unfold beginStep
  dsimp only
  split
  · cases op <;> rfl
  · split
    · rfl
    · split
      · cases op with
        | next => rfl
        | throw | «return» =>
          dsimp only
          split <;> rfl
      · cases op <;> rfl

theorem notices_beginResumption (via : Executable) (g : Generator) (op : GeneratorOp)
    (d : Id .context) (scope : Id .scope) (v : Value) (s : Stack σ .step goal) :
    (beginResumption host m via g op d scope v s).state.notices c = s.notices c := by
  unfold beginResumption
  split
  · rfl
  · split
    · exact notices_beginStep c m g op d v s
    · exact notices_beginOutermost host c _ (.cons (.reportStep _) s) _ _ _

theorem notices_beginContinuation (k : Id .continuation) (v : Value) (d : Id .context) :
    (beginContinuation m k v d s).state.notices c = s.notices c := by
  unfold beginContinuation
  split <;> rfl

theorem notices_beginCall (f : Callable) (site : CallSite) :
    (beginCall host m f site s).state.notices c = s.notices c := by
  cases f with
  | executable e =>
    simp only [beginCall]
    split
    · exact notices_interpret c m s e site
    · exact notices_beginOutermost host c m s _ site _
  | hostFunction f => rfl
  | resumption r g op => exact notices_beginStep c _ g op _ _ (.cons (.recordStep r) s)
  | continuation k v => exact notices_beginContinuation c m s k v _

theorem notices_beginMake (f : Id .factory) (s : Stack σ .made goal) :
    (beginMake host m f s).state.notices c = s.notices c := by
  unfold beginMake
  split <;> rfl

theorem notices_beginCapturingCall (e : Executable) (d : Id .context) (scope : Id .scope)
    (args : List Value) :
    (beginAction.beginCapturingCall host m e d scope args s).state.notices c = s.notices c := by
  unfold beginAction.beginCapturingCall
  split
  · rfl
  · exact notices_beginCapturing host c m s _ d scope args _

/-- An action that is neither an enter nor an exit. -/
theorem notices_beginAction {κ : Kind} {a : Action} {next : a.kind.Result → Program σ κ}
    {s : Stack σ κ goal} (hnone : (State.running (.act a next) s).operation? = none) :
    (beginAction host thread m a (.cons (.program next) s)).state.notices c = s.notices c := by
  cases a with
  | call f site => rfl
  | callOutermost f site isStrict => exact notices_beginOutermost host c m _ f site isStrict
  | execute e d scope =>
    simp only [beginAction]
    split <;> rfl
  | executeCapturing e d scope =>
    simp only [beginAction]
    split
    · rfl
    · exact notices_beginCapturingCall host c m _ e d scope []
  | callCapturing e d scope args => exact notices_beginCapturingCall host c m _ e d scope args
  | resume k d scope v =>
    simp only [beginAction]
    split
    · rfl
    · split
      · rfl
      · exact notices_beginCapturing host c m _ _ d scope [] _
  | step via g op d scope v => exact notices_beginResumption host c m via g op d scope v _
  | enter f requested => cases hnone
  | exit => cases hnone
  | makeContext f => exact notices_beginMake host c m f _

theorem notices_endBody (g : Generator) (e : Except Abrupt Exit) (s : Stack σ .step goal) :
    (endBody m g e s).state.notices c = s.notices c := by
  unfold endBody
  dsimp only
  split <;> rfl

/-- The first notice of a task is delivered, the others stay. -/
theorem notices_take {t : Task σ α β} {x : α.Result} {s : Stack σ β goal}
    (hnone : (State.returning x (.cons t s)).operation? = none)
    (hbinds : (State.returning x (.cons t s)).binds? = none) :
    ((State.returning x (.cons t s)).notice? c).toList ++
        (take host thread m t x s).state.notices c = t.notices c ++ s.notices c := by
  cases t with
  | flattenResult | reportStep | observed | recordStep | bracketBody =>
    cases x
    · rfl
    · rfl
  | called a =>
    cases x with
    | ok v => exact notices_follow c m _ _ s
    | error e => exact notices_follow c _ _ _ s
  | callEnd =>
    cases x with
    | ok exit => cases exit <;> rfl
    | error e => rfl
  | bodyEnd g => exact notices_endBody c m g x s
  | notifying event d rest =>
    cases rest with
    | nil =>
      simp [State.notice?, Stack.notice?, Task.notice?, take, State.notices, Task.notices, notices]
    | cons l rest =>
      by_cases hd : d = c <;>
        simp [State.notice?, Stack.notice?, Task.notice?, take, State.notices, Stack.notices,
          Task.notices, notices, hd]
  | bindMade => cases hbinds
  | release => cases hnone
  | program | clearTopCall | restoreCaptures | entered | left | released | repanic | guarded => rfl

theorem notices_passPanic {t : Task σ α β} {s : Stack σ β goal}
    (hnone : (State.panicking (.cons t s)).operation? = none)
    (hcalm : (State.panicking (.cons t s)).isListenerPanic = false) :
    (passPanic thread m t s).state.notices c = s.notices c := by
  cases t with
  | release => cases hnone
  | notifying | repanic => cases hcalm
  | _ => rfl

theorem notices_runProgram {κ : Kind} {p : Program σ κ} {s : Stack σ κ goal}
    (hnone : (State.running p s).operation? = none) :
    (runProgram host thread m p s).state.notices c = s.notices c := by
  cases p with
  | act a k => exact notices_beginAction host thread c m hnone
  | bracket f body k => cases hnone
  | finish | panic | ask | guard => rfl

theorem notices_count (a : Activation) (s : Stack σ .exit goal) :
    (count host m a s).state.notices c = s.notices c := by
  unfold count
  dsimp only
  split <;> rfl

/-- A step that begins no operation and binds no made context delivers the next notice, if
there is one, and leaves the others. -/
theorem notices_step_of_quiet {X : Config σ goal} (hnone : X.state.operation? = none)
    (hbinds : X.state.binds? = none) (hcalm : X.state.isListenerPanic = false) :
    (X.state.notice? c).toList ++ (X.step host thread).state.notices c = X.state.notices c := by
  obtain ⟨m, state⟩ := X
  cases state with
  | running p s => exact notices_runProgram host thread c m hnone
  | calling f site s => exact notices_beginCall host c m s f site
  | counting a s => exact notices_count host c m a s
  | executing a s => exact notices_execute c m a s
  | returning x s =>
    cases s with
    | nil => rfl
    | cons t s => exact notices_take host thread c m hnone hbinds
  | panicking s =>
    cases s with
    | nil => rfl
    | cons t s =>
      have ht : t.notices c = [] := by
        cases t with
        | notifying => cases hcalm
        | _ => rfl
      refine (notices_passPanic thread c m hnone hcalm).trans ?_
      rw [State.notices, Stack.notices, ht, List.nil_append]
  | crashed => rfl

/-! ## Steps that bind or release -/

/-- The notices on a stack, with those of an event put on it. -/
theorem notices_beginNotify {event : ContextEvent} {d : Id .context} {m m' : Store σ}
    (hevent : m.event? m' c = if d = c then some event else none)
    (hfactory : m'.factoryOf d = m.factoryOf d) (s : Stack σ .done goal) :
    (beginNotify m' event d s).state.notices c = m.announces m' c ++ s.notices c := by
  rw [Store.announces, hevent, beginNotify, hfactory]
  by_cases hd : d = c
  · subst hd
    simp [State.notices, Stack.notices, Task.notices]
  · simp [State.notices, Stack.notices, Task.notices, hd]

theorem notices_beginBind {d : Id .context} {m : Store σ} (hknown : m.Knows d)
    (s : Stack σ .entered goal) :
    (beginBind thread m d s).state.notices c =
      m.announces (beginBind thread m d s).store c ++ s.notices c := by
  cases hbound : (m.binding d).1 with
  | some owner =>
    obtain ⟨cause, hbegin⟩ := exists_beginBind_bound thread (by rw [hbound]; rfl) s
    rw [hbegin, (Store.SameBindings.refl m).announces]
    rfl
  | none =>
    obtain ⟨m', hrebinds, hbegin⟩ := exists_beginBind_free thread hknown hbound s
    have hsteady := beginBind_steady thread (.refl m) d s
    rw [hbegin] at hsteady ⊢
    have hevent := hrebinds.event? c
    rw [hbound] at hevent
    exact notices_beginNotify c hevent (hsteady.factoryOf hknown) (.cons (.entered d) s)

theorem notices_beginEnter {m : Store σ} (hm : m.Entered) {f : Id .factory}
    {requested : Option (Id .context)} (hknown : ∀ d, requested = some d → m.Knows d)
    (s : Stack σ .entered goal) :
    (beginEnter host thread m f requested s).state.notices c =
      m.announces (beginEnter host thread m f requested s).store c ++ s.notices c := by
  cases hcurrent : m.current? thread with
  | some d =>
    obtain ⟨m', hrebinds, hbegin⟩ :=
      exists_beginEnter_nested host thread (hm.knows hcurrent) hcurrent f requested s
    rw [hbegin, Store.announces, hrebinds.event?, ContextEvent.between?_self, ite_self]
    rfl
  | none =>
    cases requested with
    | some d =>
      simp only [beginEnter, hcurrent]
      exact notices_beginBind thread c (hknown d rfl) s
    | none =>
      have hsame : m.SameBindings (beginMake host m f (.cons .bindMade s)).store := by
        have hmake := beginMake_append host m f .nil (.cons .bindMade s)
        rw [Stack.nil_append] at hmake
        rw [hmake]
        exact (beginMake_quiet host (s := .nil) ⟨.refl m, trivial⟩ f).1
      simp only [beginEnter, hcurrent]
      rw [hsame.announces]
      exact notices_beginMake host c m f (.cons .bindMade s)

theorem notices_beginExit {m : Store σ} (hm : m.Entered) (s : Stack σ .left goal) :
    (beginExit thread m s).state.notices c =
      m.announces (beginExit thread m s).store c ++ s.notices c := by
  cases hcurrent : m.current? thread with
  | none =>
    rw [beginExit_free hcurrent, (Store.SameBindings.refl m).announces]
    rfl
  | some d =>
    obtain ⟨hbound, hpos⟩ := hm thread d hcurrent
    obtain ⟨count, hcount⟩ := Nat.exists_eq_succ_of_ne_zero (Nat.ne_of_gt hpos)
    cases count with
    | zero =>
      obtain ⟨m', hrebinds, hbegin⟩ := exists_beginExit_last thread hcurrent hcount s
      have hsteady := beginExit_steady thread (.refl m) s
      rw [hbegin] at hsteady ⊢
      have hevent := hrebinds.event? c
      rw [hbound] at hevent
      exact notices_beginNotify c hevent (hsteady.factoryOf (hm.knows hcurrent)) (.cons .left s)
    | succ count =>
      obtain ⟨m', hrebinds, hbegin⟩ := exists_beginExit_nested thread hcurrent hcount s
      rw [hbegin, Store.announces, hrebinds.event?, ContextEvent.between?_self, ite_self]
      rfl

/-- All that a step does to the notices about a context: it delivers the first one that is due or
adds those of the event that it causes. -/
theorem notices_step {X : Config σ goal} (hX : X.store.Entered)
    (hknown : ∀ d, X.state.binds? = some d → X.store.Knows d)
    (hcalm : X.state.isListenerPanic = false) :
    (X.state.notice? c).toList ++ (X.step host thread).state.notices c =
      X.store.announces (X.step host thread).store c ++ X.state.notices c := by
  cases hoperation : X.state.operation? with
  | some o =>
    rw [step_of_operation host thread hoperation]
    obtain ⟨m, state⟩ := X
    dsimp only at hoperation hknown hX ⊢
    unfold State.operation? at hoperation
    split at hoperation <;> cases hoperation
    · exact notices_beginEnter host thread c hX hknown _
    · exact notices_beginExit thread c hX _
    · exact notices_beginEnter host thread c hX (fun d hd => by cases hd) _
    · exact notices_beginExit thread c hX _
    · exact notices_beginExit thread c hX _
  | none =>
    cases hbinds : X.state.binds? with
    | none =>
      rw [(sameBindings_step host hoperation hbinds).announces]
      exact notices_step_of_quiet host thread c hoperation hbinds hcalm
    | some d =>
      have hd := hknown d hbinds
      obtain ⟨m, state⟩ := X
      dsimp only at hoperation hbinds hd ⊢
      unfold State.binds? at hbinds
      split at hbinds
      · cases hoperation
      · cases hbinds
        simp only [step, take]
        split
        · rw [(Store.SameBindings.refl m).announces]
          rfl
        · exact notices_beginBind thread c hd _
      · cases hbinds

/-! ## What listeners do -/

/-- A notice is delivered by running the code of the listener. -/
theorem step_of_notice? {X : Config σ goal} {n : Notice} (h : X.state.notice? c = some n) :
    ∃ rest : Stack σ .done goal,
      X.step host thread = ⟨X.store, .running (host.notify n.listener n.event c) rest⟩ := by
  obtain ⟨m, state⟩ := X
  cases state with
  | returning x s =>
    cases s with
    | nil => cases h
    | cons t s =>
      cases t with
      | notifying event d rest =>
        cases rest with
        | nil => cases h
        | cons l rest =>
          obtain ⟨rfl, rfl⟩ := Option.ite_some_none_eq_some.mp h
          exact ⟨.cons (.notifying event d rest) s, rfl⟩
      | _ => cases h
  | _ => cases h

/-- A step that delivers no notice runs no code of a listener. -/
theorem step_of_notice?_eq_none {X : Config σ goal} (h : ∀ c, X.state.notice? c = none)
    (notify : Id .listener → ContextEvent → Id .context → Program σ .done) :
    X.step { host with notify } thread = X.step host thread := by
  apply step_congr_host host thread notify host.resolve
  · intro event c l rest x s hstate
    have hnone := h c
    rw [hstate] at hnone
    simp [State.notice?, Stack.notice?, Task.notice?] at hnone
  · intros
    rfl

end Config

end ScriptMachine
