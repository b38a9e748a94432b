import ScriptMachine.Proofs.Machine.Moves
import ScriptMachine.Proofs.Machine.Nesting

/-!
# The bookkeeping of a context

Whatever a program does, it leaves the top call of every context, whether it accepts captures
and the number of its activations as it found them. What is still open at some moment is owed by
the tasks on the stack: `State.Settles` says what the bookkeeping comes to once they are
through, be it by results or by a panic, `Config.step_keeps` that no step changes this, and
`Config.settled_of_run` what that means for a run to its end.
-/

namespace ScriptMachine

variable {σ : Type} {α β goal : Kind}

/-- The bookkeeping of a running script. -/
structure Ledger where
  topCall : Option TopCall
  acceptsCaptures : Bool
  depth : Nat

/-- The bookkeeping in the state of a context. -/
def Context.ledger (cx : Context) : Ledger := ⟨cx.topCall, cx.acceptsCaptures, cx.depth⟩

namespace Context

variable {cx cx' : Context}

/-- Counting instructions does not touch the bookkeeping. -/
theorem ledger_countInstruction (cx : Context) : cx.countInstruction.2.ledger = cx.ledger := by
  simp only [countInstruction]
  split
  · rfl
  · split <;> rfl

/-- Nor does binding a context to a thread. -/
theorem ledger_bind {thread : Id .thread} (h : cx.bind thread = .ok cx') :
    cx'.ledger = cx.ledger := by
  unfold bind at h
  split at h <;> cases h
  rfl

/-- Nor does giving up a level of the binding. -/
theorem ledger_release {last : Bool} (h : cx.release = .ok (last, cx')) :
    cx'.ledger = cx.ledger := by
  unfold release at h
  split at h <;> cases h <;> rfl

end Context

/-- The bookkeeping of a context. -/
def Store.ledger (m : Store σ) (c : Id .context) : Ledger := (m.context c).ledger

/-- The context was made. -/
def Store.Knows (m : Store σ) (c : Id .context) : Prop := (m.contexts.get? c).isSome

namespace Ledger

/-- An activation is left. -/
def leave (l : Ledger) : Ledger := { l with depth := l.depth - 1 }

/-- An activation of some context is left. -/
def leaveIn (c other : Id .context) (l : Ledger) : Ledger := if other = c then l.leave else l

end Ledger

/-! ## What the tasks owe -/

/-- What a task does to the bookkeeping of a context when a result or a panic has passed it. -/
def Task.settle (c : Id .context) : Task σ α β → Ledger → Ledger
  | .clearTopCall other, l => if other = c then { l with topCall := none } else l
  | .restoreCaptures other previous, l =>
    if other = c then { l with acceptsCaptures := previous } else l
  | .called a, l | .observed a, l => l.leaveIn c a.context
  | _, l => l

/-- What a stack does to the bookkeeping of a context. -/
def Stack.settle (c : Id .context) : {α : Kind} → Stack σ α goal → Ledger → Ledger
  | _, .nil, l => l
  | _, .cons t rest, l => rest.settle c (t.settle c l)

@[simp] theorem Stack.settle_nil (c : Id .context) (l : Ledger) :
    (Stack.nil : Stack σ goal goal).settle c l = l := rfl

@[simp] theorem Stack.settle_cons (c : Id .context) (t : Task σ α β) (rest : Stack σ β goal)
    (l : Ledger) : (Stack.cons t rest).settle c l = rest.settle c (t.settle c l) := rfl

/-- Bookkeeping that comes to `l` when everything under way is through. A crash settles
nothing. -/
def State.Settles (c : Id .context) (now l : Ledger) : State σ goal → Prop
  | .running _ s | .calling _ _ s | .returning _ s | .panicking s => s.settle c now = l
  | .counting a s | .executing a s => s.settle c (now.leaveIn c a.context) = l
  | .crashed => True

/-- A known context whose bookkeeping comes to `l`. -/
def Config.Keeps (c : Id .context) (l : Ledger) (config : Config σ goal) : Prop :=
  config.store.Knows c ∧ config.state.Settles c (config.store.ledger c) l

/-- A known context whose bookkeeping comes to `l` by way of a stack. -/
def Stack.Keeps (c : Id .context) (l : Ledger) (m : Store σ) (s : Stack σ α goal) : Prop :=
  m.Knows c ∧ s.settle c (m.ledger c) = l

/-- Leaving only takes away: no less is under way than in the end. -/
theorem Ledger.depth_leaveIn_le (l : Ledger) (c other : Id .context) :
    (l.leaveIn c other).depth ≤ l.depth := by
  unfold leaveIn
  split
  · exact Nat.sub_le _ _
  · exact Nat.le_refl _

theorem Task.depth_settle_le (t : Task σ α β) (c : Id .context) (l : Ledger) :
    (t.settle c l).depth ≤ l.depth := by
  cases t with
  | called a => exact l.depth_leaveIn_le c a.context
  | observed a => exact l.depth_leaveIn_le c a.context
  | clearTopCall other =>
    simp only [settle]
    split <;> exact Nat.le_refl _
  | restoreCaptures other previous =>
    simp only [settle]
    split <;> exact Nat.le_refl _
  | _ => exact Nat.le_refl _

theorem Stack.depth_settle_le (s : Stack σ α goal) (c : Id .context) (l : Ledger) :
    (s.settle c l).depth ≤ l.depth := by
  induction s generalizing l with
  | nil => exact Nat.le_refl _
  | cons t rest ih => exact Nat.le_trans (ih _) (t.depth_settle_le c l)

/-! ## Changes of the store -/

namespace Store

variable {m m' : Store σ} {c : Id .context}

theorem knows_modifyContext (other : Id .context) (f : Context → Context) (h : m.Knows c) :
    (m.modifyContext other f).Knows c := by
  simp only [Knows, modifyContext, Table.get?_modify] at *
  split <;> simp_all

theorem context_modifyContext_of_ne {other : Id .context} (h : c ≠ other)
    (f : Context → Context) : (m.modifyContext other f).context c = m.context c := by
  simp only [context, modifyContext, Table.get, Table.get?_modify, if_neg h]

theorem context_modifyContext (h : m.Knows c) (f : Context → Context) :
    (m.modifyContext c f).context c = f (m.context c) := by
  simp only [Knows] at h
  obtain ⟨cx, hcx⟩ := Option.isSome_iff_exists.mp h
  simp only [context, modifyContext, Table.get, Table.get?_modify, if_true, hcx, Option.map_some,
    Option.getD_some]

theorem ledger_modifyContext (hm : m.Knows c) (other : Id .context) {f : Context → Context}
    {g : Ledger → Ledger} (hf : (f (m.context other)).ledger = g (m.context other).ledger) :
    (m.modifyContext other f).ledger c = if other = c then g (m.ledger c) else m.ledger c := by
  split
  · next h =>
    subst h
    rw [ledger, context_modifyContext hm, hf, ledger]
  · next h => rw [ledger, context_modifyContext_of_ne (Ne.symm h), ledger]

/-- The known contexts of a store are known in another one, with the same bookkeeping. -/
def Agrees (m m' : Store σ) : Prop := ∀ c, m.Knows c → m'.Knows c ∧ m'.ledger c = m.ledger c

theorem Agrees.refl (m : Store σ) : m.Agrees m := fun _ h => ⟨h, rfl⟩

theorem agrees_of_contexts_eq (h : m'.contexts = m.contexts) : m.Agrees m' := by
  intro c hc
  simp only [Knows, ledger, context, h, and_true]
  exact hc

theorem agrees_modifyContext (m : Store σ) (other : Id .context) {f : Context → Context}
    (hf : (f (m.context other)).ledger = (m.context other).ledger) :
    m.Agrees (m.modifyContext other f) := by
  intro c hc
  refine ⟨knows_modifyContext other f hc, ?_⟩
  rw [ledger_modifyContext (g := id) hc other hf, id, ite_self]

theorem agrees_insert (m : Store σ) (cx : Context) :
    m.Agrees { m with contexts := (m.contexts.insert cx).2 } := by
  intro c hc
  have hne : c ≠ m.contexts.next := by
    rintro rfl
    simp [Knows, Table.get?, Table.next] at hc
  simp only [Knows, ledger, context, Table.get, Table.get?_insert, if_neg hne, and_true]
  exact hc

theorem agrees_newContext (m : Store σ) (f : Id .factory) : m.Agrees (m.newContext f).2 :=
  agrees_insert _ _

theorem agrees_plannedContext (m : Store σ) (f : Id .factory) (plan : ContextPlan) :
    m.Agrees (m.plannedContext f plan).2 := agrees_insert _ _

theorem contexts_createExecutable (host : Host σ) (thread : Id .thread) (m : Store σ)
    (kind : RoutineKind) (r : SharedRoutine) (domain : Option Payload) :
    (m.createExecutable host thread kind r domain).2.contexts = m.contexts := by
  unfold createExecutable
  split
  · rfl
  · split
    · rfl
    · split
      · rfl
      · split
        · rfl
        · split <;> rfl

theorem contexts_requestCapture {p : Pending} (h : m.requestCapture c = .ok (p, m')) :
    m'.contexts = m.contexts := by
  obtain ⟨continuations, rfl⟩ := requestCapture_frame h
  rfl

/-- No query touches the bookkeeping of a context. -/
theorem agrees_ask (host : Host σ) (thread : Id .thread) (m : Store σ) (q : Query σ) :
    m.Agrees (q.perform host thread m).2 := by
  cases q with
  | context q =>
    cases q with
    | create f => exact agrees_newContext _ _
    | setController c controller =>
      simp only [Query.perform, ContextQuery.perform]
      split
      · exact Agrees.refl m
      · exact agrees_modifyContext _ _ rfl
    | requestCapture c =>
      simp only [Query.perform, ContextQuery.perform]
      split
      · next h => exact agrees_of_contexts_eq (contexts_requestCapture h)
      · exact Agrees.refl m
    | state | current | hasFeature => exact Agrees.refl m
    | setVersion | setThreshold | setFrameLimit | setCountsGenerated | setExtension =>
      exact agrees_modifyContext _ _ rfl
  | code q =>
    cases q with
    | share r => exact agrees_of_contexts_eq rfl
    | create kind r domain =>
      exact agrees_of_contexts_eq (contexts_createExecutable host thread m kind r domain)
    | nested e index =>
      simp only [Query.perform, CodeQuery.perform]
      split <;> exact agrees_of_contexts_eq rfl
  | _ => exact agrees_of_contexts_eq rfl

theorem agrees_takeFrames {k : Id .continuation} {frames : List Frame}
    (h : m.takeFrames k = .ok (frames, m')) : m.Agrees m' := by
  obtain ⟨continuations, rfl⟩ := takeFrames_frame h
  exact agrees_of_contexts_eq rfl

end Store

namespace Stack

variable {m m' : Store σ} {c : Id .context} {l : Ledger} {s : Stack σ α goal}

theorem Keeps.of_agrees (h : s.Keeps c l m) (hm : m.Agrees m') : s.Keeps c l m' := by
  obtain ⟨hk, hl⟩ := hm c h.1
  refine ⟨hk, ?_⟩
  rw [hl]
  exact h.2

/-- The store may change in everything but its contexts. -/
theorem Keeps.of_contexts_eq (h : s.Keeps c l m) (hm : m'.contexts = m.contexts) :
    s.Keeps c l m' := h.of_agrees (Store.agrees_of_contexts_eq hm)

/-- A context changes, and a task is put on top that owes the change. -/
theorem Keeps.owe (h : s.Keeps c l m) {other : Id .context} {f : Context → Context}
    {g : Ledger → Ledger} {t : Task σ β α}
    (hf : (f (m.context other)).ledger = g (m.context other).ledger)
    (ht : t.settle c (if other = c then g (m.ledger c) else m.ledger c) = m.ledger c) :
    (Stack.cons t s).Keeps c l (m.modifyContext other f) := by
  refine ⟨Store.knows_modifyContext other f h.1, ?_⟩
  rw [Store.ledger_modifyContext h.1 other hf, settle_cons, ht]
  exact h.2

/-- A task goes, and the context changes by what the task owed. -/
theorem Keeps.pay {t : Task σ β α} (h : (Stack.cons t s).Keeps c l m) {other : Id .context}
    {f : Context → Context} {g : Ledger → Ledger}
    (hf : (f (m.context other)).ledger = g (m.context other).ledger)
    (ht : ∀ l, t.settle c l = if other = c then g l else l) :
    s.Keeps c l (m.modifyContext other f) := by
  refine ⟨Store.knows_modifyContext other f h.1, ?_⟩
  rw [Store.ledger_modifyContext h.1 other hf, ← ht]
  exact h.2

theorem Keeps.enter (a : Activation) {s : Stack σ .exit goal} (h : s.Keeps c l m) :
    (Stack.cons (.called a) s).Keeps c l (Config.changeDepth m a.context (· + 1)) := by
  refine h.owe (g := fun l => { l with depth := l.depth + 1 }) rfl ?_
  simp only [Task.settle, Ledger.leaveIn]
  split <;> rfl

theorem Keeps.leave {a : Activation} {s : Stack σ .exit goal}
    (h : (Stack.cons (.called a) s).Keeps c l m) :
    s.Keeps c l (Config.changeDepth m a.context (· - 1)) :=
  h.pay (g := Ledger.leave) rfl fun _ => rfl

end Stack

/-! ## The beginnings of activities -/

namespace Config

variable (host : Host σ) (thread : Id .thread) {m : Store σ} {c : Id .context} {l : Ledger}

theorem follow_keeps {a : Activation} {flow : Flow} {s : Stack σ .exit goal}
    (h : (Stack.cons (.called a) s).Keeps c l m) (hflow : flow.Continues a) :
    (follow m a.context flow s).Keeps c l := by
  cases flow with
  | next b =>
    obtain ⟨f, callers, rfl⟩ := hflow
    exact h
  | leave e => exact h.leave

theorem execute_keeps {a : Activation} {s : Stack σ .exit goal}
    (h : (Stack.cons (.called a) s).Keeps c l m) : (execute m a s).Keeps c l := by
  have hmove := a.execute_continues m
  have hm := (a.execute_frame m).1
  unfold execute
  split
  · next flow m' heq =>
    rw [heq] at hmove hm
    exact follow_keeps (h.of_contexts_eq hm) hmove
  · next b f site m' heq =>
    rw [heq] at hmove hm
    obtain ⟨⟨g, callers, rfl⟩, -, -⟩ := hmove
    exact h.of_contexts_eq hm

theorem beginActivation_keeps {s : Stack σ .exit goal} (h : s.Keeps c l m)
    (other : Id .context) (frames : List Frame) (isGenerator : Bool) :
    (beginActivation m other frames isGenerator s).Keeps c l :=
  h.enter ⟨other, frames, (m.context other).frameLimit, isGenerator⟩

variable {s : Stack σ .completion goal}

theorem interpret_keeps (h : s.Keeps c l m) (e : Executable) (site : CallSite) :
    (interpret m e site s).Keeps c l := by
  unfold interpret
  dsimp only
  split
  · exact h.of_contexts_eq rfl
  · exact beginActivation_keeps (s := .cons .callEnd s) h _ _ _

theorem beginOutermost_keeps (h : s.Keeps c l m) (f : Callable) (site : CallSite)
    (isStrict : Bool) : (beginOutermost host m f site isStrict s).Keeps c l := by
  unfold beginOutermost
  split
  · exact h
  · next htop =>
    -- there was no top call, so clearing the new one restores the old bookkeeping
    have howe : (Stack.cons (.clearTopCall site.context) s).Keeps c l
        (m.modifyContext site.context fun cx =>
          { cx with topCall := some ⟨site.scope, isStrict⟩ }) := by
      refine h.owe (g := fun l => { l with topCall := some ⟨site.scope, isStrict⟩ }) rfl ?_
      by_cases hc : site.context = c
      · subst hc
        simp only [Task.settle, if_true]
        have hnone : (m.ledger site.context).topCall = none := by
          simpa [Store.ledger, Context.ledger] using htop
        rw [← hnone]
      · simp only [Task.settle, if_neg hc]
    dsimp only
    split
    · exact howe
    · exact howe
    · exact howe

theorem beginCapturing_keeps (h : s.Keeps c l m) (f : Callable) (other : Id .context)
    (scope : Id .scope) (args : List Value) (isStrict : Bool) :
    (beginCapturing host m f other scope args isStrict s).Keeps c l := by
  unfold beginCapturing
  refine beginOutermost_keeps host ?_ _ _ _
  refine h.owe (g := fun l => { l with acceptsCaptures := true }) rfl ?_
  by_cases hc : other = c
  · subst hc
    simp only [Task.settle, if_true]
    rfl
  · simp only [Task.settle, if_neg hc]

theorem beginStep_keeps {s : Stack σ .step goal} (h : s.Keeps c l m) (g : Generator)
    (op : GeneratorOp) (other : Id .context) (v : Value) :
    (beginStep m g op other v s).Keeps c l := by
  have hbody : ∀ m' : Store σ, m'.contexts = m.contexts →
      (Stack.cons (.bodyEnd g) s).Keeps c l m' := fun m' hm => h.of_contexts_eq hm
  unfold beginStep
  dsimp only
  split
  · cases op <;> exact h
  · split
    · exact h
    · split
      · cases op with
        | next => exact beginActivation_keeps (hbody _ rfl) _ _ _
        | throw =>
          dsimp only
          split
          · exact beginActivation_keeps (hbody _ rfl) _ _ _
          · exact hbody _ rfl
        | «return» =>
          dsimp only
          split
          · exact beginActivation_keeps (hbody _ rfl) _ _ _
          · exact hbody _ rfl
      · cases op with
        | next => exact beginActivation_keeps (hbody _ rfl) _ _ _
        | throw | «return» => exact h.of_contexts_eq rfl

theorem beginResumption_keeps {s : Stack σ .step goal} (h : s.Keeps c l m) (via : Executable)
    (g : Generator) (op : GeneratorOp) (other : Id .context) (scope : Id .scope) (v : Value) :
    (beginResumption host m via g op other scope v s).Keeps c l := by
  unfold beginResumption
  split
  · exact h
  · split
    · exact beginStep_keeps h _ _ _ _
    · exact beginOutermost_keeps host (s := .cons (.reportStep _) s) (h.of_contexts_eq rfl) _ _ _

theorem beginContinuation_keeps (h : s.Keeps c l m) (k : Id .continuation) (v : Value)
    (other : Id .context) : (beginContinuation m k v other s).Keeps c l := by
  unfold beginContinuation
  split
  · exact h
  · next heq => exact h.of_agrees (Store.agrees_takeFrames heq)
  · next heq =>
    exact beginActivation_keeps (s := .cons .callEnd s)
      (h.of_agrees (Store.agrees_takeFrames heq)) _ _ _

theorem beginCall_keeps (h : s.Keeps c l m) (f : Callable) (site : CallSite) :
    (beginCall host m f site s).Keeps c l := by
  cases f with
  | executable e =>
    simp only [beginCall]
    split
    · exact interpret_keeps h _ _
    · exact beginOutermost_keeps host h _ _ _
  | hostFunction f => exact h
  | resumption r g op =>
    have hr : (Stack.cons (.recordStep r) s).Keeps c l { m with
        resumptions := m.resumptions.modify r fun x => { x with value := none } } :=
      h.of_contexts_eq rfl
    exact beginStep_keeps hr _ _ _ _
  | continuation k v => exact beginContinuation_keeps h _ _ _

theorem beginMake_keeps {s : Stack σ .made goal} (h : s.Keeps c l m) (f : Id .factory) :
    (beginMake host m f s).Keeps c l := by
  unfold beginMake
  split
  · exact h.of_agrees (Store.agrees_newContext _ _)
  · exact h.of_agrees (Store.agrees_plannedContext _ _ _)
  · exact h

theorem beginBind_keeps {s : Stack σ .entered goal} (h : s.Keeps c l m) (other : Id .context) :
    (beginBind thread m other s).Keeps c l := by
  unfold beginBind
  split
  · exact h
  · next cx hbind =>
    exact h.of_agrees
      (Store.agrees_modifyContext m other (f := fun _ => cx) (Context.ledger_bind hbind))

theorem beginEnter_keeps {s : Stack σ .entered goal} (h : s.Keeps c l m) (f : Id .factory)
    (requested : Option (Id .context)) :
    (beginEnter host thread m f requested s).Keeps c l := by
  unfold beginEnter
  split
  · exact h.of_agrees (Store.agrees_modifyContext _ _ rfl)
  · split
    · exact beginBind_keeps thread h _
    · exact beginMake_keeps host (s := .cons .bindMade s) h _

theorem beginExit_keeps {s : Stack σ .left goal} (h : s.Keeps c l m) :
    (beginExit thread m s).Keeps c l := by
  unfold beginExit
  split
  · exact h
  · next other _ =>
    split
    · exact h
    · next cx hrelease =>
      exact h.of_agrees
        (Store.agrees_modifyContext m other (f := fun _ => cx) (Context.ledger_release hrelease))
    · next cx hrelease =>
      exact h.of_agrees
        (Store.agrees_modifyContext m other (f := fun _ => cx) (Context.ledger_release hrelease))

theorem beginCapturingCall_keeps (h : s.Keeps c l m) (e : Executable) (other : Id .context)
    (scope : Id .scope) (args : List Value) :
    (beginAction.beginCapturingCall host m e other scope args s).Keeps c l := by
  unfold beginAction.beginCapturingCall
  split
  · exact h
  · exact beginCapturing_keeps host h _ _ _ _ _

theorem beginAction_keeps (a : Action) {s : Stack σ a.kind goal} (h : s.Keeps c l m) :
    (beginAction host thread m a s).Keeps c l := by
  cases a with
  | call f site => exact h
  | callOutermost f site isStrict => exact beginOutermost_keeps host h _ _ _
  | execute e other scope =>
    simp only [beginAction]
    split <;> exact h
  | executeCapturing e other scope =>
    simp only [beginAction]
    split
    · exact h
    · exact beginCapturingCall_keeps host h _ _ _ _
  | callCapturing e other scope args => exact beginCapturingCall_keeps host h _ _ _ _
  | resume k other scope v =>
    simp only [beginAction]
    split
    · exact h
    · split
      · exact h
      · exact beginCapturing_keeps host h _ _ _ _ _
  | step via g op other scope v => exact beginResumption_keeps host h _ _ _ _ _ _
  | enter f requested => exact beginEnter_keeps host thread h _ _
  | exit => exact beginExit_keeps thread h
  | makeContext f => exact beginMake_keeps host h _

/-! ## Results, panics and steps -/

theorem endBody_keeps {s : Stack σ .step goal} (h : s.Keeps c l m) (g : Generator)
    (e : Except Abrupt Exit) : (endBody m g e s).Keeps c l := by
  unfold endBody
  dsimp only
  split <;> exact h.of_contexts_eq rfl

theorem take_keeps (t : Task σ α β) (x : α.Result) {s : Stack σ β goal}
    (h : (Stack.cons t s).Keeps c l m) : (take host thread m t x s).Keeps c l := by
  cases t with
  | program k => exact h
  | clearTopCall other =>
    exact h.pay (g := fun l => { l with topCall := none }) rfl fun _ => rfl
  | restoreCaptures other previous =>
    exact h.pay (g := fun l => { l with acceptsCaptures := previous }) rfl fun _ => rfl
  | flattenResult =>
    cases x with
    | ok v => exact Stack.Keeps.of_contexts_eq (s := s) h rfl
    | error e => exact h
  | called a =>
    cases x with
    | ok v => exact follow_keeps h (a.deliver_continues v)
    | error e =>
      exact follow_keeps (h.of_contexts_eq (a.contexts_fail m e)) (a.fail_continues m e)
  | observed a =>
    cases x with
    | ok u => exact h
    | error reason =>
      have hleave : Flow.Continues a (.leave (.error (.aborted reason))) := trivial
      exact follow_keeps (a := a) h hleave
  | callEnd =>
    cases x with
    | ok exit => cases exit <;> exact h
    | error e => exact h
  | bodyEnd g => exact endBody_keeps h _ _
  | recordStep i =>
    cases x with
    | ok step => exact Stack.Keeps.of_contexts_eq (s := s) h rfl
    | error e => exact h
  | reportStep i => cases x <;> exact h
  | bindMade =>
    simp only [take]
    split
    · exact h
    · exact beginBind_keeps thread h _
  | notifying event other rest => cases rest <;> exact h
  | bracketBody body => cases x <;> exact h
  | release => exact beginExit_keeps thread (s := .cons .released s) h
  | entered | left | released | repanic | guarded => exact h

theorem passPanic_keeps (t : Task σ α β) {s : Stack σ β goal}
    (h : (Stack.cons t s).Keeps c l m) : (passPanic thread m t s).Keeps c l := by
  cases t with
  | clearTopCall other =>
    exact h.pay (g := fun l => { l with topCall := none }) rfl fun _ => rfl
  | restoreCaptures other previous =>
    exact h.pay (g := fun l => { l with acceptsCaptures := previous }) rfl fun _ => rfl
  | called a => exact h.leave
  | observed a => exact Stack.Keeps.leave (a := a) h
  | release => exact beginExit_keeps thread (s := .cons .repanic s) h
  | repanic => exact ⟨h.1, trivial⟩
  | _ => exact h

theorem runProgram_keeps {κ : Kind} (p : Program σ κ) {s : Stack σ κ goal} (h : s.Keeps c l m) :
    (runProgram host thread m p s).Keeps c l := by
  cases p with
  | ask q k => exact h.of_agrees (Store.agrees_ask host thread m q)
  | act a k => exact beginAction_keeps host thread a (s := .cons (.program k) s) h
  | bracket f body k =>
    exact beginEnter_keeps host thread (s := .cons (.bracketBody body) (.cons (.program k) s)) h _ _
  | finish | panic | guard => exact h

theorem count_keeps {a : Activation} {s : Stack σ .exit goal}
    (h : (Stack.cons (.called a) s).Keeps c l m) : (count host m a s).Keeps c l := by
  have hm := Store.agrees_modifyContext m a.context
    (f := fun _ => ((m.context a.context).countInstruction).2) (Context.ledger_countInstruction _)
  unfold count
  dsimp only
  split
  · exact h.of_agrees hm
  · exact h.of_agrees hm

/-- No step changes what the bookkeeping of a known context comes to. -/
theorem step_keeps {config : Config σ goal} (h : config.Keeps c l) :
    (config.step host thread).Keeps c l := by
  obtain ⟨m, state⟩ := config
  cases state with
  | running p s => exact runProgram_keeps host thread p h
  | calling f site s => exact beginCall_keeps host h f site
  | counting a s => exact count_keeps host h
  | executing a s => exact execute_keeps h
  | returning x s =>
    cases s with
    | nil => exact h
    | cons t s => exact take_keeps host thread t x h
  | panicking s =>
    cases s with
    | nil => exact h
    | cons t s => exact passPanic_keeps thread t h
  | crashed => exact h

theorem run_keeps {config : Config σ goal} (h : config.Keeps c l) (n : Nat) :
    (config.run host thread n).Keeps c l := by
  induction n generalizing config with
  | zero => exact h
  | succ n ih => exact ih (step_keeps host thread h)

end Config

end ScriptMachine
