import ScriptMachine.Proofs.Capture.Course
import ScriptMachine.Proofs.Forwarding.Blind
import ScriptMachine.Proofs.Machine.Bookkeeping

/-!
# One more activation under way

The number of activations of a context that are under way is looked at where a continuation is
asked for or captured, and host code may read it. Nothing else depends on it: with one more
activation under way the machine does the same (`Config.step_raise`), if host code is blind to
the number and no continuation is given out.
-/

namespace ScriptMachine

variable {σ : Type} {α β goal : Kind}

/-- One more activation of a context is under way. -/
def Context.raised (cx : Context) : Context := { cx with depth := cx.depth + 1 }

/-- One more activation of a context is under way, and this is the state of some context. -/
def Context.raisedIn (c other : Id .context) (cx : Context) : Context :=
  if other = c then cx.raised else cx

namespace Store

/-- One more activation of a context is under way. -/
def raise (c : Id .context) (m : Store σ) : Store σ := m.modifyContext c Context.raised

variable {m : Store σ} {c : Id .context}

theorem context_raise (h : m.Knows c) : (m.raise c).context c = (m.context c).raised :=
  context_modifyContext h _

theorem context_raise_of_ne {other : Id .context} (h : other ≠ c) :
    (m.raise c).context other = m.context other := context_modifyContext_of_ne h _

theorem context_raise_eq (h : m.Knows c) (other : Id .context) :
    (m.raise c).context other = (m.context other).raisedIn c other := by
  unfold Context.raisedIn
  split
  · next hc =>
    subst hc
    exact context_raise h
  · next hc => exact context_raise_of_ne hc

/-- A context differs in its depth at most. -/
theorem exists_context_raise (h : m.Knows c) (other : Id .context) :
    ∃ depth, (m.raise c).context other = { m.context other with depth } := by
  rw [context_raise_eq h, Context.raisedIn]
  split
  · exact ⟨_, rfl⟩
  · exact ⟨_, rfl⟩

theorem factoryOf_raise (h : m.Knows c) (other : Id .context) :
    (m.raise c).factoryOf other = m.factoryOf other := by
  obtain ⟨depth, hcx⟩ := exists_context_raise h other
  rw [factoryOf, hcx]
  rfl

theorem topCall_raise (h : m.Knows c) (other : Id .context) :
    ((m.raise c).context other).topCall = (m.context other).topCall := by
  obtain ⟨depth, hcx⟩ := exists_context_raise h other
  rw [hcx]

end Store

theorem Table.ext_get? {noun : Noun} {α : Type} {t u : Table noun α}
    (h : ∀ id, t.get? id = u.get? id) : t = u :=
  congrArg Table.mk (Array.ext_getElem? fun i => h ⟨i⟩)

namespace Store

variable {m : Store σ} {c : Id .context}

/-- Changes of a context that come to the same, but for the depth. -/
theorem raise_modifyContext {other : Id .context} {f g : Context → Context}
    (hself : other = c → g (m.context c).raised = (f (m.context c)).raised)
    (hother : other ≠ c → g (m.context other) = f (m.context other)) :
    (m.raise c).modifyContext other g = (m.modifyContext other f).raise c := by
  have hcontexts : (m.contexts.modify c Context.raised).modify other g =
      (m.contexts.modify other f).modify c Context.raised := by
    refine Table.ext_get? fun id => ?_
    simp only [Table.get?_modify]
    cases hid : m.contexts.get? id with
    | none => simp
    | some cx =>
      have hcx : m.context id = cx := by rw [context, Table.get, hid, Option.getD_some]
      by_cases ho : id = other
      · subst ho
        by_cases hc : id = c
        · subst hc
          simpa [hcx] using hself rfl
        · simpa [hcx, hc] using hother hc
      · simp [ho]
  exact congrArg (fun contexts => { m with contexts }) hcontexts

/-- The state of a context is replaced. -/
theorem raise_put (other : Id .context) (cx : Context) :
    (m.raise c).modifyContext other (fun _ => cx.raisedIn c other) =
      (m.modifyContext other fun _ => cx).raise c :=
  raise_modifyContext (fun h => if_pos h) fun h => if_neg h

/-- A change that has nothing to do with the depth. -/
theorem raise_modifyContext_of_commutes (other : Id .context) {f : Context → Context}
    (hf : ∀ cx, f cx.raised = (f cx).raised) :
    (m.raise c).modifyContext other f = (m.modifyContext other f).raise c :=
  raise_modifyContext (fun _ => hf _) fun _ => rfl

/-- A context that was made later is not changed. -/
theorem raise_insert (h : m.Knows c) (cx : Context) :
    ({ m.raise c with contexts := ((m.raise c).contexts.insert cx).2 } : Store σ) =
      ({ m with contexts := (m.contexts.insert cx).2 } : Store σ).raise c := by
  have hcontexts : ((m.contexts.modify c Context.raised).insert cx).2 =
      (m.contexts.insert cx).2.modify c Context.raised := by
    have hnext : (m.contexts.modify c Context.raised).next = m.contexts.next := by
      simp [Table.next, Table.modify]
    have hc : m.contexts.next ≠ c := by
      rintro rfl
      simp [Knows, Table.get?, Table.next] at h
    refine Table.ext_get? fun id => ?_
    simp only [Table.get?_insert, Table.get?_modify, hnext]
    by_cases hid : id = m.contexts.next
    · rw [if_pos hid, if_pos hid, if_neg (hid ▸ hc)]
    · rw [if_neg hid, if_neg hid]
  exact congrArg (fun contexts => { m with contexts }) hcontexts

/-- A continuation that is given out carries no state of the application yet. -/
theorem eq_of_requestCapture {m' : Store σ} {p : Pending}
    (h : m.requestCapture c = .ok (p, m')) : p = ⟨p.continuation, none⟩ := by
  unfold requestCapture at h
  dsimp only at h
  split at h
  · cases h
  · split at h
    · cases h
    · split at h
      · cases h
      · cases h
        rfl

theorem next_raise : (m.raise c).contexts.next = m.contexts.next := by
  simp [raise, modifyContext, Table.next, Table.modify]

end Store

/-! ## The beginnings of activities -/

namespace Config

/-- The same with one more activation of a context under way. -/
def raise (c : Id .context) (X : Config σ goal) : Config σ goal := ⟨X.store.raise c, X.state⟩

variable {host : Host σ} {thread : Id .thread} {c : Id .context} {m : Store σ}

theorem changeDepth_add_raise (other : Id .context) :
    changeDepth (m.raise c) other (· + 1) = (changeDepth m other (· + 1)).raise c :=
  Store.raise_modifyContext_of_commutes other fun _ => rfl

/-- An activation is left beneath the additional one only if there is one. -/
theorem changeDepth_sub_raise {other : Id .context}
    (h : other = c → 0 < (m.context c).depth) :
    changeDepth (m.raise c) other (· - 1) = (changeDepth m other (· - 1)).raise c := by
  refine Store.raise_modifyContext (fun ho => ?_) fun _ => rfl
  have hdepth : (m.context c).depth + 1 - 1 = (m.context c).depth - 1 + 1 := by
    have := h ho
    omega
  exact congrArg (fun depth => { m.context c with depth }) hdepth

/-- The additional activation is left again. -/
theorem changeDepth_sub_raise_self : changeDepth (m.raise c) c (· - 1) = m := by
  have hcontexts : (m.contexts.modify c Context.raised).modify c
      (fun cx => { cx with depth := cx.depth - 1 }) = m.contexts := by
    refine Table.ext_get? fun id => ?_
    simp only [Table.get?_modify]
    split
    · cases m.contexts.get? id <;> rfl
    · rfl
  exact congrArg (fun contexts => { m with contexts }) hcontexts

theorem follow_raise {other : Id .context} (h : other = c → 0 < (m.context c).depth)
    (flow : Flow) (s : Stack σ .exit goal) :
    follow (m.raise c) other flow s = (follow m other flow s).raise c := by
  cases flow with
  | next a => rfl
  | leave e => exact congrArg (give · .exit e s) (changeDepth_sub_raise h)

/-- No instruction depends on how many activations are under way. -/
theorem activation_execute_raise (a : Activation) :
    a.execute (m.raise c) = ((a.execute m).1, (a.execute m).2.raise c) := by
  rw [Activation.execute_eq a (m.raise c), Activation.execute_eq a m]
  rfl

theorem execute_raise {a : Activation} (h : a.context = c → 0 < (m.context c).depth)
    (s : Stack σ .exit goal) : execute (m.raise c) a s = (execute m a s).raise c := by
  have hcontexts : (a.execute m).2.contexts = m.contexts := (a.execute_frame m).1
  unfold execute
  rw [activation_execute_raise]
  generalize a.execute m = move at hcontexts
  obtain ⟨move, m'⟩ := move
  have hcontext : m'.context c = m.context c := congrArg (Table.get · c) hcontexts
  cases move with
  | flow flow =>
    refine follow_raise (fun ha => ?_) flow s
    rw [hcontext]
    exact h ha
  | call => rfl

variable (hk : m.Knows c)

include hk

theorem beginActivation_raise (other : Id .context) (frames : List Frame) (isGenerator : Bool)
    (s : Stack σ .exit goal) :
    beginActivation (m.raise c) other frames isGenerator s =
      (beginActivation m other frames isGenerator s).raise c := by
  obtain ⟨depth, hcx⟩ := Store.exists_context_raise hk other
  simp only [beginActivation, hcx, changeDepth_add_raise]
  rfl

theorem interpret_raise (e : Executable) (site : CallSite) (s : Stack σ .completion goal) :
    interpret (m.raise c) e site s = (interpret m e site s).raise c := by
  simp only [interpret]
  split
  · rfl
  · exact beginActivation_raise hk _ _ _ _

theorem beginOutermost_raise (f : Callable) (site : CallSite) (isStrict : Bool)
    (s : Stack σ .completion goal) :
    beginOutermost host (m.raise c) f site isStrict s =
      (beginOutermost host m f site isStrict s).raise c := by
  have hmodify : (m.raise c).modifyContext site.context (fun cx =>
      { cx with topCall := some ⟨site.scope, isStrict⟩ }) =
      (m.modifyContext site.context fun cx =>
        { cx with topCall := some ⟨site.scope, isStrict⟩ }).raise c :=
    Store.raise_modifyContext_of_commutes _ fun _ => rfl
  simp only [beginOutermost, Store.topCall_raise hk, hmodify,
    Store.factoryOf_raise (Store.knows_modifyContext _ _ hk)]
  split
  · rfl
  · split <;> rfl

theorem beginCapturing_raise (f : Callable) (other : Id .context) (scope : Id .scope)
    (args : List Value) (isStrict : Bool) (s : Stack σ .completion goal) :
    beginCapturing host (m.raise c) f other scope args isStrict s =
      (beginCapturing host m f other scope args isStrict s).raise c := by
  obtain ⟨depth, hcx⟩ := Store.exists_context_raise hk other
  have hmodify : (m.raise c).modifyContext other (fun cx => { cx with acceptsCaptures := true }) =
      (m.modifyContext other fun cx => { cx with acceptsCaptures := true }).raise c :=
    Store.raise_modifyContext_of_commutes _ fun _ => rfl
  simp only [beginCapturing, hcx, hmodify]
  exact beginOutermost_raise (Store.knows_modifyContext _ _ hk) _ _ _ _

theorem beginStep_raise (g : Generator) (op : GeneratorOp) (other : Id .context) (v : Value)
    (s : Stack σ .step goal) :
    beginStep (m.raise c) g op other v s = (beginStep m g op other v s).raise c := by
  have hrunning : ∀ (generators : Table .generator GeneratorState) (frames : List Frame)
      (s : Stack σ .exit goal),
      beginActivation { m.raise c with generators } other frames true s =
        (beginActivation { m with generators } other frames true s).raise c := by
    intro generators frames s
    have hk' : ({ m with generators } : Store σ).Knows c := hk
    exact beginActivation_raise hk' other frames true s
  obtain ⟨depth, hcx⟩ := Store.exists_context_raise hk other
  have hgenerators : (m.raise c).generators = m.generators := rfl
  simp only [beginStep, hgenerators, hcx, hrunning]
  split
  · cases op <;> rfl
  · split
    · rfl
    · split
      · cases op with
        | next => rfl
        | throw | «return» =>
          dsimp only
          split <;> rfl
      · cases op <;> rfl

theorem beginResumption_raise (via : Executable) (g : Generator) (op : GeneratorOp)
    (other : Id .context) (scope : Id .scope) (v : Value) (s : Stack σ .step goal) :
    beginResumption host (m.raise c) via g op other scope v s =
      (beginResumption host m via g op other scope v s).raise c := by
  simp only [beginResumption, Store.topCall_raise hk]
  split
  · rfl
  · split
    · exact beginStep_raise hk _ _ _ _ _
    · have hk' : ({ m with resumptions := (m.resumptions.insert { value := some v }).2 } :
          Store σ).Knows c := hk
      exact beginOutermost_raise hk' _ _ _ _

theorem beginContinuation_raise (k : Id .continuation) (v : Value) (other : Id .context)
    (s : Stack σ .completion goal) :
    beginContinuation (m.raise c) k v other s = (beginContinuation m k v other s).raise c := by
  have hcontinuations : (m.raise c).continuations = m.continuations := rfl
  simp only [beginContinuation, Store.takeFrames, hcontinuations]
  cases m.continuations.get k with
  | captured frames =>
    cases frames with
    | nil => rfl
    | cons f callers =>
      have hk' : ({ m with continuations := m.continuations.set k .resumed } :
          Store σ).Knows c := hk
      exact beginActivation_raise hk' _ _ _ _
  | pending | resumed => rfl

theorem beginCall_raise (f : Callable) (site : CallSite) (s : Stack σ .completion goal) :
    beginCall host (m.raise c) f site s = (beginCall host m f site s).raise c := by
  cases f with
  | executable e =>
    simp only [beginCall, Store.topCall_raise hk]
    split
    · exact interpret_raise hk _ _ _
    · exact beginOutermost_raise hk _ _ _ _
  | hostFunction h => rfl
  | resumption r g op =>
    have hk' : ({ m with resumptions := m.resumptions.modify r fun x => { x with value := none } } :
        Store σ).Knows c := hk
    exact beginStep_raise hk' _ _ _ _ _
  | continuation k v => exact beginContinuation_raise hk _ _ _ _

/-! ## Bindings -/

theorem beginMake_raise (f : Id .factory) (s : Stack σ .made goal) :
    beginMake host (m.raise c) f s = (beginMake host m f s).raise c := by
  have hmade : ∀ cx : Context,
      (⟨{ m.raise c with contexts := ((m.raise c).contexts.insert cx).2 },
        .returning (κ := .made) (m.raise c).contexts.next s⟩ : Config σ goal) =
      (⟨{ m with contexts := (m.contexts.insert cx).2 },
        .returning (κ := .made) m.contexts.next s⟩ : Config σ goal).raise c := by
    intro cx
    rw [Store.raise_insert hk, Store.next_raise]
    rfl
  have hfactories : (m.raise c).factories = m.factories := rfl
  simp only [beginMake, hfactories]
  split
  · exact hmade _
  · exact hmade _
  · rfl

theorem beginNotify_raise (event : ContextEvent) (other : Id .context)
    (s : Stack σ .done goal) :
    beginNotify (m.raise c) event other s = (beginNotify m event other s).raise c := by
  simp only [beginNotify, Store.factoryOf_raise hk]
  rfl

theorem beginBind_raise (other : Id .context) (s : Stack σ .entered goal) :
    beginBind thread (m.raise c) other s = (beginBind thread m other s).raise c := by
  have hbind : ((m.context other).raisedIn c other).bind thread =
      ((m.context other).bind thread).map (Context.raisedIn c other) := by
    unfold Context.raisedIn
    split
    · unfold Context.bind Context.raised
      dsimp only
      split <;> rfl
    · cases (m.context other).bind thread <;> rfl
  simp only [beginBind, Store.context_raise_eq hk, hbind]
  cases (m.context other).bind thread with
  | error cause => rfl
  | ok cx =>
    simp only [Except.map, Store.raise_put]
    have hk' : ({ m.modifyContext other (fun _ => cx) with
        bindings := (thread, other) :: m.bindings.filter (·.1 != thread) } : Store σ).Knows c :=
      Store.knows_modifyContext other _ hk
    exact beginNotify_raise hk' _ _ _

theorem beginEnter_raise (f : Id .factory) (requested : Option (Id .context))
    (s : Stack σ .entered goal) :
    beginEnter host thread (m.raise c) f requested s =
      (beginEnter host thread m f requested s).raise c := by
  have hcurrent : (m.raise c).current? thread = m.current? thread := rfl
  simp only [beginEnter, hcurrent]
  split
  · next other _ =>
    have hmodify : (m.raise c).modifyContext other
        (fun cx => { cx with enterCount := cx.enterCount + 1 }) =
        (m.modifyContext other fun cx => { cx with enterCount := cx.enterCount + 1 }).raise c :=
      Store.raise_modifyContext_of_commutes _ fun _ => rfl
    rw [hmodify]
    rfl
  · split
    · exact beginBind_raise hk _ _
    · exact beginMake_raise hk _ _

theorem beginExit_raise (s : Stack σ .left goal) :
    beginExit thread (m.raise c) s = (beginExit thread m s).raise c := by
  have hcurrent : (m.raise c).current? thread = m.current? thread := rfl
  simp only [beginExit, hcurrent]
  split
  · rfl
  · next other _ =>
    have hrelease : ((m.context other).raisedIn c other).release =
        (m.context other).release.map fun r => (r.1, r.2.raisedIn c other) := by
      unfold Context.raisedIn
      split
      · unfold Context.release Context.raised
        dsimp only
        split <;> rfl
      · cases (m.context other).release <;> rfl
    simp only [Store.context_raise_eq hk, hrelease]
    cases (m.context other).release with
    | error cause => rfl
    | ok r =>
      obtain ⟨last, cx⟩ := r
      cases last with
      | false =>
        simp only [Except.map, Store.raise_put]
        rfl
      | true =>
        simp only [Except.map, Store.raise_put]
        have hk' : ({ m.modifyContext other (fun _ => cx) with
            bindings := m.bindings.filter (·.1 != thread) } : Store σ).Knows c :=
          Store.knows_modifyContext other _ hk
        exact beginNotify_raise hk' _ _ _

/-! ## Actions, queries, results and panics -/

theorem beginAction_raise (a : Action) (s : Stack σ a.kind goal) :
    beginAction host thread (m.raise c) a s = (beginAction host thread m a s).raise c := by
  have hcall : ∀ (e : Executable) (other : Id .context) (scope : Id .scope) (args : List Value)
      (s : Stack σ .completion goal),
      beginAction.beginCapturingCall host (m.raise c) e other scope args s =
        (beginAction.beginCapturingCall host m e other scope args s).raise c := by
    intro e other scope args s
    simp only [beginAction.beginCapturingCall, Store.topCall_raise hk]
    split
    · rfl
    · exact beginCapturing_raise hk _ _ _ _ _ _
  cases a with
  | call f site => rfl
  | callOutermost f site isStrict => exact beginOutermost_raise hk _ _ _ _
  | execute e other scope =>
    simp only [beginAction]
    split <;> rfl
  | executeCapturing e other scope =>
    simp only [beginAction]
    split
    · rfl
    · exact hcall _ _ _ _ _
  | callCapturing e other scope args => exact hcall _ _ _ _ _
  | resume k other scope v =>
    have hcontinuations : (m.raise c).continuations = m.continuations := rfl
    simp only [beginAction, Store.topCall_raise hk, hcontinuations]
    split
    · rfl
    · split
      · rfl
      · exact beginCapturing_raise hk _ _ _ _ _ _
  | step via g op other scope v => exact beginResumption_raise hk _ _ _ _ _ _ _
  | enter f requested => exact beginEnter_raise hk _ _ _
  | exit => exact beginExit_raise hk _
  | makeContext f => exact beginMake_raise hk _ _

omit hk in
theorem endBody_raise (g : Generator) (e : Except Abrupt Exit) (s : Stack σ .step goal) :
    endBody (m.raise c) g e s = (endBody m g e s).raise c := by
  unfold endBody
  dsimp only
  split <;> rfl

/-- A captured continuation is refused either way. -/
theorem fail_raise {a : Activation} (h : a.context = c → 1 < (m.context c).depth) (e : Abrupt) :
    a.fail e (m.raise c) = ((a.fail e m).1, (a.fail e m).2.raise c) := by
  cases e with
  | suspended p =>
    have hdepth : 1 < ((m.raise c).context a.context).depth ↔
        1 < (m.context a.context).depth := by
      rw [Store.context_raise_eq hk, Context.raisedIn]
      split
      · next ha =>
        have hone := h ha
        rw [← ha] at hone
        exact ⟨fun _ => hone, fun _ => Nat.lt_succ_of_lt hone⟩
      · exact Iff.rfl
    have hcontinuations : (m.raise c).continuations = m.continuations := rfl
    simp only [Activation.fail, Activation.capture, hdepth, hcontinuations]
    split
    · rfl
    · split
      · rfl
      · split <;> rfl
  | thrown | aborted | fault => rfl

theorem count_raise (a : Activation) (s : Stack σ .exit goal) :
    count host (m.raise c) a s = (count host m a s).raise c := by
  have hcount : ((m.context a.context).raisedIn c a.context).countInstruction =
      ((m.context a.context).countInstruction.1,
        (m.context a.context).countInstruction.2.raisedIn c a.context) := by
    unfold Context.raisedIn
    split
    · unfold Context.countInstruction Context.raised
      dsimp only
      split
      · rfl
      · split <;> rfl
    · rfl
  have hk' := Store.knows_modifyContext a.context
    (fun _ => (m.context a.context).countInstruction.2) hk
  simp only [count, Store.context_raise_eq hk, hcount, Store.raise_put, Store.factoryOf_raise hk']
  split <;> rfl

omit hk in
/-- No continuation of a context is given out in answer to a query. -/
def Withholds (c : Id .context) (m : Store σ) (q : Query σ) : Prop :=
  q = .context (.requestCapture c) → ∀ r, m.requestCapture c ≠ .ok r

theorem createExecutable_raise (kind : RoutineKind) (r : SharedRoutine)
    (domain : Option Payload) :
    (m.raise c).createExecutable host thread kind r domain =
      ((m.createExecutable host thread kind r domain).1,
        (m.createExecutable host thread kind r domain).2.raise c) := by
  have hcurrent : (m.raise c).current? thread = m.current? thread := rfl
  have hcontroller : ∀ other,
      ((m.raise c).context other).controller = (m.context other).controller := by
    intro other
    obtain ⟨depth, hcx⟩ := Store.exists_context_raise hk other
    rw [hcx]
  simp only [Store.createExecutable, hcurrent, hcontroller]
  split
  · rfl
  · split
    · rfl
    · split
      · rfl
      · split
        · rfl
        · split <;> rfl

theorem requestCapture_raise (hdepth : 0 < (m.context c).depth) (other : Id .context)
    (h : other = c → ∀ r, m.requestCapture c ≠ .ok r) :
    (m.raise c).requestCapture other =
      (m.requestCapture other).map fun r => (r.1, r.2.raise c) := by
  by_cases ho : other = c
  · subst ho
    have hwithheld := h rfl
    have hnone : (m.context other).depth ≠ 0 := Nat.pos_iff_ne_zero.mp hdepth
    unfold Store.requestCapture at hwithheld ⊢
    simp only [Store.context_raise hk, Context.raised, hnone, Nat.add_one_ne_zero, if_false]
      at hwithheld ⊢
    cases haccepts : (m.context other).acceptsCaptures with
    | false => rfl
    | true =>
      simp only [haccepts, Bool.not_true, Bool.false_eq_true, if_false] at hwithheld ⊢
      by_cases hone : 1 < (m.context other).depth
      · rw [if_pos hone, if_pos (Nat.lt_succ_of_lt hone)]
        rfl
      · rw [if_neg hone] at hwithheld
        exact absurd rfl (hwithheld _)
  · unfold Store.requestCapture
    simp only [Store.context_raise_of_ne ho]
    split
    · rfl
    · split
      · rfl
      · split <;> rfl

variable (host thread) in
/-- A query is answered as well, and blind host code goes on the same way. -/
theorem ask_raise {γ : Type} (hdepth : 0 < (m.context c).depth) (q : Query σ) (k : q.Reply → γ)
    (hhides : q.Hides c k) (hwithholds : Withholds c m q) :
    k (q.perform host thread (m.raise c)).1 = k (q.perform host thread m).1 ∧
      (q.perform host thread (m.raise c)).2 = (q.perform host thread m).2.raise c := by
  cases q with
  | context q =>
    cases q with
    | create f =>
      have hmade : (m.raise c).newContext f = ((m.newContext f).1, (m.newContext f).2.raise c) :=
        Prod.ext Store.next_raise (Store.raise_insert hk _)
      simp only [Query.perform, ContextQuery.perform, hmade, and_self]
    | state other =>
      refine ⟨?_, rfl⟩
      show k ((m.raise c).context other) = k (m.context other)
      by_cases ho : other = c
      · rw [ho, Store.context_raise hk]
        exact hhides ho _ _
      · rw [Store.context_raise_of_ne ho]
    | current => exact ⟨rfl, rfl⟩
    | setVersion | setThreshold | setFrameLimit | setCountsGenerated | setExtension =>
      exact ⟨rfl, Store.raise_modifyContext_of_commutes _ fun _ => rfl⟩
    | setController other controller =>
      obtain ⟨depth, hcx⟩ := Store.exists_context_raise hk other
      simp only [Query.perform, ContextQuery.perform, hcx]
      split
      · exact ⟨rfl, rfl⟩
      · exact ⟨rfl, Store.raise_modifyContext_of_commutes _ fun _ => rfl⟩
    | hasFeature other f =>
      refine ⟨?_, rfl⟩
      show k ((m.raise c).hasFeature host other f) = k (m.hasFeature host other f)
      rw [Store.hasFeature, Store.factoryOf_raise hk]
      rfl
    | requestCapture other =>
      have hrequest := requestCapture_raise hk hdepth other fun ho =>
        hwithholds (by rw [ho])
      simp only [Query.perform, ContextQuery.perform, hrequest]
      cases m.requestCapture other <;> exact ⟨rfl, rfl⟩
  | code q =>
    cases q with
    | share r => exact ⟨rfl, rfl⟩
    | create kind r domain =>
      simp only [Query.perform, CodeQuery.perform, createExecutable_raise hk, and_self]
    | nested e index =>
      have hfresh : (m.raise c).fresh .executable =
          ((m.fresh .executable).1, (m.fresh .executable).2.raise c) := rfl
      simp only [Query.perform, CodeQuery.perform, hfresh]
      split <;> exact ⟨rfl, rfl⟩
  | inspect v =>
    refine ⟨?_, rfl⟩
    show k (v.inspect (m.raise c)) = k (v.inspect m)
    cases v <;> rfl
  | _ => exact ⟨rfl, rfl⟩

omit hk in
/-- Whatever is left later, the depth does not go below what the stack comes to. -/
theorem depth_pos_of_keeps {l : Ledger} {s : Stack σ α goal} (h : s.Keeps c l m)
    (hl : 0 < l.depth) : 0 < (m.context c).depth := by
  have hle := s.depth_settle_le c (m.ledger c)
  rw [h.2] at hle
  exact Nat.lt_of_lt_of_le hl hle

omit hk in
/-- An activation that is under way comes on top of those that stay. -/
theorem one_lt_depth_of_keeps {l : Ledger} {a : Activation} {s : Stack σ .exit goal}
    (h : (Stack.cons (.called a) s).Keeps c l m) (hl : 0 < l.depth) (ha : a.context = c) :
    1 < (m.context c).depth := by
  have hle := s.depth_settle_le c ((m.ledger c).leaveIn c a.context)
  rw [show s.settle c ((m.ledger c).leaveIn c a.context) = l from h.2, ha, Ledger.leaveIn,
    if_pos rfl] at hle
  have hleft : l.depth ≤ (m.context c).depth - 1 := hle
  omega

omit hk in
theorem take_raise {l : Ledger} (t : Task σ α β) (x : α.Result) {s : Stack σ β goal}
    (h : (Stack.cons t s).Keeps c l m) (hl : 0 < l.depth) :
    take host thread (m.raise c) t x s = (take host thread m t x s).raise c := by
  have hk : m.Knows c := h.1
  cases t with
  | clearTopCall other =>
    exact congrArg (give · .completion x s)
      (Store.raise_modifyContext_of_commutes other fun _ => rfl)
  | restoreCaptures other previous =>
    exact congrArg (give · .completion x s)
      (Store.raise_modifyContext_of_commutes other fun _ => rfl)
  | called a =>
    have hone := one_lt_depth_of_keeps h hl
    cases x with
    | ok v => exact follow_raise (fun ha => Nat.lt_of_succ_lt (hone ha)) _ _
    | error e =>
      have hcontexts : (a.fail e m).2.context c = m.context c :=
        congrArg (Table.get · c) (a.contexts_fail m e)
      simp only [take, fail_raise hk hone]
      refine follow_raise (fun ha => ?_) _ _
      rw [hcontexts]
      exact Nat.lt_of_succ_lt (hone ha)
  | observed a =>
    cases x with
    | ok u => rfl
    | error reason =>
      have hone := one_lt_depth_of_keeps (a := a) (s := s) h hl
      exact follow_raise (fun ha => Nat.lt_of_succ_lt (hone ha))
        (.leave (.error (.aborted reason))) s
  | callEnd =>
    cases x with
    | ok exit => cases exit <;> rfl
    | error e => rfl
  | bodyEnd g => exact endBody_raise _ _ _
  | flattenResult | recordStep | reportStep => cases x <;> rfl
  | bindMade =>
    obtain ⟨depth, hcx⟩ := Store.exists_context_raise hk x
    simp only [take, hcx]
    split
    · rfl
    · exact beginBind_raise hk _ _
  | notifying event other rest => cases rest <;> rfl
  | bracketBody body => cases x <;> rfl
  | release => exact beginExit_raise hk _
  | program | entered | left | released | repanic | guarded => rfl

omit hk in
theorem passPanic_raise {l : Ledger} (t : Task σ α β) {s : Stack σ β goal}
    (h : (Stack.cons t s).Keeps c l m) (hl : 0 < l.depth) :
    passPanic thread (m.raise c) t s = (passPanic thread m t s).raise c := by
  have hk : m.Knows c := h.1
  cases t with
  | clearTopCall other =>
    exact congrArg (fun m => (⟨m, .panicking s⟩ : Config σ goal))
      (Store.raise_modifyContext_of_commutes other fun _ => rfl)
  | restoreCaptures other previous =>
    exact congrArg (fun m => (⟨m, .panicking s⟩ : Config σ goal))
      (Store.raise_modifyContext_of_commutes other fun _ => rfl)
  | called a | observed a =>
    have hone := one_lt_depth_of_keeps (a := a) (s := s) h hl
    exact congrArg (fun m => (⟨m, .panicking s⟩ : Config σ goal))
      (changeDepth_sub_raise fun ha => Nat.lt_of_succ_lt (hone ha))
  | release => exact beginExit_raise hk _
  | _ => rfl

omit hk in
/-- With one more activation of a context under way, a step does the same. At least one is under
way besides those on the stack, host code is blind, and no continuation is given out. -/
theorem step_raise {l : Ledger} {X : Config σ goal} (hblind : X.IsBlind c) (h : X.Keeps c l)
    (hl : 0 < l.depth) (hgiven : ∀ k, ¬ IsGiven c k X) :
    (X.raise c).step host thread = (X.step host thread).raise c := by
  obtain ⟨m, state⟩ := X
  have hk : m.Knows c := h.1
  cases state with
  | running p s =>
    cases p with
    | ask q k =>
      have hwithholds : Withholds c m q := by
        rintro rfl ⟨p, m'⟩ hr
        refine hgiven p.continuation ⟨_, k, s, m', rfl, ?_⟩
        rw [← Store.eq_of_requestCapture hr]
        exact hr
      obtain ⟨hreply, hstore⟩ := ask_raise host thread hk
        (depth_pos_of_keeps h hl) q k hblind.1.1 hwithholds
      show (⟨(q.perform host thread (m.raise c)).2,
        .running (k (q.perform host thread (m.raise c)).1) s⟩ : Config σ goal) = _
      rw [hreply, hstore]
      rfl
    | act a k => exact beginAction_raise hk a _
    | bracket f body k => exact beginEnter_raise hk f none _
    | finish | panic | guard => rfl
  | calling f site s => exact beginCall_raise hk f site s
  | counting a s => exact count_raise hk a s
  | executing a s =>
    have hone := one_lt_depth_of_keeps (a := a) (s := s) h hl
    exact execute_raise (fun ha => Nat.lt_of_succ_lt (hone ha)) s
  | returning x s =>
    cases s with
    | nil => rfl
    | cons t s => exact take_raise t x h hl
  | panicking s =>
    cases s with
    | nil => rfl
    | cons t s => exact passPanic_raise t h hl
  | crashed => rfl

end Config

end ScriptMachine
