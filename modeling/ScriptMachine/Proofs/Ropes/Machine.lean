import ScriptMachine.Machine.Step
import ScriptMachine.Proofs.Ropes.Program

/-!
# Machines up to the form of their strings

Configurations are alike if their stores are, and the same activity runs on alike stacks. A step
keeps configurations alike, and so does the step of a machine that makes a flat string wherever
`+` makes a concatenation, `Config.stepEager`.
-/

namespace ScriptMachine

variable {σ : Type} {goal : Kind}

/-! ## Stacks and configurations -/

/-- A task that holds neither values nor host code. -/
def Task.IsFixed {α β : Kind} : Task σ α β → Prop
  | .program _ | .called _ | .observed _ | .bracketBody _ => False
  | _ => True

/-- Tasks that go on alike when they are given alike results. -/
inductive Task.Alike (S : Labellings → σ → σ → Prop) (W : Labellings) :
    {α β : Kind} → Task σ α β → Task σ α β → Prop
  | program {α κ : Kind} {k k' : α.Result → Program σ κ}
      (hk : ∀ W', W ≤ W' → ∀ r r', ResultAlike W' α r r' → (k r).Alike S W' (k' r')) :
      Task.Alike S W (.program k) (.program k')
  | called {a b : Activation} (h : a.Alike W b) : Task.Alike S W (.called a) (.called b)
  | observed {a b : Activation} (h : a.Alike W b) : Task.Alike S W (.observed a) (.observed b)
  | bracketBody {body body' : Id .context → Program σ .done}
      (h : ∀ W', W ≤ W' → ∀ c, (body c).Alike S W' (body' c)) :
      Task.Alike S W (.bracketBody body) (.bracketBody body')
  | fixed {α β : Kind} {t : Task σ α β} (h : t.IsFixed) : Task.Alike S W t t

/-- Tasks one by one. -/
inductive Stack.Alike (S : Labellings → σ → σ → Prop) (W : Labellings) :
    {α : Kind} → Stack σ α goal → Stack σ α goal → Prop
  | nil : Stack.Alike S W .nil .nil
  | cons {α β : Kind} {t t' : Task σ α β} {s s' : Stack σ β goal} (ht : t.Alike S W t')
      (hs : Stack.Alike S W s s') : Stack.Alike S W (.cons t s) (.cons t' s')

/-- The same activity on alike stacks. -/
inductive State.Alike (S : Labellings → σ → σ → Prop) (W : Labellings) :
    State σ goal → State σ goal → Prop
  | running {κ : Kind} {p p' : Program σ κ} {s s' : Stack σ κ goal} (hp : p.Alike S W p')
      (hs : s.Alike S W s') : State.Alike S W (.running p s) (.running p' s')
  | calling {f f' : Callable} {site site' : CallSite} {s s' : Stack σ .completion goal}
      (hf : f.Alike W f') (hsite : site.Alike W site') (hs : s.Alike S W s') :
      State.Alike S W (.calling f site s) (.calling f' site' s')
  | counting {a b : Activation} {s s' : Stack σ .exit goal} (ha : a.Alike W b)
      (hs : s.Alike S W s') : State.Alike S W (.counting a s) (.counting b s')
  | executing {a b : Activation} {s s' : Stack σ .exit goal} (ha : a.Alike W b)
      (hs : s.Alike S W s') : State.Alike S W (.executing a s) (.executing b s')
  | returning {κ : Kind} {x x' : κ.Result} {s s' : Stack σ κ goal} (hx : ResultAlike W κ x x')
      (hs : s.Alike S W s') : State.Alike S W (.returning x s) (.returning x' s')
  | panicking {κ : Kind} {s s' : Stack σ κ goal} (hs : s.Alike S W s') :
      State.Alike S W (.panicking s) (.panicking s')
  | crashed : State.Alike S W .crashed .crashed

/-- The same store and the same activity, but for the form of strings and what is remembered of
them. -/
structure Config.Alike (S : Labellings → σ → σ → Prop) (W : Labellings)
    (X Y : Config σ goal) : Prop where
  store : X.store.Alike S W Y.store
  state : X.state.Alike S W Y.state

variable {S : Labellings → σ → σ → Prop} {W W' : Labellings}

theorem Task.Alike.mono {α β : Kind} {t t' : Task σ α β} (h : t.Alike S W t') (hle : W ≤ W') :
    t.Alike S W' t' := by
  cases h with
  | program hk => exact .program fun V hV => hk V (hle.trans hV)
  | called h => exact .called (h.mono hle)
  | observed h => exact .observed (h.mono hle)
  | bracketBody h => exact .bracketBody fun V hV => h V (hle.trans hV)
  | fixed h => exact .fixed h

/-- A program that waits for a result without a value in it. -/
theorem Task.alike_program {α κ : Kind} {k k' : α.Result → Program σ κ}
    (hα : ∀ W r r', ResultAlike W α r r' → r = r')
    (hk : ∀ W', W ≤ W' → ∀ r, (k r).Alike S W' (k' r)) :
    Task.Alike S W (.program k) (.program k') := by
  refine .program fun W' hle r r' hr => ?_
  rw [← hα W' r r' hr]
  exact hk W' hle r

theorem Stack.Alike.mono {α : Kind} {s s' : Stack σ α goal} (h : s.Alike S W s') (hle : W ≤ W') :
    s.Alike S W' s' := by
  induction h with
  | nil => exact .nil
  | cons ht _ ih => exact .cons (ht.mono hle) ih

theorem Stack.Alike.push {α β : Kind} {s s' : Stack σ β goal} (h : s.Alike S W s')
    (t : Task σ α β) (ht : t.IsFixed) : Stack.Alike S W (.cons t s) (.cons t s') :=
  .cons (.fixed ht) h

/-! ## The beginnings of activities -/

namespace Config

variable {host : Host σ} {thread : Id .thread} {m m' : Store σ}

theorem alike_give {κ : Kind} {x x' : κ.Result} {s s' : Stack σ κ goal} (hm : m.Alike S W m')
    (hx : ResultAlike W κ x x') (hs : s.Alike S W s') :
    (give m κ x s).Alike S W (give m' κ x' s') := ⟨hm, .returning hx hs⟩

theorem alike_failCall {s s' : Stack σ .completion goal} (hm : m.Alike S W m') (f : Fault)
    (hs : s.Alike S W s') :
    (failCall m (.fault f) s).Alike S W (failCall m' (.fault f) s') :=
  alike_give hm (EndsAlike.error (.other rfl)) hs

theorem alike_changeDepth (hm : m.Alike S W m') (c : Id .context) (f : Nat → Nat) :
    (changeDepth m c f).Alike S W (changeDepth m' c f) := hm.modifyContext _ _

theorem alike_beginActivation {frames frames' : List Frame} {s s' : Stack σ .exit goal}
    (hm : m.Alike S W m') (hf : FramesAlike W frames frames') (hs : s.Alike S W s')
    (c : Id .context) (isGenerator : Bool) :
    (beginActivation m c frames isGenerator s).Alike S W
      (beginActivation m' c frames' isGenerator s') := by
  have ha : Activation.Alike W ⟨c, frames, (m.context c).frameLimit, isGenerator⟩
      ⟨c, frames', (m'.context c).frameLimit, isGenerator⟩ :=
    ⟨rfl, hf, congrArg Context.frameLimit (hm.context c), rfl⟩
  exact ⟨alike_changeDepth hm _ _, .counting ha hs⟩

theorem alike_follow {flow flow' : Flow} {s s' : Stack σ .exit goal} (hm : m.Alike S W m')
    (hflow : flow.Alike W flow') (hs : s.Alike S W s') (c : Id .context) :
    (follow m c flow s).Alike S W (follow m' c flow' s') := by
  cases hflow with
  | next h => exact ⟨hm, .counting h hs⟩
  | leave he => exact alike_give (alike_changeDepth hm _ _) he hs

theorem alike_interpret {site site' : CallSite} {s s' : Stack σ .completion goal}
    (hm : m.Alike S W m') (e : Executable) (hsite : site.Alike W site') (hs : s.Alike S W s') :
    (interpret m e site s).Alike S W (interpret m' e site' s') := by
  have hframe : (Frame.enter e site.scope site.receiver site.args).Alike W
      (Frame.enter e site'.scope site'.receiver site'.args) := by
    rw [hsite.scope]
    exact Frame.alike_enter e site'.scope hsite.receiver hsite.args
  unfold interpret
  dsimp only
  split
  · obtain ⟨hg, hm'⟩ := hm.newGenerator hframe
    rw [hg]
    exact alike_give hm' (EndsAlike.ok (.plain rfl)) hs
  · rw [hsite.context]
    exact alike_beginActivation hm (.cons hframe .nil) (hs.push .callEnd trivial) _ _

theorem alike_beginOutermost (hhost : host.Indifferent S) {f f' : Callable} {site site' : CallSite}
    {s s' : Stack σ .completion goal} (hm : m.Alike S W m') (hf : f.Alike W f')
    (hsite : site.Alike W site') (hs : s.Alike S W s') (isStrict : Bool) :
    (beginOutermost host m f site isStrict s).Alike S W
      (beginOutermost host m' f' site' isStrict s') := by
  have hm₁ := hm.modifyContext site.context fun cx =>
    { cx with topCall := some ⟨site.scope, isStrict⟩ }
  unfold beginOutermost
  simp only [← hsite.context, ← hsite.scope, ← hm.context]
  split
  · exact alike_failCall hm _ hs
  · have hcleared := hs.push (.clearTopCall site.context) trivial
    rw [← hm₁.factoryOf]
    split
    · exact ⟨hm₁, .running (hhost.outermost W _ _ _ _ _ hf hsite) hcleared⟩
    · exact ⟨hm₁, .calling hf hsite (hcleared.push .flattenResult trivial)⟩
    · exact ⟨hm₁, .calling hf hsite (hcleared.push .flattenResult trivial)⟩

theorem alike_beginCapturing (hhost : host.Indifferent S) {f f' : Callable}
    {args args' : List Value} {s s' : Stack σ .completion goal} (hm : m.Alike S W m')
    (hf : f.Alike W f') (hargs : ValuesAlike W args args') (hs : s.Alike S W s')
    (c : Id .context) (scope : Id .scope) (isStrict : Bool) :
    (beginCapturing host m f c scope args isStrict s).Alike S W
      (beginCapturing host m' f' c scope args' isStrict s') := by
  have hsite : CallSite.Alike W ⟨c, scope, .object scope, args⟩ ⟨c, scope, .object scope, args'⟩ :=
    ⟨rfl, rfl, .plain rfl, hargs⟩
  unfold beginCapturing
  rw [hm.context]
  exact alike_beginOutermost hhost (hm.modifyContext _ _) hf hsite
    (hs.push (.restoreCaptures c (m'.context c).acceptsCaptures) trivial) isStrict

/-- The body of a generator goes on, or is left. -/
theorem alike_resumed {g : Generator} {s s' : Stack σ .step goal} (hm : m.Alike S W m')
    (hs : s.Alike S W s') (c : Id .context) :
    ∀ flow flow' : Flow, flow.Alike W flow' → Config.Alike S W
      (match flow with
        | .next a => beginActivation m c a.frames true (.cons (.bodyEnd g) s)
        | .leave e => give m .exit e (.cons (.bodyEnd g) s) : Config σ goal)
      (match flow' with
        | .next a => beginActivation m' c a.frames true (.cons (.bodyEnd g) s')
        | .leave e => give m' .exit e (.cons (.bodyEnd g) s') : Config σ goal) := by
  intro flow flow' hflow
  cases hflow with
  | next h => exact alike_beginActivation hm h.frames (hs.push (.bodyEnd g) trivial) c true
  | leave he => exact alike_give hm he (hs.push (.bodyEnd g) trivial)

/-- What a finished generator answers. -/
theorem alike_ended {v w : Value} {s s' : Stack σ .step goal} (hm : m.Alike S W m')
    (hv : v.Alike W w) (hs : s.Alike S W s') (op : GeneratorOp) :
    Config.Alike S W
      (match op with
        | .next => give m .step (.ok ⟨.undefined, true⟩) s
        | .return => give m .step (.ok ⟨v, true⟩) s
        | .throw => give m .step (.error (.thrown v)) s : Config σ goal)
      (match op with
        | .next => give m' .step (.ok ⟨.undefined, true⟩) s'
        | .return => give m' .step (.ok ⟨w, true⟩) s'
        | .throw => give m' .step (.error (.thrown w)) s' : Config σ goal) := by
  cases op with
  | next => exact alike_give hm (EndsAlike.ok ⟨.plain rfl, rfl⟩) hs
  | «return» => exact alike_give hm (EndsAlike.ok ⟨hv, rfl⟩) hs
  | throw => exact alike_give hm (EndsAlike.error (.thrown hv)) hs

theorem alike_beginStep {v w : Value} {s s' : Stack σ .step goal} (hm : m.Alike S W m')
    (g : Generator) (op : GeneratorOp) (c : Id .context) (hv : v.Alike W w)
    (hs : s.Alike S W s') : (beginStep m g op c v s).Alike S W (beginStep m' g op c w s') := by
  have hg := hm.generator g.id
  have hframe := hg.frame
  have hset : ∀ state : GeneratorState, state.frame = none → Store.Alike S W
      { m with generators := m.generators.set g.id state }
      { m' with generators := m'.generators.set g.id state } := by
    intro state hnone
    refine { hm with generators := hm.generators.set g.id ⟨?_, rfl, rfl⟩ }
    rw [hnone]
    exact .none
  unfold beginStep
  simp only [← hg.finished, ← hg.started]
  split
  · exact alike_ended hm hv hs op
  · revert hframe
    generalize (m.generators.get g.id).frame = x, (m'.generators.get g.id).frame = y
    intro hframe
    cases hframe with
    | none => exact alike_give hm (EndsAlike.error (Abrupt.alike_error _ _)) hs
    | @some f f' hf =>
      have ha : Activation.Alike W ⟨c, [f], (m.context c).frameLimit, true⟩
          ⟨c, [f'], (m'.context c).frameLimit, true⟩ :=
        ⟨rfl, .cons hf .nil, congrArg Context.frameLimit (hm.context c), rfl⟩
      have hrunning := hset { frame := none, started := true } rfl
      have hfinished := hset { frame := none, started := true, finished := true } rfl
      have hgo := alike_resumed (g := g) hrunning hs c
      dsimp only
      split
      · cases op with
        | next => exact hgo _ _ (.next (ha.withFrames (.cons (hf.push hv) .nil)))
        | throw => exact hgo _ _ (ha.throw hv)
        | «return» => exact hgo _ _ (ha.returnValue hv)
      · cases op with
        | next => exact hgo _ _ (.next ha)
        | throw => exact alike_ended hfinished hv hs .throw
        | «return» => exact alike_ended hfinished hv hs .return

theorem alike_beginResumption (hhost : host.Indifferent S) {v w : Value}
    {s s' : Stack σ .step goal} (hm : m.Alike S W m') (via : Executable) (g : Generator)
    (op : GeneratorOp) (c : Id .context) (scope : Id .scope) (hv : v.Alike W w)
    (hs : s.Alike S W s') :
    (beginResumption host m via g op c scope v s).Alike S W
      (beginResumption host m' via g op c scope w s') := by
  unfold beginResumption
  rw [← hm.context]
  split
  · exact alike_give hm (EndsAlike.error (.other rfl)) hs
  · split
    · exact alike_beginStep hm g op c hv hs
    · obtain ⟨hid, hinsert⟩ := hm.resumptions.insert (a := { value := some v })
        (b := { value := some w }) ⟨.some hv, rfl⟩
      have hsite : CallSite.Alike W ⟨c, scope, .object scope, []⟩ ⟨c, scope, .object scope, []⟩ :=
        ⟨rfl, rfl, .plain rfl, .nil⟩
      have hm' : Store.Alike S W
          { m with resumptions := (m.resumptions.insert { value := some v }).2 }
          { m' with resumptions := (m'.resumptions.insert { value := some w }).2 } :=
        { hm with resumptions := hinsert }
      dsimp only
      rw [hid]
      exact alike_beginOutermost hhost hm' (.resumption _ g op) hsite
        (hs.push (.reportStep (m'.resumptions.insert { value := some w }).1) trivial) _

theorem alike_beginContinuation {v w : Value} {s s' : Stack σ .completion goal}
    (hm : m.Alike S W m') (k : Id .continuation) (c : Id .context) (hv : v.Alike W w)
    (hs : s.Alike S W s') :
    (beginContinuation m k v c s).Alike S W (beginContinuation m' k w c s') := by
  have htaken := hm.takeFrames k
  unfold beginContinuation
  revert htaken
  generalize m.takeFrames k = x, m'.takeFrames k = y
  intro htaken
  cases htaken with
  | error cause => exact alike_failCall hm _ hs
  | ok hframes hm' =>
    cases hframes with
    | nil => exact alike_failCall hm' _ hs
    | cons hf hrest =>
      exact alike_beginActivation hm' (.cons (hf.push hv) hrest) (hs.push .callEnd trivial) c false

theorem alike_beginCall (hhost : host.Indifferent S) {f f' : Callable} {site site' : CallSite}
    {s s' : Stack σ .completion goal} (hm : m.Alike S W m') (hf : f.Alike W f')
    (hsite : site.Alike W site') (hs : s.Alike S W s') :
    (beginCall host m f site s).Alike S W (beginCall host m' f' site' s') := by
  unfold beginCall
  cases hf with
  | executable e =>
    dsimp only
    rw [← hsite.context, ← hm.context]
    split
    · exact alike_interpret hm e hsite hs
    · exact alike_beginOutermost hhost hm (.executable e) hsite hs _
  | hostFunction h => exact ⟨hm, .running (hhost.run W _ _ _ hsite) hs⟩
  | resumption r g op =>
    have hvalue := rel_getD (hm.resumption r).value (a := .undefined) (b := .undefined) (.plain rfl)
    have hm' : Store.Alike S W
        { m with resumptions := m.resumptions.modify r fun x => { x with value := none } }
        { m' with resumptions := m'.resumptions.modify r fun x => { x with value := none } } :=
      { hm with resumptions := hm.resumptions.modify r fun _ _ h => ⟨.none, h.done⟩ }
    dsimp only
    rw [← hsite.context]
    exact alike_beginStep hm' g op _ hvalue (hs.push (.recordStep r) trivial)
  | continuation k hv =>
    dsimp only
    rw [← hsite.context]
    exact alike_beginContinuation hm k _ hv hs

/-! ## Bindings -/

theorem alike_beginMake (hhost : host.Indifferent S) {s s' : Stack σ .made goal}
    (hm : m.Alike S W m') (f : Id .factory) (hs : s.Alike S W s') :
    (beginMake host m f s).Alike S W (beginMake host m' f s') := by
  unfold beginMake
  rw [← hm.factories]
  split
  · obtain ⟨hc, hm'⟩ := hm.newContext f
    exact alike_give hm' hc hs
  · next plan _ =>
    obtain ⟨hc, hm'⟩ := hm.plannedContext f plan
    exact alike_give hm' hc hs
  · exact ⟨hm, .running (hhost.makeContext W _ f) hs⟩

theorem alike_beginNotify {s s' : Stack σ .done goal} (hm : m.Alike S W m')
    (event : ContextEvent) (c : Id .context) (hs : s.Alike S W s') :
    (beginNotify m event c s).Alike S W (beginNotify m' event c s') := by
  unfold beginNotify
  rw [hm.factoryOf]
  exact alike_give hm rfl (hs.push (.notifying event c (m'.factoryOf c).listeners) trivial)

theorem alike_beginBind {s s' : Stack σ .entered goal} (hm : m.Alike S W m') (c : Id .context)
    (hs : s.Alike S W s') : (beginBind thread m c s).Alike S W (beginBind thread m' c s') := by
  unfold beginBind
  rw [← hm.context]
  split
  · exact alike_give hm rfl hs
  · next cx _ =>
    have hm₁ := hm.modifyContext c fun _ => cx
    have hm₂ := hm₁.rebind fun l => (thread, c) :: l.filter (·.1 != thread)
    exact alike_beginNotify hm₂ _ c (hs.push (.entered c) trivial)

theorem alike_beginEnter (hhost : host.Indifferent S) {s s' : Stack σ .entered goal}
    (hm : m.Alike S W m') (f : Id .factory) (requested : Option (Id .context))
    (hs : s.Alike S W s') :
    (beginEnter host thread m f requested s).Alike S W
      (beginEnter host thread m' f requested s') := by
  unfold beginEnter
  rw [← hm.current]
  split
  · exact alike_give (hm.modifyContext _ _) rfl hs
  · split
    · exact alike_beginBind hm _ hs
    · exact alike_beginMake hhost hm f (hs.push .bindMade trivial)

theorem alike_beginExit {s s' : Stack σ .left goal} (hm : m.Alike S W m')
    (hs : s.Alike S W s') : (beginExit thread m s).Alike S W (beginExit thread m' s') := by
  unfold beginExit
  rw [← hm.current]
  split
  · exact alike_give hm rfl hs
  · next c _ =>
    rw [← hm.context]
    split
    · exact alike_give hm rfl hs
    · exact alike_give (hm.modifyContext _ _) rfl hs
    · next cx _ =>
      have hm₁ := hm.modifyContext c fun _ => cx
      have hm₂ := hm₁.rebind fun l => l.filter (·.1 != thread)
      exact alike_beginNotify hm₂ _ c (hs.push .left trivial)

/-! ## Actions, results and panics -/

theorem alike_beginCapturingCall (hhost : host.Indifferent S) {args args' : List Value}
    {s s' : Stack σ .completion goal} (hm : m.Alike S W m') (e : Executable) (c : Id .context)
    (scope : Id .scope) (hargs : ValuesAlike W args args') (hs : s.Alike S W s') :
    (beginAction.beginCapturingCall host m e c scope args s).Alike S W
      (beginAction.beginCapturingCall host m' e c scope args' s') := by
  unfold beginAction.beginCapturingCall
  rw [← hm.context]
  split
  · exact alike_failCall hm _ hs
  · exact alike_beginCapturing hhost hm (.executable e) hargs hs c scope _

/-- The program that performed an action waits for its result. -/
theorem alike_beginAction (hhost : host.Indifferent S) {κ : Kind} {a a' : Action}
    {R : Labellings → a.kind.Result → a'.kind.Result → Prop} {k : a.kind.Result → Program σ κ}
    {k' : a'.kind.Result → Program σ κ} {s s' : Stack σ κ goal} (hm : m.Alike S W m')
    (ha : a.Alike W a' R)
    (hk : ∀ W', W ≤ W' → ∀ r r', R W' r r' → (k r).Alike S W' (k' r')) (hs : s.Alike S W s') :
    (beginAction host thread m a (.cons (.program k) s)).Alike S W
      (beginAction host thread m' a' (.cons (.program k') s')) := by
  cases ha with
  | call hf hsite => exact ⟨hm, .calling hf hsite (.cons (.program hk) hs)⟩
  | callOutermost hf hsite isStrict =>
    exact alike_beginOutermost hhost hm hf hsite (.cons (.program hk) hs) isStrict
  | execute e c scope =>
    have hsite : CallSite.Alike W ⟨c, scope, .object scope, []⟩ ⟨c, scope, .object scope, []⟩ :=
      ⟨rfl, rfl, .plain rfl, .nil⟩
    simp only [beginAction]
    split
    · exact alike_failCall hm _ (.cons (.program hk) hs)
    · exact ⟨hm, .calling (.executable e) hsite (.cons (.program hk) hs)⟩
  | executeCapturing e c scope =>
    simp only [beginAction]
    split
    · exact alike_failCall hm _ (.cons (.program hk) hs)
    · exact alike_beginCapturingCall hhost hm e c scope .nil (.cons (.program hk) hs)
  | callCapturing e c scope hargs =>
    exact alike_beginCapturingCall hhost hm e c scope hargs (.cons (.program hk) hs)
  | resume i c scope hv =>
    have hcaptured := hm.continuation i
    simp only [beginAction, ← hm.context, ← hcaptured.isResumable, ← hcaptured.isStrict]
    split
    · exact alike_failCall hm _ (.cons (.program hk) hs)
    · split
      · exact alike_failCall hm _ (.cons (.program hk) hs)
      · exact alike_beginCapturing hhost hm (.continuation i hv) .nil (.cons (.program hk) hs) c
          scope _
  | step via g op c scope hv =>
    exact alike_beginResumption hhost hm via g op c scope hv (.cons (.program hk) hs)
  | enter f requested =>
    exact alike_beginEnter hhost hm f requested (.cons (.program hk) hs)
  | exit => exact alike_beginExit hm (.cons (.program hk) hs)
  | makeContext f => exact alike_beginMake hhost hm f (.cons (.program hk) hs)

theorem alike_endBody {e e' : Except Abrupt Exit} {s s' : Stack σ .step goal}
    (hm : m.Alike S W m') (g : Generator) (he : EndsAlike W (Exit.Alike W) e e')
    (hs : s.Alike S W s') : (endBody m g e s).Alike S W (endBody m' g e' s') := by
  have hfinished : Store.Alike S W
      { m with generators := m.generators.modify g.id fun x => { x with finished := true } }
      { m' with generators := m'.generators.modify g.id fun x => { x with finished := true } } :=
    { hm with
      generators := hm.generators.modify g.id fun _ _ h => ⟨h.frame, h.started, rfl⟩ }
  cases he with
  | error h => exact alike_give hfinished (EndsAlike.error h) hs
  | ok h =>
    cases h with
    | returned hv => exact alike_give hfinished (EndsAlike.ok ⟨hv, rfl⟩) hs
    | @yielded v w f f' hv hf =>
      have hsuspended : Store.Alike S W
          { m with generators := m.generators.modify g.id fun x => { x with frame := some f } }
          { m' with generators := m'.generators.modify g.id fun x => { x with frame := some f' } } :=
        { hm with
          generators := hm.generators.modify g.id fun _ _ h => ⟨.some hf, h.started, h.finished⟩ }
      exact alike_give hsuspended (EndsAlike.ok ⟨hv, rfl⟩) hs

/-- A task that holds nothing of its own takes alike results. -/
theorem alike_take_fixed (hhost : host.Indifferent S) {α β : Kind} {t : Task σ α β}
    (ht : t.IsFixed) {x x' : α.Result} {s s' : Stack σ β goal} (hm : m.Alike S W m')
    (hx : ResultAlike W α x x') (hs : s.Alike S W s') :
    (take host thread m t x s).Alike S W (take host thread m' t x' s') := by
  cases t with
  | program | called | observed | bracketBody => exact absurd ht id
  | clearTopCall c => exact alike_give (hm.modifyContext _ _) hx hs
  | restoreCaptures c previous => exact alike_give (hm.modifyContext _ _) hx hs
  | flattenResult =>
    cases hx with
    | ok hv =>
      obtain ⟨hv', hm'⟩ := hm.flattening hv.flatten
      exact alike_give hm' (EndsAlike.ok hv') hs
    | error he => exact alike_give hm (EndsAlike.error he) hs
  | callEnd =>
    cases hx with
    | error he => exact alike_give hm (EndsAlike.error he) hs
    | ok h =>
      cases h with
      | returned hv => exact alike_give hm (EndsAlike.ok hv) hs
      | yielded hv hf => exact alike_give hm (EndsAlike.error (Abrupt.alike_error _ _)) hs
  | bodyEnd g => exact alike_endBody hm g hx hs
  | recordStep r =>
    cases hx with
    | error he => exact alike_give hm (EndsAlike.error he) hs
    | @ok step step' h =>
      have hm' : Store.Alike S W
          { m with resumptions := m.resumptions.modify r fun c => { c with done := some step.done } }
          { m' with
            resumptions := m'.resumptions.modify r fun c => { c with done := some step'.done } } :=
        { hm with resumptions := hm.resumptions.modify r fun _ _ hc =>
            ⟨hc.value, congrArg some h.done⟩ }
      exact alike_give hm' (EndsAlike.ok h.value) hs
  | reportStep r =>
    cases hx with
    | error he => exact alike_give hm (EndsAlike.error he) hs
    | ok hv =>
      have hdone := congrArg (Option.getD · true) (hm.resumption r).done
      exact alike_give hm (EndsAlike.ok ⟨hv, hdone⟩) hs
  | bindMade =>
    obtain rfl : x = x' := hx
    simp only [take, ← hm.context]
    split
    · exact alike_give hm rfl hs
    · exact alike_beginBind hm x hs
  | notifying event c rest =>
    cases rest with
    | nil => exact alike_give hm rfl hs
    | cons l rest =>
      exact ⟨hm, .running (hhost.notify W l event c) (hs.push (.notifying event c rest) trivial)⟩
  | entered c => exact alike_give hm rfl hs
  | left => exact alike_give hm rfl hs
  | release => exact alike_beginExit hm (hs.push .released trivial)
  | released => exact alike_give hm rfl hs
  | repanic => exact ⟨hm, .panicking hs⟩
  | guarded => exact alike_give hm rfl hs

/-- Alike tasks take alike results. -/
theorem alike_take (hhost : host.Indifferent S) {α β : Kind} {t t' : Task σ α β}
    {x x' : α.Result} {s s' : Stack σ β goal} (hm : m.Alike S W m') (ht : t.Alike S W t')
    (hx : ResultAlike W α x x') (hs : s.Alike S W s') :
    (take host thread m t x s).Alike S W (take host thread m' t' x' s') := by
  cases ht with
  | program hk => exact ⟨hm, .running (hk W le_rfl _ _ hx) hs⟩
  | called ha =>
    cases hx with
    | ok hv =>
      have hfollow := alike_follow hm (ha.deliver hv) hs
      simp only [take, ← ha.context]
      exact hfollow _
    | error he =>
      obtain ⟨hflow, hm'⟩ := ha.fail he hm
      simp only [take, ← ha.context]
      exact alike_follow hm' hflow hs _
  | observed ha =>
    cases x with
    | ok u =>
      obtain rfl : Except.ok u = x' := hx
      exact ⟨hm, .executing ha hs⟩
    | error reason =>
      obtain rfl : Except.error reason = x' := hx
      simp only [take, ← ha.context]
      exact alike_follow hm (.leave (.error (.other rfl))) hs _
  | bracketBody hbody =>
    cases x with
    | ok c =>
      obtain rfl : Except.ok c = x' := hx
      exact ⟨hm, .running (hbody W le_rfl c) (hs.push .release trivial)⟩
    | error f =>
      obtain rfl : Except.error f = x' := hx
      exact alike_give hm rfl hs
  | fixed ht => exact alike_take_fixed hhost ht hm hx hs

theorem alike_passPanic {α β : Kind} {t t' : Task σ α β} {s s' : Stack σ β goal}
    (hm : m.Alike S W m') (ht : t.Alike S W t') (hs : s.Alike S W s') :
    (passPanic thread m t s).Alike S W (passPanic thread m' t' s') := by
  cases ht with
  | program | bracketBody => exact ⟨hm, .panicking hs⟩
  | called ha | observed ha =>
    simp only [passPanic, ← ha.context]
    exact ⟨alike_changeDepth hm _ (· - 1), .panicking hs⟩
  | fixed ht =>
    cases t with
    | program | called | observed | bracketBody => exact absurd ht id
    | clearTopCall | restoreCaptures => exact ⟨hm.modifyContext _ _, .panicking hs⟩
    | release => exact alike_beginExit hm (hs.push .repanic trivial)
    | repanic => exact ⟨hm, .crashed⟩
    | guarded => exact alike_give hm rfl hs
    | _ => exact ⟨hm, .panicking hs⟩

theorem alike_count (hhost : host.Indifferent S) {a b : Activation} {s s' : Stack σ .exit goal}
    (hm : m.Alike S W m') (ha : a.Alike W b) (hs : s.Alike S W s') :
    (count host m a s).Alike S W (count host m' b s') := by
  have hm₁ := hm.modifyContext a.context fun _ => (m.context a.context).countInstruction.2
  unfold count
  dsimp only
  rw [← ha.context, ← hm.context, ← hm₁.factoryOf]
  split
  · exact ⟨hm₁, .running (hhost.observe W _ _ _) (.cons (.observed ha) hs)⟩
  · exact ⟨hm₁, .executing ha hs⟩

/-! ## The machine that concatenates at once -/

/-- Execute an instruction of an activation; concatenations are carried out at once. -/
def executeEager (m : Store σ) (a : Activation) (s : Stack σ .exit goal) : Config σ goal :=
  match a.executeEager m with
  | (.flow flow, m) => follow m a.context flow s
  | (.call a f site, m) => ⟨m, .calling f site (.cons (.called a) s)⟩

/-- One step of a host program; concatenations by `+` are carried out at once. -/
def runProgramEager (host : Host σ) (thread : Id .thread) (m : Store σ) {κ : Kind}
    (p : Program σ κ) (s : Stack σ κ goal) : Config σ goal :=
  match p with
  | .ask q k =>
    let (reply, m) := q.performEager host thread m
    ⟨m, .running (k reply) s⟩
  | p => runProgram host thread m p s

/-- One step of the machine that makes a flat string wherever `+` makes a concatenation. -/
def stepEager (host : Host σ) (thread : Id .thread) (X : Config σ goal) : Config σ goal :=
  match X.state with
  | .running p s => runProgramEager host thread X.store p s
  | .executing a s => executeEager X.store a s
  | _ => X.step host thread

/-- A number of steps of that machine. -/
def runEager (host : Host σ) (thread : Id .thread) : Nat → Config σ goal → Config σ goal
  | 0, X => X
  | n + 1, X => runEager host thread n (X.stepEager host thread)

/-- The text of the concatenation that the next step makes, if it makes one. -/
def joined? (X : Config σ goal) : Option String :=
  match X.state with
  | .running (.ask q _) _ => q.joined?
  | .executing a _ => a.joined?
  | _ => none

/-! ## Steps -/

theorem alike_execute (hhost : host.Indifferent S) {a b : Activation} {s s' : Stack σ .exit goal}
    (hm : m.Alike S W m') (ha : a.Alike W b) (hs : s.Alike S W s')
    (hshort : ∀ text, a.joined? = some text → IsShort text) :
    ∃ W', W ≤ W' ∧ (execute m a s).Alike S W' (executeEager m' b s') := by
  have hmove := ha.execute hm hhost.monotone hshort
  unfold execute executeEager
  rw [← ha.context]
  revert hmove
  generalize a.execute m = x, b.executeEager m' = y
  obtain ⟨move, n⟩ := x
  obtain ⟨move', n'⟩ := y
  rintro ⟨W', hle, hmove, hn⟩
  refine ⟨W', hle, ?_⟩
  cases hmove with
  | flow hflow => exact alike_follow hn hflow (hs.mono hle) _
  | call hb hf hsite => exact ⟨hn, .calling hf hsite (.cons (.called hb) (hs.mono hle))⟩

theorem alike_runProgram (hhost : host.Indifferent S) {κ : Kind} {p p' : Program σ κ}
    {s s' : Stack σ κ goal} (hm : m.Alike S W m') (hp : p.Alike S W p') (hs : s.Alike S W s')
    (hshort : ∀ text, (⟨m, .running p s⟩ : Config σ goal).joined? = some text → IsShort text) :
    ∃ W', W ≤ W' ∧
      (runProgram host thread m p s).Alike S W' (runProgramEager host thread m' p' s') := by
  cases hp with
  | finish hr => exact ⟨W, le_rfl, alike_give hm hr hs⟩
  | panic => exact ⟨W, le_rfl, hm, .panicking hs⟩
  | ask hq hk =>
    obtain ⟨W', hle, hr, hm'⟩ := hm.ask hhost thread hq hshort
    exact ⟨W', hle, hm', .running (hk W' hle _ _ hr) (hs.mono hle)⟩
  | act ha hk => exact ⟨W, le_rfl, alike_beginAction hhost hm ha hk hs⟩
  | bracket f hbody hk =>
    have hprogram := Task.alike_program (α := .left) (fun _ _ _ hr => hr) hk
    exact ⟨W, le_rfl,
      alike_beginEnter hhost hm f none (.cons (.bracketBody hbody) (.cons hprogram hs))⟩
  | guard hbody hk =>
    have hprogram := Task.alike_program (α := .guarded) (fun _ _ _ hr => hr) hk
    have hstack := Stack.Alike.cons hprogram hs
    exact ⟨W, le_rfl, hm, .running hbody (hstack.push .guarded trivial)⟩

/-- A step of the one machine and the same step of the other. -/
theorem Alike.step (hhost : host.Indifferent S) {X Y : Config σ goal} (h : X.Alike S W Y)
    (hshort : ∀ text, X.joined? = some text → IsShort text) :
    ∃ W', W ≤ W' ∧ (X.step host thread).Alike S W' (Y.stepEager host thread) := by
  obtain ⟨m, state⟩ := X
  obtain ⟨m', state'⟩ := Y
  obtain ⟨hm, hstate⟩ := h
  cases hstate with
  | running hp hs => exact alike_runProgram hhost hm hp hs hshort
  | executing ha hs => exact alike_execute hhost hm ha hs hshort
  | calling hf hsite hs => exact ⟨W, le_rfl, alike_beginCall hhost hm hf hsite hs⟩
  | counting ha hs => exact ⟨W, le_rfl, alike_count hhost hm ha hs⟩
  | returning hx hs =>
    cases hs with
    | nil => exact ⟨W, le_rfl, hm, .returning hx .nil⟩
    | cons ht hs => exact ⟨W, le_rfl, alike_take hhost hm ht hx hs⟩
  | panicking hs =>
    cases hs with
    | nil => exact ⟨W, le_rfl, hm, .panicking .nil⟩
    | cons ht hs => exact ⟨W, le_rfl, alike_passPanic hm ht hs⟩
  | crashed => exact ⟨W, le_rfl, hm, .crashed⟩

end Config

end ScriptMachine
