import ScriptMachine.Machine.Step
import ScriptMachine.Proofs.Returns.Program

/-!
# Machines over code with explicit returns

Two configurations match if their stores do, and the same activity runs on matching stacks. They go
in step, except where an instruction is counted and at the end of the code of a unit:
`Config.Matches.step`.
-/

namespace ScriptMachine

variable {σ : Type} {goal : Kind} (U : Units) (S : σ → σ → Prop)

/-! ## Stacks and configurations -/

/-- A task that holds neither code nor host code. -/
def Task.IsCodeless {α β : Kind} : Task σ α β → Prop
  | .program _ | .called _ | .observed _ | .bracketBody _ | .bodyEnd _ => False
  | _ => True

/-- The second task goes on with explicit returns as the first one does. -/
inductive Task.Matches : {α β : Kind} → Task σ α β → Task σ α β → Prop
  | program {α κ : Kind} {k k' : α.Result → Program σ κ}
      (hk : ∀ x, (k x).Matches U S (k' (explicitResult U α x))) :
      Task.Matches (.program k) (.program k')
  | called (a : Activation) : Task.Matches (.called a) (.called (a.explicit U))
  | observed (a : Activation) : Task.Matches (.observed a) (.observed (a.explicit U))
  | bracketBody {body body' : Id .context → Program σ .done}
      (h : ∀ c, (body c).Matches U S (body' c)) :
      Task.Matches (.bracketBody body) (.bracketBody body')
  | bodyEnd (g : Generator) : Task.Matches (.bodyEnd g) (.bodyEnd (g.explicit U))
  | codeless {α β : Kind} {t : Task σ α β} (h : t.IsCodeless) : Task.Matches t t

/-- Tasks one by one. -/
inductive Stack.Matches : {α : Kind} → Stack σ α goal → Stack σ α goal → Prop
  | nil : Stack.Matches .nil .nil
  | cons {α β : Kind} {t t' : Task σ α β} {s s' : Stack σ β goal} (ht : t.Matches U S t')
      (hs : Stack.Matches s s') : Stack.Matches (.cons t s) (.cons t' s')

/-- The same activity with explicit returns, on matching stacks. -/
inductive State.Matches : State σ goal → State σ goal → Prop
  | running {κ : Kind} {p p' : Program σ κ} {s s' : Stack σ κ goal} (hp : p.Matches U S p')
      (hs : s.Matches U S s') : State.Matches (.running p s) (.running p' s')
  | calling (f : Callable) (site : CallSite) {s s' : Stack σ .completion goal}
      (hs : s.Matches U S s') :
      State.Matches (.calling f site s) (.calling (f.explicit U) (site.explicit U) s')
  | counting (a : Activation) {s s' : Stack σ .exit goal} (hs : s.Matches U S s') :
      State.Matches (.counting a s) (.counting (a.explicit U) s')
  | executing (a : Activation) {s s' : Stack σ .exit goal} (hs : s.Matches U S s') :
      State.Matches (.executing a s) (.executing (a.explicit U) s')
  | returning {κ : Kind} (x : κ.Result) {s s' : Stack σ κ goal} (hs : s.Matches U S s') :
      State.Matches (.returning x s) (.returning (explicitResult U κ x) s')
  | panicking {κ : Kind} {s s' : Stack σ κ goal} (hs : s.Matches U S s') :
      State.Matches (.panicking s) (.panicking s')
  | crashed : State.Matches .crashed .crashed

/-- The same configuration with explicit returns in all code that it holds, up to the counts of
instructions. -/
structure Config.Matches (X Y : Config σ goal) : Prop where
  store : X.store.Matches U S Y.store
  state : X.state.Matches U S Y.state

variable {U S}

theorem Stack.Matches.push {α β : Kind} {s s' : Stack σ β goal} (h : s.Matches U S s')
    (t : Task σ α β) (ht : t.IsCodeless) : Stack.Matches U S (.cons t s) (.cons t s') :=
  .cons (.codeless ht) h

/-! ## The beginnings of activities -/

namespace Config

variable {host host' : Host σ} {thread : Id .thread} {m m' : Store σ}

theorem matches_give (hm : m.Matches U S m') {κ : Kind} (x : κ.Result) {s s' : Stack σ κ goal}
    (hs : s.Matches U S s') :
    (give m κ x s).Matches U S (give m' κ (explicitResult U κ x) s') := ⟨hm, .returning x hs⟩

theorem matches_failCall (hm : m.Matches U S m') (f : Fault) {s s' : Stack σ .completion goal}
    (hs : s.Matches U S s') :
    (failCall m (.fault f) s).Matches U S (failCall m' (.fault f) s') :=
  matches_give hm (κ := .completion) (.error (.fault f)) hs

theorem matches_changeDepth (hm : m.Matches U S m') (c : Id .context) (f : Nat → Nat) :
    (changeDepth m c f).Matches U S (changeDepth m' c f) := hm.modifyContext _ _

theorem matches_beginActivation (hm : m.Matches U S m') (c : Id .context) (frames : List Frame)
    (isGenerator : Bool) {s s' : Stack σ .exit goal} (hs : s.Matches U S s') :
    (beginActivation m c frames isGenerator s).Matches U S
      (beginActivation m' c (frames.map (Frame.explicit U)) isGenerator s') := by
  unfold beginActivation
  rw [hm.frameLimit]
  exact ⟨matches_changeDepth hm _ _,
    .counting ⟨c, frames, (m.context c).frameLimit, isGenerator⟩ hs⟩

theorem matches_follow (hm : m.Matches U S m') (c : Id .context) (flow : Flow)
    {s s' : Stack σ .exit goal} (hs : s.Matches U S s') :
    (follow m c flow s).Matches U S (follow m' c (flow.explicit U) s') := by
  cases flow with
  | next a => exact ⟨hm, .counting a hs⟩
  | leave e => exact matches_give (matches_changeDepth hm _ _) (κ := .exit) e hs

theorem matches_interpret (hm : m.Matches U S m') (e : Executable) (site : CallSite)
    {s s' : Stack σ .completion goal} (hs : s.Matches U S s') :
    (interpret m e site s).Matches U S (interpret m' (e.explicit U) (site.explicit U) s') := by
  have hframe : Frame.enter (e.explicit U) (site.explicit U).scope (site.explicit U).receiver
      (site.explicit U).args = (Frame.enter e site.scope site.receiver site.args).explicit U :=
    (Frame.explicit_enter U e site.scope site.receiver site.args).symm
  unfold interpret
  rw [hframe, Executable.routine_explicit, Routine.isGenerator_explicit]
  dsimp only
  split
  · obtain ⟨hg, hm'⟩ := hm.newGenerator (Frame.enter e site.scope site.receiver site.args)
    rw [hg]
    exact matches_give hm' (κ := .completion) (.ok (.generator _)) hs
  · exact matches_beginActivation hm site.context [_] false (hs.push .callEnd trivial)

theorem matches_beginOutermost (hhost : host.Matches U S host') (hm : m.Matches U S m')
    (f : Callable) (site : CallSite) (isStrict : Bool) {s s' : Stack σ .completion goal}
    (hs : s.Matches U S s') :
    (beginOutermost host m f site isStrict s).Matches U S
      (beginOutermost host' m' (f.explicit U) (site.explicit U) isStrict s') := by
  have hcontext : (site.explicit U).context = site.context := rfl
  have hscope : (site.explicit U).scope = site.scope := rfl
  have hm₁ := hm.modifyContext site.context fun cx =>
    { cx with topCall := some ⟨site.scope, isStrict⟩ }
  unfold beginOutermost
  simp only [hcontext, hscope, hm.topCall]
  split
  · exact matches_failCall hm _ hs
  · have hcleared := hs.push (.clearTopCall site.context) trivial
    rw [hm₁.factoryOf]
    split
    · exact ⟨hm₁, .running (hhost.outermost _ f site) hcleared⟩
    · exact ⟨hm₁, .calling f site (hcleared.push .flattenResult trivial)⟩
    · exact ⟨hm₁, .calling f site (hcleared.push .flattenResult trivial)⟩

theorem matches_beginCapturing (hhost : host.Matches U S host') (hm : m.Matches U S m')
    (f : Callable) (c : Id .context) (scope : Id .scope) (args : List Value) (isStrict : Bool)
    {s s' : Stack σ .completion goal} (hs : s.Matches U S s') :
    (beginCapturing host m f c scope args isStrict s).Matches U S
      (beginCapturing host' m' (f.explicit U) c scope (args.map (Value.explicit U)) isStrict
        s') := by
  unfold beginCapturing
  rw [hm.acceptsCaptures]
  exact matches_beginOutermost hhost (hm.modifyContext _ _) f ⟨c, scope, .object scope, args⟩
    isStrict (hs.push (.restoreCaptures c (m.context c).acceptsCaptures) trivial)

/-- The body of a generator goes on, or is left. -/
theorem matches_resumed (hm : m.Matches U S m') (g : Generator) (c : Id .context)
    {s s' : Stack σ .step goal} (hs : s.Matches U S s') : ∀ flow : Flow,
    Config.Matches U S
      (match flow with
        | .next a => beginActivation m c a.frames true (.cons (.bodyEnd g) s)
        | .leave e => give m .exit e (.cons (.bodyEnd g) s) : Config σ goal)
      (match flow.explicit U with
        | .next a => beginActivation m' c a.frames true (.cons (.bodyEnd (g.explicit U)) s')
        | .leave e => give m' .exit e (.cons (.bodyEnd (g.explicit U)) s') : Config σ goal)
  | .next a => matches_beginActivation hm c a.frames true (.cons (.bodyEnd g) hs)
  | .leave e => matches_give hm (κ := .exit) e (.cons (.bodyEnd g) hs)

/-- What a finished generator answers. -/
theorem matches_ended (hm : m.Matches U S m') (v : Value) {s s' : Stack σ .step goal}
    (hs : s.Matches U S s') : ∀ op : GeneratorOp,
    Config.Matches U S
      (match op with
        | .next => give m .step (.ok ⟨.undefined, true⟩) s
        | .return => give m .step (.ok ⟨v, true⟩) s
        | .throw => give m .step (.error (.thrown v)) s : Config σ goal)
      (match op with
        | .next => give m' .step (.ok ⟨.undefined, true⟩) s'
        | .return => give m' .step (.ok ⟨v.explicit U, true⟩) s'
        | .throw => give m' .step (.error (.thrown (v.explicit U))) s' : Config σ goal)
  | .next => matches_give hm (κ := .step) (.ok ⟨.undefined, true⟩) hs
  | .return => matches_give hm (κ := .step) (.ok ⟨v, true⟩) hs
  | .throw => matches_give hm (κ := .step) (.error (.thrown v)) hs

theorem matches_beginStep (hm : m.Matches U S m') (g : Generator) (op : GeneratorOp)
    (c : Id .context) (v : Value) {s s' : Stack σ .step goal} (hs : s.Matches U S s') :
    (beginStep m g op c v s).Matches U S
      (beginStep m' (g.explicit U) op c (v.explicit U) s') := by
  have hg : m'.generators.get (g.explicit U).id = (m.generators.get g.id).explicit U :=
    hm.generator g.id
  have hrunning := hm.setGenerator g.id { frame := none, started := true }
  have hfinished := hm.setGenerator g.id { frame := none, started := true, finished := true }
  unfold beginStep
  rw [hg]
  generalize m.generators.get g.id = state
  obtain ⟨frame, started, finished⟩ := state
  dsimp only [GeneratorState.explicit]
  split
  · exact matches_ended hm v hs op
  · cases frame with
    | none => exact matches_give hm (κ := .step) (.error (.typeError _)) hs
    | some f =>
      have hgo := matches_resumed hrunning g c hs
      let a : Activation := ⟨c, [f], (m.context c).frameLimit, true⟩
      dsimp only [Option.map_some]
      rw [hm.frameLimit]
      split
      · cases op with
        | next => exact hgo (.next { a with frames := [f.push v] })
        | throw =>
          have hthrow := hgo (a.throw v)
          rw [← a.throw_explicit] at hthrow
          exact hthrow
        | «return» =>
          have hreturn := hgo (a.returnValue v)
          rw [← a.returnValue_explicit] at hreturn
          exact hreturn
      · cases op with
        | next => exact hgo (.next a)
        | throw => exact matches_ended hfinished v hs .throw
        | «return» => exact matches_ended hfinished v hs .return

theorem matches_beginResumption (hhost : host.Matches U S host') (hm : m.Matches U S m')
    (via : Executable) (g : Generator) (op : GeneratorOp) (c : Id .context) (scope : Id .scope)
    (v : Value) {s s' : Stack σ .step goal} (hs : s.Matches U S s') :
    (beginResumption host m via g op c scope v s).Matches U S
      (beginResumption host' m' (via.explicit U) (g.explicit U) op c scope (v.explicit U) s') := by
  have hsame : (g.explicit U).body.sameCode (via.explicit U) = g.body.sameCode via := rfl
  unfold beginResumption
  rw [hsame, hm.topCall, Executable.routine_explicit, Routine.isStrict_explicit]
  split
  · exact matches_give hm (κ := .step) (.error (.invalidArgument .foreignGenerator)) hs
  · split
    · exact matches_beginStep hm g op c v hs
    · obtain ⟨hid, hm'⟩ := hm.insertResumption { value := some v }
      have hkept : Resumption.explicit U { value := some v } = { value := some (v.explicit U) } :=
        rfl
      rw [hkept] at hid hm'
      dsimp only
      rw [hid]
      exact matches_beginOutermost hhost hm' (.resumption _ g op) ⟨c, scope, .object scope, []⟩ _
        (hs.push (.reportStep (m.resumptions.insert { value := some v }).1) trivial)

theorem matches_beginContinuation (hm : m.Matches U S m') (k : Id .continuation) (v : Value)
    (c : Id .context) {s s' : Stack σ .completion goal} (hs : s.Matches U S s') :
    (beginContinuation m k v c s).Matches U S (beginContinuation m' k (v.explicit U) c s') := by
  have htaken := hm.takeFrames k
  unfold beginContinuation
  revert htaken
  generalize m.takeFrames k = x, m'.takeFrames k = y
  intro htaken
  cases htaken with
  | error cause => exact matches_failCall hm _ hs
  | @ok frames _ _ hm' =>
    cases frames with
    | nil => exact matches_failCall hm' _ hs
    | cons f callers =>
      exact matches_beginActivation hm' c (f.push v :: callers) false (hs.push .callEnd trivial)

theorem matches_beginCall (hhost : host.Matches U S host') (hm : m.Matches U S m')
    (f : Callable) (site : CallSite) {s s' : Stack σ .completion goal} (hs : s.Matches U S s') :
    (beginCall host m f site s).Matches U S
      (beginCall host' m' (f.explicit U) (site.explicit U) s') := by
  have hcontext : (site.explicit U).context = site.context := rfl
  cases f with
  | executable e =>
    simp only [beginCall, Callable.explicit, hcontext, hm.topCall, Executable.routine_explicit,
      Routine.isStrict_explicit]
    split
    · exact matches_interpret hm e site hs
    · exact matches_beginOutermost hhost hm (.executable e) site _ hs
  | hostFunction h => exact ⟨hm, .running (hhost.run h.id site) hs⟩
  | resumption r g op =>
    have hvalue : (m'.resumptions.get r).value.getD .undefined =
        ((m.resumptions.get r).value.getD .undefined).explicit U := by
      rw [hm.resumption, Resumption.explicit]
      cases (m.resumptions.get r).value <;> rfl
    have hm' := hm.modifyResumption r (f := fun x => { x with value := none })
      (k := fun x => { x with value := none }) fun _ => rfl
    simp only [beginCall, Callable.explicit, hvalue]
    exact matches_beginStep hm' g op site.context _ (hs.push (.recordStep r) trivial)
  | continuation k v => exact matches_beginContinuation hm k v site.context hs

/-! ## Bindings -/

theorem matches_beginMake (hhost : host.Matches U S host') (hm : m.Matches U S m')
    (f : Id .factory) {s s' : Stack σ .made goal} (hs : s.Matches U S s') :
    (beginMake host m f s).Matches U S (beginMake host' m' f s') := by
  unfold beginMake
  rw [hm.factories]
  split
  · obtain ⟨hid, hm'⟩ := hm.newContext f
    dsimp only
    rw [hid]
    exact matches_give hm' (κ := .made) _ hs
  · next plan _ =>
    obtain ⟨hid, hm'⟩ := hm.plannedContext f plan
    dsimp only
    rw [hid]
    exact matches_give hm' (κ := .made) _ hs
  · exact ⟨hm, .running (hhost.makeContext _ f) hs⟩

theorem matches_beginNotify (hm : m.Matches U S m') (event : ContextEvent) (c : Id .context)
    {s s' : Stack σ .done goal} (hs : s.Matches U S s') :
    (beginNotify m event c s).Matches U S (beginNotify m' event c s') := by
  unfold beginNotify
  rw [hm.factoryOf]
  exact matches_give hm (κ := .done) () (hs.push (.notifying event c _) trivial)

theorem matches_beginBind (hm : m.Matches U S m') (c : Id .context)
    {s s' : Stack σ .entered goal} (hs : s.Matches U S s') :
    (beginBind thread m c s).Matches U S (beginBind thread m' c s') := by
  simp only [beginBind, Context.bind, hm.boundTo c]
  cases (m.context c).boundTo with
  | some owner => exact matches_give hm (κ := .entered) (.error (.illegalState _)) hs
  | none =>
    dsimp only
    have hm₁ := hm.setContext c fun cx => { cx with boundTo := some thread, enterCount := 1 }
    have hm₂ := hm₁.rebind fun l => (thread, c) :: l.filter (·.1 != thread)
    exact matches_beginNotify hm₂ .created c (hs.push (.entered c) trivial)

theorem matches_beginEnter (hhost : host.Matches U S host') (hm : m.Matches U S m')
    (f : Id .factory) (requested : Option (Id .context)) {s s' : Stack σ .entered goal}
    (hs : s.Matches U S s') :
    (beginEnter host thread m f requested s).Matches U S
      (beginEnter host' thread m' f requested s') := by
  unfold beginEnter
  rw [hm.current]
  split
  · exact matches_give (hm.modifyContext _ _) (κ := .entered) (.ok _) hs
  · split
    · exact matches_beginBind hm _ hs
    · exact matches_beginMake hhost hm f (hs.push .bindMade trivial)

theorem matches_beginExit (hm : m.Matches U S m') {s s' : Stack σ .left goal}
    (hs : s.Matches U S s') : (beginExit thread m s).Matches U S (beginExit thread m' s') := by
  unfold beginExit
  rw [hm.current]
  split
  · exact matches_give hm (κ := .left) (.error _) hs
  · next c _ =>
    simp only [Context.release, hm.enterCount]
    match (m.context c).enterCount with
    | 0 => exact matches_give hm (κ := .left) (.error _) hs
    | 1 =>
      have hm₁ := hm.setContext c fun cx => { cx with enterCount := 0, boundTo := none }
      have hm₂ := hm₁.rebind fun l => l.filter (·.1 != thread)
      exact matches_beginNotify hm₂ .released c (hs.push .left trivial)
    | n + 2 =>
      have hm₁ := hm.setContext c fun cx => { cx with enterCount := n + 1 }
      exact matches_give hm₁ (κ := .left) (.ok ()) hs

/-! ## Actions, results and panics -/

theorem matches_beginCapturingCall (hhost : host.Matches U S host') (hm : m.Matches U S m')
    (e : Executable) (c : Id .context) (scope : Id .scope) (args : List Value)
    {s s' : Stack σ .completion goal} (hs : s.Matches U S s') :
    (beginAction.beginCapturingCall host m e c scope args s).Matches U S
      (beginAction.beginCapturingCall host' m' (e.explicit U) c scope
        (args.map (Value.explicit U)) s') := by
  unfold beginAction.beginCapturingCall
  rw [hm.topCall, Executable.routine_explicit, Routine.isStrict_explicit]
  split
  · exact matches_failCall hm _ hs
  · exact matches_beginCapturing hhost hm (.executable e) c scope args _ hs

/-- The program that performed an action waits for its result. -/
theorem matches_beginAction (hhost : host.Matches U S host') (hm : m.Matches U S m') {κ : Kind}
    {a a' : Action} {R : a.kind.Result → a'.kind.Result → Prop} {k : a.kind.Result → Program σ κ}
    {k' : a'.kind.Result → Program σ κ} (ha : a.Matches U a' R)
    (hk : ∀ x y, R x y → (k x).Matches U S (k' y)) {s s' : Stack σ κ goal}
    (hs : s.Matches U S s') :
    (beginAction host thread m a (.cons (.program k) s)).Matches U S
      (beginAction host' thread m' a' (.cons (.program k') s')) := by
  cases ha with
  | call f site =>
    exact ⟨hm, .calling f site (.cons (.program fun x => hk x _ rfl) hs)⟩
  | callOutermost f site isStrict =>
    exact matches_beginOutermost hhost hm f site isStrict
      (.cons (.program fun x => hk x _ rfl) hs)
  | execute e c scope =>
    have hstack : Stack.Matches U S (.cons (.program k) s) (.cons (.program k') s') :=
      .cons (.program (α := .completion) fun x => hk x _ rfl) hs
    simp only [beginAction, Executable.routine_explicit, Routine.isScript_explicit]
    split
    · exact matches_failCall hm _ hstack
    · exact ⟨hm, .calling (.executable e) ⟨c, scope, .object scope, []⟩ hstack⟩
  | executeCapturing e c scope =>
    have hstack : Stack.Matches U S (.cons (.program k) s) (.cons (.program k') s') :=
      .cons (.program (α := .completion) fun x => hk x _ rfl) hs
    simp only [beginAction, Executable.routine_explicit, Routine.isScript_explicit]
    split
    · exact matches_failCall hm _ hstack
    · exact matches_beginCapturingCall hhost hm e c scope [] hstack
  | callCapturing e c scope args =>
    exact matches_beginCapturingCall hhost hm e c scope args
      (.cons (.program fun x => hk x _ rfl) hs)
  | resume i c scope v =>
    have hstack : Stack.Matches U S (.cons (.program k) s) (.cons (.program k') s') :=
      .cons (.program (α := .completion) fun x => hk x _ rfl) hs
    simp only [beginAction, hm.topCall, hm.continuation, CaptureState.isResumable_explicit,
      CaptureState.isStrict_explicit]
    split
    · exact matches_failCall hm _ hstack
    · split
      · exact matches_failCall hm _ hstack
      · exact matches_beginCapturing hhost hm (.continuation i v) c scope [] _ hstack
  | step via g op c scope v =>
    exact matches_beginResumption hhost hm via g op c scope v
      (.cons (.program fun x => hk x _ rfl) hs)
  | enter f requested =>
    exact matches_beginEnter hhost hm f requested (.cons (.program fun x => hk x _ rfl) hs)
  | exit => exact matches_beginExit hm (.cons (.program fun x => hk x _ rfl) hs)
  | makeContext f =>
    exact matches_beginMake hhost hm f (.cons (.program fun x => hk x _ rfl) hs)

theorem matches_endBody (hm : m.Matches U S m') (g : Generator) {s s' : Stack σ .step goal}
    (hs : s.Matches U S s') : ∀ e : Except Abrupt Exit,
    (endBody m g e s).Matches U S
      (endBody m' (g.explicit U) (explicitEnd U (Exit.explicit U) e) s')
  | .ok (.yielded v f) =>
    have hm' := hm.modifyGenerator g.id (f := fun x => { x with frame := some f })
      (k := fun x => { x with frame := some (f.explicit U) }) fun _ => rfl
    matches_give hm' (κ := .step) (.ok ⟨v, false⟩) hs
  | .ok (.returned v) =>
    have hm' := hm.modifyGenerator g.id (f := fun x => { x with finished := true })
      (k := fun x => { x with finished := true }) fun _ => rfl
    matches_give hm' (κ := .step) (.ok ⟨v, true⟩) hs
  | .error e =>
    have hm' := hm.modifyGenerator g.id (f := fun x => { x with finished := true })
      (k := fun x => { x with finished := true }) fun _ => rfl
    matches_give hm' (κ := .step) (.error e) hs

/-- A task that holds nothing of its own takes the same result. -/
theorem matches_take_codeless (hhost : host.Matches U S host') (hm : m.Matches U S m')
    {α β : Kind} {t : Task σ α β} (ht : t.IsCodeless) (x : α.Result) {s s' : Stack σ β goal}
    (hs : s.Matches U S s') :
    (take host thread m t x s).Matches U S
      (take host' thread m' t (explicitResult U α x) s') := by
  cases t with
  | program | called | observed | bracketBody | bodyEnd => exact absurd ht id
  | clearTopCall c => exact matches_give (hm.modifyContext _ _) x hs
  | restoreCaptures c previous => exact matches_give (hm.modifyContext _ _) x hs
  | flattenResult =>
    cases x with
    | ok v =>
      obtain ⟨hv, hm'⟩ := hm.flatten v
      simp only [take, explicitResult, explicitEnd, hv]
      exact matches_give hm' (κ := .completion) (.ok _) hs
    | error e => exact matches_give hm (κ := .completion) (.error e) hs
  | callEnd =>
    cases x with
    | error e => exact matches_give hm (κ := .completion) (.error e) hs
    | ok exit =>
      cases exit with
      | returned v => exact matches_give hm (κ := .completion) (.ok v) hs
      | yielded v f => exact matches_give hm (κ := .completion) (.error (.typeError _)) hs
  | recordStep r =>
    cases x with
    | error e => exact matches_give hm (κ := .completion) (.error e) hs
    | ok step =>
      have hm' := hm.modifyResumption r (f := fun c => { c with done := some step.done })
        (k := fun c => { c with done := some step.done }) fun _ => rfl
      exact matches_give hm' (κ := .completion) (.ok step.value) hs
  | reportStep r =>
    cases x with
    | error e => exact matches_give hm (κ := .step) (.error e) hs
    | ok v =>
      have hdone : (m'.resumptions.get r).done = (m.resumptions.get r).done := by
        rw [hm.resumption]
        rfl
      simp only [take, explicitResult, explicitEnd, hdone]
      exact matches_give hm (κ := .step) (.ok ⟨v, _⟩) hs
  | bindMade =>
    simp only [take, explicitResult, hm.boundTo]
    split
    · exact matches_give hm (κ := .entered) (.error _) hs
    · exact matches_beginBind hm x hs
  | notifying event c rest =>
    cases rest with
    | nil => exact matches_give hm (κ := .done) () hs
    | cons l rest =>
      exact ⟨hm, .running (hhost.notify l event c) (hs.push (.notifying event c rest) trivial)⟩
  | entered c => exact matches_give hm (κ := .entered) (.ok c) hs
  | left => exact matches_give hm (κ := .left) (.ok ()) hs
  | release => exact matches_beginExit hm (hs.push .released trivial)
  | released => exact matches_give hm (κ := .left) (.ok ()) hs
  | repanic => exact ⟨hm, .panicking hs⟩
  | guarded => exact matches_give hm (κ := .guarded) true hs

/-- Matching tasks take the same result. -/
theorem matches_take (hhost : host.Matches U S host') (hm : m.Matches U S m') {α β : Kind}
    {t t' : Task σ α β} (ht : t.Matches U S t') (x : α.Result) {s s' : Stack σ β goal}
    (hs : s.Matches U S s') :
    (take host thread m t x s).Matches U S
      (take host' thread m' t' (explicitResult U α x) s') := by
  cases ht with
  | program hk => exact ⟨hm, .running (hk x) hs⟩
  | called a =>
    cases x with
    | ok v =>
      have hfollow := matches_follow hm a.context (a.deliver v) hs
      rw [← a.deliver_explicit] at hfollow
      exact hfollow
    | error e =>
      obtain ⟨hflow, hm'⟩ := hm.fail a e
      have hfollow := matches_follow hm' a.context (a.fail e m).1 hs
      rw [← hflow] at hfollow
      exact hfollow
  | observed a =>
    cases x with
    | ok u => exact ⟨hm, .executing a hs⟩
    | error reason => exact matches_follow hm a.context (.leave (.error (.aborted reason))) hs
  | bracketBody hbody =>
    cases x with
    | ok c => exact ⟨hm, .running (hbody c) (hs.push .release trivial)⟩
    | error f => exact matches_give hm (κ := .left) (.error f) hs
  | bodyEnd g => exact matches_endBody hm g hs x
  | codeless ht => exact matches_take_codeless hhost hm ht x hs

theorem matches_passPanic (hm : m.Matches U S m') {α β : Kind} {t t' : Task σ α β}
    (ht : t.Matches U S t') {s s' : Stack σ β goal} (hs : s.Matches U S s') :
    (passPanic thread m t s).Matches U S (passPanic thread m' t' s') := by
  cases ht with
  | program | bracketBody | bodyEnd => exact ⟨hm, .panicking hs⟩
  | called a | observed a => exact ⟨matches_changeDepth hm a.context (· - 1), .panicking hs⟩
  | codeless ht =>
    cases t with
    | program | called | observed | bracketBody | bodyEnd => exact absurd ht id
    | clearTopCall | restoreCaptures => exact ⟨hm.modifyContext _ _, .panicking hs⟩
    | release => exact matches_beginExit hm (hs.push .repanic trivial)
    | repanic => exact ⟨hm, .crashed⟩
    | guarded => exact matches_give hm (κ := .guarded) false hs
    | _ => exact ⟨hm, .panicking hs⟩

/-! ## Steps -/

theorem matches_execute (hm : m.Matches U S m') {a : Activation} (hend : ¬ a.AtEnd U)
    {s s' : Stack σ .exit goal} (hs : s.Matches U S s') :
    (execute m a s).Matches U S (execute m' (a.explicit U) s') := by
  have hmove := hm.execute hend
  unfold execute
  revert hmove
  generalize a.execute m = x, (a.explicit U).execute m' = y
  obtain ⟨move, n⟩ := x
  obtain ⟨move', n'⟩ := y
  rintro ⟨rfl, hn⟩
  cases move with
  | flow flow => exact matches_follow hn a.context flow hs
  | call b f site => exact ⟨hn, .calling f site (.cons (.called b) hs)⟩

theorem matches_runProgram (hhost : host.Matches U S host') (hm : m.Matches U S m') {κ : Kind}
    {p p' : Program σ κ} (hp : p.Matches U S p') {s s' : Stack σ κ goal}
    (hs : s.Matches U S s') :
    (runProgram host thread m p s).Matches U S (runProgram host' thread m' p' s') := by
  cases hp with
  | @finish _ x _ hx =>
    subst hx
    exact matches_give hm x hs
  | panic => exact ⟨hm, .panicking hs⟩
  | ask hq hk =>
    obtain ⟨hr, hm'⟩ := hm.ask hhost thread hq
    exact ⟨hm', .running (hk _ _ hr) hs⟩
  | act ha hk => exact matches_beginAction hhost hm ha hk hs
  | bracket f hbody hk =>
    exact matches_beginEnter hhost hm f none
      (.cons (.bracketBody hbody) (.cons (.program (α := .left) hk) hs))
  | guard hbody hk =>
    have hstack := Stack.Matches.cons (.program (α := .guarded) hk) hs
    exact ⟨hm, .running hbody (hstack.push .guarded trivial)⟩

/-- The next step counts an instruction, or is that of a unit at the end of its code. -/
def IsOutOfStep (U : Units) (X : Config σ goal) : Prop :=
  match X.state with
  | .counting _ _ => True
  | .executing a _ => a.AtEnd U
  | _ => False

/-- A step of the one machine and the same step of the other. -/
theorem Matches.step (hhost : host.Matches U S host') {X Y : Config σ goal}
    (h : X.Matches U S Y) (hstep : ¬ X.IsOutOfStep U) :
    (X.step host thread).Matches U S (Y.step host' thread) := by
  obtain ⟨m, state⟩ := X
  obtain ⟨m', state'⟩ := Y
  obtain ⟨hm, hstate⟩ := h
  cases hstate with
  | running hp hs => exact matches_runProgram hhost hm hp hs
  | calling f site hs => exact matches_beginCall hhost hm f site hs
  | counting a hs => exact absurd trivial hstep
  | executing a hs => exact matches_execute hm hstep hs
  | returning x hs =>
    cases hs with
    | nil => exact ⟨hm, .returning x .nil⟩
    | cons ht hs => exact matches_take hhost hm ht x hs
  | panicking hs =>
    cases hs with
    | nil => exact ⟨hm, .panicking .nil⟩
    | cons ht hs => exact matches_passPanic hm ht hs
  | crashed => exact ⟨hm, .crashed⟩

end Config

end ScriptMachine
