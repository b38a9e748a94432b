import ScriptMachine.Machine.Answer
import ScriptMachine.Machine.Stack

/-!
# Steps of the machine

One step of everything the library does: host programs ask and act, activations count and
execute instructions, results and panics go through the stack. `Config.step` is total; running
to the end is repeating it.

The functions below say how each activity begins (`begin…`), how a task takes a result
(`take`) and what a task does when a panic passes (`passPanic`).
-/

namespace ScriptMachine

/-- A store and what runs on it. -/
structure Config (σ : Type) (goal : Kind) where
  store : Store σ
  state : State σ goal

namespace Config

variable {σ : Type} {goal : Kind}

/-- Start a program on an empty stack. -/
def start (m : Store σ) (p : Program σ goal) : Config σ goal := ⟨m, .running p .nil⟩

/-- Hand a result to the task on top. -/
abbrev give (m : Store σ) (κ : Kind) (result : κ.Result) (s : Stack σ κ goal) :
    Config σ goal :=
  ⟨m, .returning result s⟩

/-- End a call with a fault. -/
abbrev failCall (m : Store σ) (e : Abrupt) (s : Stack σ .completion goal) : Config σ goal :=
  give m .completion (.error e) s

/-- Change how many activations of a context are under way. -/
def changeDepth (m : Store σ) (c : Id .context) (f : Nat → Nat) : Store σ :=
  m.modifyContext c fun cx => { cx with depth := f cx.depth }

/-- Start an activation, which counts as under way until it is left. -/
def beginActivation (m : Store σ) (c : Id .context) (frames : List Frame) (isGenerator : Bool)
    (s : Stack σ .exit goal) : Config σ goal :=
  let limit := (m.context c).frameLimit
  ⟨changeDepth m c (· + 1), .counting { context := c, frames, limit, isGenerator } s⟩

/-- Go on with an activation, or leave it. -/
def follow (m : Store σ) (c : Id .context) (flow : Flow) (s : Stack σ .exit goal) :
    Config σ goal :=
  match flow with
  | .next a => ⟨m, .counting a s⟩
  | .leave e => give (changeDepth m c (· - 1)) .exit e s

/-- Execute an instruction of an activation. -/
def execute (m : Store σ) (a : Activation) (s : Stack σ .exit goal) : Config σ goal :=
  match a.execute m with
  | (.flow flow, m) => follow m a.context flow s
  | (.call a f site, m) => ⟨m, .calling f site (.cons (.called a) s)⟩

/-! ## Calls -/

/-- Call an executable within a top call. A generator function makes a generator and runs
nothing. -/
def interpret (m : Store σ) (e : Executable) (site : CallSite) (s : Stack σ .completion goal) :
    Config σ goal :=
  let frame := Frame.enter e site.scope site.receiver site.args
  if e.routine.isGenerator then
    let (g, m) := m.newGenerator frame
    give m .completion (.ok (.generator g)) s
  else beginActivation m site.context [frame] false (.cons .callEnd s)

/-- Begin the outermost call of a context, as the policy of its factory performs it. The
standard way is to call and to make a string that comes out flat. -/
def beginOutermost (host : Host σ) (m : Store σ) (f : Callable) (site : CallSite)
    (isStrict : Bool) (s : Stack σ .completion goal) : Config σ goal :=
  if (m.context site.context).topCall.isSome then
    failCall m (.illegalState .topCallInProgress) s
  else
    let m := m.modifyContext site.context fun cx =>
      { cx with topCall := some ⟨site.scope, isStrict⟩ }
    let s := .cons (.clearTopCall site.context) s
    match (m.factoryOf site.context).policy with
    | .custom p => ⟨m, .running (host.outermost p f site) s⟩
    | .standard | .planned _ => ⟨m, .calling f site (.cons .flattenResult s)⟩

/-- Begin the outermost call of a context that accepts captures. -/
def beginCapturing (host : Host σ) (m : Store σ) (f : Callable) (c : Id .context)
    (scope : Id .scope) (args : List Value) (isStrict : Bool) (s : Stack σ .completion goal) :
    Config σ goal :=
  let s := .cons (.restoreCaptures c (m.context c).acceptsCaptures) s
  let m := m.modifyContext c fun cx => { cx with acceptsCaptures := true }
  beginOutermost host m f { context := c, scope, receiver := .object scope, args } isStrict s

/-- Begin a resumption of a generator, within a top call. -/
def beginStep (m : Store σ) (g : Generator) (op : GeneratorOp) (c : Id .context) (v : Value)
    (s : Stack σ .step goal) : Config σ goal :=
  let state := m.generators.get g.id
  let put (state : GeneratorState) : Store σ :=
    { m with generators := m.generators.set g.id state }
  let ended (m : Store σ) : Config σ goal :=
    match op with
    | .next => give m .step (.ok ⟨.undefined, true⟩) s
    | .return => give m .step (.ok ⟨v, true⟩) s
    | .throw => give m .step (.error (.thrown v)) s
  let body := Stack.cons (.bodyEnd g) s
  if state.finished then ended m
  else
    match state.frame with
    | none => give m .step (.error (.typeError "generator is already running")) s
    | some frame =>
      let running := put { frame := none, started := true }
      let limit := (m.context c).frameLimit
      let a : Activation := { context := c, frames := [frame], limit, isGenerator := true }
      let go (flow : Flow) : Config σ goal :=
        match flow with
        | .next a => beginActivation running c a.frames true body
        | .leave e => give running .exit e body
      if state.started then
        match op with
        | .next => go (.next { a with frames := [frame.push v] })
        | .throw => go (a.throw v)
        | .return => go (a.returnValue v)
      else
        match op with
        | .next => go (.next a)
        | .throw | .return => ended (put { frame := none, started := true, finished := true })

/-- Begin a resumption of a generator through an executable that runs its body; without a top
call it becomes one. -/
def beginResumption (host : Host σ) (m : Store σ) (via : Executable) (g : Generator)
    (op : GeneratorOp) (c : Id .context) (scope : Id .scope) (v : Value)
    (s : Stack σ .step goal) : Config σ goal :=
  if !g.body.sameCode via then
    give m .step (.error (.invalidArgument .foreignGenerator)) s
  else if (m.context c).topCall.isSome then beginStep m g op c v s
  else
    let (r, resumptions) := m.resumptions.insert { value := some v }
    beginOutermost host { m with resumptions } (.resumption r g op)
      { context := c, scope, receiver := .object scope, args := [] } via.routine.isStrict
      (.cons (.reportStep r) s)

/-- Run the frames of a continuation again; the value is the result of the call that captured
them. -/
def beginContinuation (m : Store σ) (k : Id .continuation) (v : Value) (c : Id .context)
    (s : Stack σ .completion goal) : Config σ goal :=
  match m.takeFrames k with
  | .error cause => failCall m (.illegalState cause) s
  | .ok ([], m) => failCall m (.illegalState .noCapturedFrames) s
  | .ok (frame :: callers, m) =>
    beginActivation m c (frame.push v :: callers) false (.cons .callEnd s)

/-- Call something. An executable becomes the outermost call if there is none. -/
def beginCall (host : Host σ) (m : Store σ) (f : Callable) (site : CallSite)
    (s : Stack σ .completion goal) : Config σ goal :=
  match f with
  | .executable e =>
    if (m.context site.context).topCall.isSome then interpret m e site s
    else beginOutermost host m f site e.routine.isStrict s
  | .hostFunction h => ⟨m, .running (host.run h.id site) s⟩
  | .resumption r g op =>
    let v := (m.resumptions.get r).value.getD .undefined
    let m := { m with resumptions := m.resumptions.modify r fun c => { c with value := none } }
    beginStep m g op site.context v (.cons (.recordStep r) s)
  | .continuation k v => beginContinuation m k v site.context s

/-! ## Bindings -/

/-- Have a factory make a context. -/
def beginMake (host : Host σ) (m : Store σ) (f : Id .factory) (s : Stack σ .made goal) :
    Config σ goal :=
  match (m.factories.get f).policy with
  | .standard =>
    let (c, m) := m.newContext f
    give m .made c s
  | .planned plan =>
    let (c, m) := m.plannedContext f plan
    give m .made c s
  | .custom p => ⟨m, .running (host.makeContext p f) s⟩

/-- Tell the listeners that a context has now about an event. -/
def beginNotify (m : Store σ) (event : ContextEvent) (c : Id .context) (s : Stack σ .done goal) :
    Config σ goal :=
  give m .done () (.cons (.notifying event c (m.factoryOf c).listeners) s)

/-- Bind a context to the running thread, and tell its listeners. -/
def beginBind (thread : Id .thread) (m : Store σ) (c : Id .context) (s : Stack σ .entered goal) :
    Config σ goal :=
  match (m.context c).bind thread with
  | .error cause => give m .entered (.error (.illegalState cause)) s
  | .ok cx =>
    let m := m.modifyContext c fun _ => cx
    let m := { m with bindings := (thread, c) :: m.bindings.filter (·.1 != thread) }
    beginNotify m .created c (.cons (.entered c) s)

/-- Bind a context to the running thread. If one is bound already, its binding is nested one
level deeper and nothing else is looked at. -/
def beginEnter (host : Host σ) (thread : Id .thread) (m : Store σ) (f : Id .factory)
    (requested : Option (Id .context)) (s : Stack σ .entered goal) : Config σ goal :=
  match m.current? thread with
  | some c =>
    give (m.modifyContext c fun cx => { cx with enterCount := cx.enterCount + 1 })
      .entered (.ok c) s
  | none =>
    match requested with
    | some c => beginBind thread m c s
    | none => beginMake host m f (.cons .bindMade s)

/-- Drop one level of the binding of the running thread; the last one releases the context and
tells its listeners. -/
def beginExit (thread : Id .thread) (m : Store σ) (s : Stack σ .left goal) : Config σ goal :=
  match m.current? thread with
  | none => give m .left (.error (.illegalState .exitWithoutEnter)) s
  | some c =>
    match (m.context c).release with
    | .error cause => give m .left (.error (.illegalState cause)) s
    | .ok (false, cx) => give (m.modifyContext c fun _ => cx) .left (.ok ()) s
    | .ok (true, cx) =>
      let m := m.modifyContext c fun _ => cx
      let m := { m with bindings := m.bindings.filter (·.1 != thread) }
      beginNotify m .released c (.cons .left s)

/-! ## Actions, results and panics -/

/-- Begin an action. -/
def beginAction (host : Host σ) (thread : Id .thread) (m : Store σ) :
    (a : Action) → Stack σ a.kind goal → Config σ goal
  | .call f site, s => ⟨m, .calling f site s⟩
  | .callOutermost f site isStrict, s => beginOutermost host m f site isStrict s
  | .execute e c scope, s =>
    if !e.routine.isScript then failCall m (.illegalState .scriptExpected) s
    else
      let site : CallSite := { context := c, scope, receiver := .object scope, args := [] }
      ⟨m, .calling (.executable e) site s⟩
  | .executeCapturing e c scope, s =>
    if !e.routine.isScript then failCall m (.invalidArgument .scriptRequired) s
    else beginCapturingCall e c scope [] s
  | .callCapturing e c scope args, s => beginCapturingCall e c scope args s
  | .resume k c scope v, s =>
    if (m.context c).topCall.isSome then failCall m (.illegalState .resumeDuringTopCall) s
    else
      let captured := m.continuations.get k
      if !captured.isResumable then failCall m (.illegalState .notResumable) s
      else beginCapturing host m (.continuation k v) c scope [] captured.isStrict s
  | .step via g op c scope v, s => beginResumption host m via g op c scope v s
  | .enter f requested, s => beginEnter host thread m f requested s
  | .exit, s => beginExit thread m s
  | .makeContext f, s => beginMake host m f s
where
  /-- Call a function and accept captures, unless there is a top call already. -/
  beginCapturingCall (e : Executable) (c : Id .context) (scope : Id .scope) (args : List Value)
      (s : Stack σ .completion goal) : Config σ goal :=
    if (m.context c).topCall.isSome then failCall m (.illegalState .captureEntryDuringTopCall) s
    else beginCapturing host m (.executable e) c scope args e.routine.isStrict s

/-- The end of the body of a generator, as a step. -/
def endBody (m : Store σ) (g : Generator) (e : Except Abrupt Exit) (s : Stack σ .step goal) :
    Config σ goal :=
  let modify (f : GeneratorState → GeneratorState) : Store σ :=
    { m with generators := m.generators.modify g.id f }
  match e with
  | .ok (.yielded v frame) =>
    give (modify fun state => { state with frame := some frame }) .step (.ok ⟨v, false⟩) s
  | .ok (.returned v) =>
    give (modify fun state => { state with finished := true }) .step (.ok ⟨v, true⟩) s
  | .error e =>
    give (modify fun state => { state with finished := true }) .step (.error e) s

/-- A task takes the result it waited for. -/
def take (host : Host σ) (thread : Id .thread) (m : Store σ) :
    {α β : Kind} → Task σ α β → α.Result → Stack σ β goal → Config σ goal
  | _, _, .program k, x, s => ⟨m, .running (k x) s⟩
  | _, _, .clearTopCall c, x, s =>
    give (m.modifyContext c fun cx => { cx with topCall := none }) .completion x s
  | _, _, .restoreCaptures c previous, x, s =>
    give (m.modifyContext c fun cx => { cx with acceptsCaptures := previous }) .completion
      x s
  | _, _, .flattenResult, .ok v, s =>
    let (v, m) := m.flattening v.flatten
    give m .completion (.ok v) s
  | _, _, .flattenResult, .error e, s => failCall m e s
  | _, _, .called a, .ok v, s => follow m a.context (a.deliver v) s
  | _, _, .called a, .error e, s =>
    let (flow, m) := a.fail e m
    follow m a.context flow s
  | _, _, .observed a, .ok (), s => ⟨m, .executing a s⟩
  | _, _, .observed a, .error reason, s =>
    follow m a.context (.leave (.error (.aborted reason))) s
  | _, _, .callEnd, .ok (.returned v), s => give m .completion (.ok v) s
  | _, _, .callEnd, .ok (.yielded _ _), s =>
    failCall m (.typeError "yield outside a generator") s
  | _, _, .callEnd, .error e, s => failCall m e s
  | _, _, .bodyEnd g, e, s => endBody m g e s
  | _, _, .recordStep r, .ok step, s =>
    give { m with
        resumptions := m.resumptions.modify r fun c => { c with done := some step.done } }
      .completion (.ok step.value) s
  | _, _, .recordStep _, .error e, s => failCall m e s
  | _, _, .reportStep r, .ok v, s =>
    give m .step (.ok ⟨v, (m.resumptions.get r).done.getD true⟩) s
  | _, _, .reportStep _, .error e, s => give m .step (.error e) s
  | _, _, .bindMade, c, s =>
    if (m.context c).boundTo.isSome then
      give m .entered (.error (.illegalState .madeBoundContext)) s
    else beginBind thread m c s
  | _, _, .notifying _ _ [], (), s => give m .done () s
  | _, _, .notifying event c (l :: rest), (), s =>
    ⟨m, .running (host.notify l event c) (.cons (.notifying event c rest) s)⟩
  | _, _, .entered c, (), s => give m .entered (.ok c) s
  | _, _, .left, (), s => give m .left (.ok ()) s
  | _, _, .bracketBody body, .ok c, s => ⟨m, .running (body c) (.cons .release s)⟩
  | _, _, .bracketBody _, .error f, s => give m .left (.error f) s
  | _, _, .release, (), s => beginExit thread m (.cons .released s)
  | _, _, .released, _, s => give m .left (.ok ()) s
  | _, _, .repanic, _, s => ⟨m, .panicking s⟩
  | _, _, .guarded, (), s => give m .guarded true s

/-- A panic passes a task. Guards put the bookkeeping back; a bracket drops its binding, which
may run listeners, and a panic in one of those is the end of everything. -/
def passPanic (thread : Id .thread) (m : Store σ) :
    {α β : Kind} → Task σ α β → Stack σ β goal → Config σ goal
  | _, _, .clearTopCall c, s =>
    ⟨m.modifyContext c fun cx => { cx with topCall := none }, .panicking s⟩
  | _, _, .restoreCaptures c previous, s =>
    ⟨m.modifyContext c fun cx => { cx with acceptsCaptures := previous }, .panicking s⟩
  | _, _, .called a, s | _, _, .observed a, s =>
    ⟨changeDepth m a.context (· - 1), .panicking s⟩
  | _, _, .release, s => beginExit thread m (.cons .repanic s)
  | _, _, .repanic, _ => ⟨m, .crashed⟩
  | _, _, .guarded, s => give m .guarded false s
  | _, _, _, s => ⟨m, .panicking s⟩

/-- One step of a host program. -/
def runProgram (host : Host σ) (thread : Id .thread) (m : Store σ) :
    {κ : Kind} → Program σ κ → Stack σ κ goal → Config σ goal
  | κ, .finish result, s => give m κ result s
  | _, .panic, s => ⟨m, .panicking s⟩
  | _, .ask q k, s =>
    let (reply, m) := q.perform host thread m
    ⟨m, .running (k reply) s⟩
  | _, .act a k, s => beginAction host thread m a (.cons (.program k) s)
  | _, .bracket f body k, s =>
    beginEnter host thread m f none (.cons (.bracketBody body) (.cons (.program k) s))
  | _, .guard body k, s => ⟨m, .running body (.cons .guarded (.cons (.program k) s))⟩

/-- Count an instruction, and call the observer when it is due. -/
def count (host : Host σ) (m : Store σ) (a : Activation) (s : Stack σ .exit goal) :
    Config σ goal :=
  let (due, cx) := (m.context a.context).countInstruction
  let m := m.modifyContext a.context fun _ => cx
  match due, (m.factoryOf a.context).policy with
  | some n, .custom p => ⟨m, .running (host.observe p a.context n) (.cons (.observed a) s)⟩
  | _, _ => ⟨m, .executing a s⟩

/-- One step. A configuration that has come to its end stays as it is. -/
def step (host : Host σ) (thread : Id .thread) (config : Config σ goal) : Config σ goal :=
  let m := config.store
  match config.state with
  | .running p s => runProgram host thread m p s
  | .calling f site s => beginCall host m f site s
  | .counting a s => count host m a s
  | .executing a s => execute m a s
  | .returning _ .nil => config
  | .returning x (.cons t s) => take host thread m t x s
  | .panicking .nil => config
  | .panicking (.cons t s) => passPanic thread m t s
  | .crashed => config

/-- A number of steps. -/
def run (host : Host σ) (thread : Id .thread) : Nat → Config σ goal → Config σ goal
  | 0, config => config
  | n + 1, config => run host thread n (config.step host thread)

/-- How the run ended, if it has. -/
def ending? (config : Config σ goal) : Option (Ending goal) := config.state.ending?

end Config

end ScriptMachine
