import ScriptMachine.Embedding.Behavior

/-!
# The host of a session

Policies, listeners and controllers of a session, and with them the host that gives meaning to
all identities the session gave out. An identity that it did not give out behaves like the
library's own default.
-/

namespace ScriptMachine.Embedding

variable {ω : Type}

namespace RecordingPolicy

/-- Make a context: the named one, or a new one with the limits of the policy. -/
def makeContext (p : RecordingPolicy) (factory : Id .factory) : Code ω .made (Id .context) := do
  Code.say "make_context"
  let s ← Code.session
  match p.make.bind s.contexts.get? with
  | some c => return c
  | none =>
    let c ← Script.ask (.context (.create factory))
    if let some threshold := p.threshold then
      Script.ask (.context (.setThreshold c threshold))
    if let some limit := p.frameLimit then
      Script.ask (.context (.setFrameLimit c limit))
    return c

/-- Perform the call itself. -/
def wrapped (p : RecordingPolicy) (f : Callable) (site : CallSite) : Code ω .completion Outcome :=
  let flat (outcome : Outcome) : Code ω .completion Outcome :=
    match outcome with
    | .ok v => do return .ok (← Script.ask (.value (.flatten v)))
    | .error e => return .error e
  match p.wrapping with
  | .raw => Script.act (.call f site)
  | .standard => do flat (← Script.act (.call f site))
  | .constant => return .ok (.text "constant")
  | .twice => do
    match ← Script.act (.call f site) with
    | .ok _ => flat (← Script.act (.call f site))
    | .error e => return .error e

/-- Perform the outermost call of a context. -/
def outermost (p : RecordingPolicy) (f : Callable) (site : CallSite) :
    Code ω .completion Outcome := do
  if p.quiet then p.wrapped f site
  else
    let this ← Code.display site.receiver
    Code.say ("top_call begin this=" ++ this ++ s!" argc={site.args.length}")
    let outcome ← p.wrapped f site
    Code.say s!"top_call end ok={outcome.toBool}"
    return outcome

/-- Observe that instructions were counted. -/
def observe (p : RecordingPolicy) (id : Id .policy) (count : UInt32) :
    Code ω .verdict (Except String Unit) := do
  let calls := p.observed + 1
  Code.modifySession (·.modifyPolicy id fun p => { p with observed := calls })
  if p.logObserve then Code.say s!"observe {count}"
  return if p.abortAfter.any (· ≤ calls) then .error p.reason else .ok ()

/-- Answer for a feature. -/
def hasFeature (p : RecordingPolicy) (f : Feature) : Bool :=
  (p.features.lookup f.name).getD f.enabledByDefault

end RecordingPolicy

/-- The word for an action in the log. -/
def ListenerAction.word : ListenerAction → String
  | .add _ => "add"
  | .remove _ => "remove"
  | .close => "seal"
  | .disable => "disable"
  | .enter => "enter"

/-- Perform an action on the factory of a context. -/
def ListenerAction.perform (factory : Id .factory) :
    ListenerAction → Code ω .done (Except Fault Unit)
  | .add name => do
    match ← Code.lookup "listener" Session.listeners name with
    | .ok l => Script.ask (.factory (.addListener factory l))
    | .error _ => return .ok ()
  | .remove name => do
    match ← Code.lookup "listener" Session.listeners name with
    | .ok l => Script.ask (.factory (.removeListener factory l))
    | .error _ => return .ok ()
  | .close => Script.ask (.factory (.close factory))
  | .disable => Script.ask (.factory (.disableListening factory))
  | .enter => do return (← Script.act (.enter factory none)).map fun _ => ()

/-- What a listener does when it is told about an event. -/
def ListenerScript.run (l : ListenerScript) (event : ContextEvent) (c : Id .context) :
    Code ω .done Unit := do
  let cx ← Code.context c
  let s ← Code.session
  let (word, actions) := match event with
    | .created => ("created", l.created)
    | .released => ("released", l.released)
  Code.say (l.name ++ " " ++ word ++ s!" count={cx.enterCount} bound=" ++ s.threadName cx.boundTo)
  actions.forM fun action => do
    match ← action.perform cx.factory with
    | .ok () => return
    | .error e => Code.say (l.name ++ " " ++ action.word ++ " failed: " ++ e.message)

/-- The domain that a controller answers. -/
def ControllerMode.resolve (mode : ControllerMode) (domain : Option Payload) : Option Payload :=
  match mode with
  | .tag => some (.text ("dynamic:" ++ textOrNone (domain.bind Payload.text?)))
  | .pass => domain
  | .deny => none

/-- The host of sessions. -/
def host (ω : Type) : Host (Session ω) where
  run f site := Script.toProgram do
    let s ← Code.session
    match s.behaviors.lookup f with
    | some (name, behavior) => behavior.run name site
    | none => return .ok .undefined
  makeContext p factory := Script.toProgram do
    let s ← Code.session
    match s.policies.lookup p with
    | some policy => policy.makeContext factory
    | none => Script.ask (.context (.create factory))
  outermost p f site := Script.toProgram do
    let s ← Code.session
    match s.policies.lookup p with
    | some policy => policy.outermost f site
    | none => Script.act (.call f site)
  observe p _ count := Script.toProgram do
    let s ← Code.session
    match s.policies.lookup p with
    | some policy => policy.observe p count
    | none => return .ok ()
  hasFeature p _ f s :=
    match s.policies.lookup p with
    | some policy => policy.hasFeature f
    | none => f.enabledByDefault
  notify l event c := Script.toProgram do
    let s ← Code.session
    match s.listenerScripts.lookup l with
    | some script => script.run event c
    | none => return
  resolve controller domain s :=
    match s.controllers.lookup controller with
    | some mode =>
      (mode.resolve domain, s.say ("resolve " ++ textOrNone (domain.bind Payload.text?)))
    | none => (domain, s)

end ScriptMachine.Embedding
