import ScriptMachine.Embedding.Request.Configuration

/-!
# Requests about factories and contexts
-/

namespace ScriptMachine.Embedding

/-- The policy of a new factory. -/
inductive PolicySource where
  | standard
  | settings (name : String)
  | recording (p : RecordingPolicy)

/-- Something to do with a factory. -/
inductive FactoryAction where
  | addListener (listener : String)
  | removeListener (listener : String)
  | disable
  | close
  | report
  /-- Have the factory make a context, as its policy does. -/
  | make (keep : Option String)
  /-- Make a plain context of the factory. -/
  | create (keep : Option String)

/-- Something to do with a context. -/
inductive ContextAction where
  | same (other : String)
  | report
  /-- Change what is given; a wrong version is an error and stops. -/
  | change (version : Option Int) (threshold : Option UInt32) (frameLimit : Option Nat)
      (countsGenerated : Option Bool)
  | setController (mode : ControllerMode)
  | hasFeatureIndex (index : Nat)
  | hasFeatureName (name : String)
  | features
  | extend (extension : Payload)
  | extension
  | capture (keep : Option String)
  | inspect

/-- A request about factories and contexts. Without a name the global factory and the context
of the running thread are meant. -/
inductive FactoryRequest where
  | create (policy : PolicySource) (keep : Option String)
  | listener (script : ListenerScript)
  | act (factory : Option String) (a : FactoryAction)
  /-- How often the observer of the policy of a factory was called. -/
  | observed (factory : String)
  | enter (factory context keep : Option String)
  | exit
  | current
  | onContext (context : Option String) (a : ContextAction)
  | version (n : Int)
  | featureIndex (index : Nat)
  | featureName (name : String)

namespace FactoryRequest

open Attempt

/-- Ask a query about a context. -/
def query (q : ContextQuery) : Attempt q.Reply := ask (.context q)

/-- The policy of a new factory. -/
def policy : PolicySource → Attempt Policy
  | .standard => return .standard
  | .settings name => do
    let s ← find "config" Session.settings name
    return .planned (← SettingsRequest.unlessWrong (ContextPlan.ofSettings s))
  | .recording p => do
    let id ← ask .newPolicy
    modifySession fun s => { s with policies := (id, p) :: s.policies }
    return .custom id

/-- The listener with a name. -/
def registered (name : String) : Attempt (Id .listener) := find "listener" Session.listeners name

/-- Keep a context and show it. -/
def give (name : Option String) (c : Id .context) : Attempt (Answer Record) := do
  keep (fun f s => { s with contexts := f s.contexts }) name c
  return .context (some (← lift (Code.viewContext c)))

/-- The recording policy of the factory with a name. -/
def recordingOf (name : String) : Attempt RecordingPolicy := do
  let s ← session
  let policy ← match s.factories.get? name with
    | some f => pure (← ask (.factory (.state f))).policy
    | none => pure .standard
  match policy with
  | .custom p =>
    match s.policies.lookup p with
    | some recording => return recording
    | none => throw (.missing ⟨"policy", name⟩)
  | .standard | .planned _ => throw (.missing ⟨"policy", name⟩)

/-- Do something with a factory. -/
def carryOut (f : Id .factory) : FactoryAction → Attempt (Answer Record)
  | .addListener name => do
    let l ← registered name
    unlessFault (← ask (.factory (.addListener f l)))
    return .integer (← ask (.factory (.state f))).listeners.length
  | .removeListener name => do
    let l ← registered name
    unlessFault (← ask (.factory (.removeListener f l)))
    return .integer (← ask (.factory (.state f))).listeners.length
  | .disable => do
    unlessFault (← ask (.factory (.disableListening f)))
    return .nothing
  | .close => do
    unlessFault (← ask (.factory (.close f)))
    return .nothing
  | .report => do
    let factory ← ask (.factory (.state f))
    return .factory { factory, isGlobal := f == Store.globalFactory }
  | .make keep => do give keep (← Attempt.act (.makeContext f))
  | .create keep => do give keep (← query (.create f))

/-- What stands for an identity in a text about a context. -/
def masked : String := "N"

/-- Do something with a context. -/
def carryOutOn (c : Id .context) : ContextAction → Attempt (Answer Record)
  | .same other => do return .flag (c == (← find "context" Session.contexts other))
  | .report => do
    let who ← lift (Code.viewContext c)
    return .contextReport { who, context := ← query (.state c) }
  | .change number threshold limit counts => do
    if let some n := number then
      query (.setVersion c (← unlessFault (LanguageVersion.ofInt n)))
    if let some threshold := threshold then query (.setThreshold c threshold)
    if let some limit := limit then query (.setFrameLimit c limit)
    if let some counts := counts then query (.setCountsGenerated c counts)
    return .nothing
  | .setController mode => do
    let id ← ask .newController
    modifySession fun s => { s with controllers := (id, mode) :: s.controllers }
    unlessFault (← query (.setController c id))
    return .nothing
  | .hasFeatureIndex index =>
    match Feature.ofIndex? index with
    | some f => do return .flag (← query (.hasFeature c f))
    | none => throw (.fault (.invalidArgument (.unknownFeature index)))
  | .hasFeatureName name =>
    match Feature.ofName? name with
    | some f => do return .optionalFlag (some (← query (.hasFeature c f)))
    | none => return .optionalFlag none
  | .features => do
    return .features (← Feature.all.mapM fun f => do return (f, ← query (.hasFeature c f)))
  | .extend extension => do
    query (.setExtension c extension)
    return .nothing
  | .extension => do return .extension (← query (.state c)).extension
  | .capture keep => do
    let p ← unlessFault (← query (.requestCapture c))
    let shown ← lift (Code.viewPending p)
    keepPending keep p
    return .pending shown
  | .inspect => do return .text ((← query (.state c)).inspect masked fun _ => masked)

/-- Carry out the request. -/
def perform : FactoryRequest → Attempt (Answer Record)
  | create source keep => do
    SettingsRequest.giveFactory keep (← policy source)
    return .nothing
  | listener script => do
    let id ← ask .newListener
    modifySession fun s =>
      { s with
        listeners := s.listeners.set script.name id
        listenerScripts := (id, script) :: s.listenerScripts }
    return .nothing
  | act f a => do carryOut (← factory f) a
  | observed name => do return .integer (← recordingOf name).observed
  | enter f c keep => do
    let f ← factory f
    let c ← c.mapM (find "context" Session.contexts)
    give keep (← unlessFault (← Attempt.act (.enter f c)))
  | exit => do
    unlessFault (← Attempt.act .exit)
    return .nothing
  | current => do
    match ← query .current with
    | some c => return .context (some (← lift (Code.viewContext c)))
    | none => return .context none
  | onContext c a => do carryOutOn (← context c) a
  | version n => do return .integer (← unlessFault (LanguageVersion.ofInt n)).toInt
  | featureIndex index => return .feature (Feature.ofIndex? index)
  | featureName name => return .feature (Feature.ofName? name)

end FactoryRequest

end ScriptMachine.Embedding
