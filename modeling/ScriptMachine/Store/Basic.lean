import ScriptMachine.Context.Basic
import ScriptMachine.Loader.Basic
import ScriptMachine.Scope.Basic
import ScriptMachine.Store.Suspended

/-!
# The store

All state that is shared: scopes, flattened ropes, suspended computations, contexts, factories,
loaders, the bindings of threads to contexts, and a state of the host's own.
-/

namespace ScriptMachine

/-- The shared state, with a host state of type `σ`. -/
structure Store (σ : Type) where
  scopes : Scopes := {}
  texts : FlatTexts := {}
  generators : Table .generator GeneratorState := {}
  continuations : Table .continuation CaptureState := {}
  resumptions : Table .resumption Resumption := {}
  contexts : Table .context Context := {}
  factories : Table .factory Factory
  loaders : Loaders := {}
  /-- The context that each thread is bound to. -/
  bindings : List (Id .thread × Id .context) := []
  /-- How many identities without a state were given out. -/
  supply : Nat := 0
  host : σ

namespace Store

variable {σ : Type}

/-- The factory that is meant when none is named. -/
def globalFactory : Id .factory := ⟨0⟩

/-- A store with nothing in it but the global factory. -/
def initial (host : σ) : Store σ := { factories := ⟨#[{}]⟩, host }

/-- An identity that was not given out before. -/
def fresh (m : Store σ) (noun : Noun) : Id noun × Store σ :=
  (⟨m.supply⟩, { m with supply := m.supply + 1 })

/-- Carry out a computation on ropes. -/
def flattening {α : Type} (m : Store σ) (c : Flattening α) : α × Store σ :=
  let (a, texts) := c m.texts
  (a, { m with texts })

/-- The state of a context. -/
def context (m : Store σ) (c : Id .context) : Context := m.contexts.get c

/-- Change the state of a context. -/
def modifyContext (m : Store σ) (c : Id .context) (f : Context → Context) : Store σ :=
  { m with contexts := m.contexts.modify c f }

/-- The factory of a context. -/
def factoryOf (m : Store σ) (c : Id .context) : Factory := m.factories.get (m.context c).factory

/-- The context that a thread is bound to. -/
def current? (m : Store σ) (thread : Id .thread) : Option (Id .context) :=
  m.bindings.lookup thread

/-- A new context of a factory. -/
def newContext (m : Store σ) (factory : Id .factory) : Id .context × Store σ :=
  let (c, contexts) := m.contexts.insert { factory }
  (c, { m with contexts })

/-- A new context of a factory, configured by a plan. -/
def plannedContext (m : Store σ) (factory : Id .factory) (plan : ContextPlan) :
    Id .context × Store σ :=
  let context : Context := { factory }
  let context := { context with
    version := plan.version, countsGenerated := plan.context.countsGenerated }
  let context := (context.setThreshold plan.context.observerThreshold).setFrameLimit
    plan.context.frameLimit.toNat
  let (c, contexts) := m.contexts.insert context
  (c, { m with contexts })

/-- Move the frames of a captured continuation out. -/
def takeFrames (m : Store σ) (k : Id .continuation) :
    Except IllegalState (List Frame × Store σ) :=
  match m.continuations.get k with
  | .captured frames => .ok (frames, { m with continuations := m.continuations.set k .resumed })
  | .pending => .error .neverCaptured
  | .resumed => .error .alreadyResumed

/-- Ask for a continuation of the code that a context is running. -/
def requestCapture (m : Store σ) (c : Id .context) : Except IllegalState (Pending × Store σ) :=
  let cx := m.context c
  if cx.depth = 0 then .error .notRunning
  else if !cx.acceptsCaptures then .error .captureNotEnabled
  else if 1 < cx.depth then .error .captureAcrossHostFrame
  else
    let (k, continuations) := m.continuations.insert .pending
    .ok ({ continuation := k }, { m with continuations })

/-- A new generator that holds a frame. -/
def newGenerator (m : Store σ) (frame : Frame) : Generator × Store σ :=
  let (id, generators) := m.generators.insert { frame := some frame }
  ({ id, body := frame.body }, { m with generators })

end Store

end ScriptMachine
