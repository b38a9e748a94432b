import ScriptMachine.Machine.Activation

/-!
# Queries

What host code can ask of the store without running any code: look at things, make new ones and
change them in the ways that the library offers. Queries come in families by what they touch,
and each has a type of replies.
-/

namespace ScriptMachine

/-- Queries about scopes. -/
inductive ScopeQuery where
  | create (parent : Option (Id .scope))
  | state (s : Id .scope)
  | find (s : Id .scope) (name : String)
  | has (s : Id .scope) (name : String)
  | put (s : Id .scope) (name : String) (v : Value)
  | define (s : Id .scope) (name : String) (v : Value)
  | delete (s : Id .scope) (name : String)

namespace ScopeQuery

/-- The type of the reply. -/
abbrev Reply : ScopeQuery → Type
  | create _ => Id .scope
  | state _ => Scope
  | find _ _ | delete _ _ => Option Value
  | has _ _ => Bool
  | put _ _ _ | define _ _ _ => Unit

/-- The reply, and the scopes afterwards. -/
def perform (t : Scopes) : (q : ScopeQuery) → q.Reply × Scopes
  | create parent => t.create parent
  | state s => (t.get s, t)
  | find s name => (t.find? s name, t)
  | has s name => (t.has s name, t)
  | put s name v => ((), t.put s name v)
  | define s name v => ((), t.define s name v)
  | delete s name => t.delete s name

end ScopeQuery

/-- Queries about values. -/
inductive ValueQuery where
  | display (v : Value)
  | number (v : Value)
  | add (v w : Value)
  | concat (v w : Value)
  | strictEquals (v w : Value)
  | equals (v w : Value)
  | flatten (v : Value)
  /-- Whether the text of a rope is remembered. -/
  | isFlattened (r : Rope)
  /-- The wording of an abrupt end. -/
  | message (e : Abrupt)

namespace ValueQuery

/-- The type of the reply. -/
abbrev Reply : ValueQuery → Type
  | display _ | message _ => String
  | number _ => Float
  | add _ _ | concat _ _ | flatten _ => Value
  | strictEquals _ _ | equals _ _ | isFlattened _ => Bool

/-- The reply, as a computation on ropes. -/
def perform : (q : ValueQuery) → Flattening q.Reply
  | display v => v.display
  | number v => v.toNumber
  | add v w => v.add w
  | concat v w => v.concat w
  | strictEquals v w => v.strictEquals w
  | equals v w => v.equals w
  | flatten v => v.flatten
  | isFlattened r => return (r.flattened? (← get)).isSome
  | message e => e.message

end ValueQuery

/-- Queries about contexts. -/
inductive ContextQuery where
  | create (factory : Id .factory)
  | state (c : Id .context)
  /-- The context that the running thread is bound to. -/
  | current
  | setVersion (c : Id .context) (version : LanguageVersion)
  | setThreshold (c : Id .context) (threshold : UInt32)
  | setFrameLimit (c : Id .context) (limit : Nat)
  | setCountsGenerated (c : Id .context) (counts : Bool)
  | setController (c : Id .context) (controller : Id .controller)
  | setExtension (c : Id .context) (extension : Payload)
  | hasFeature (c : Id .context) (f : Feature)
  | requestCapture (c : Id .context)

/-- The type of the reply. -/
abbrev ContextQuery.Reply : ContextQuery → Type
  | create _ => Id .context
  | state _ => Context
  | current => Option (Id .context)
  | setVersion _ _ | setThreshold _ _ | setFrameLimit _ _ | setCountsGenerated _ _
  | setExtension _ _ => Unit
  | setController _ _ => Except Fault Unit
  | hasFeature _ _ => Bool
  | requestCapture _ => Except Fault Pending

/-- Queries about factories. -/
inductive FactoryQuery where
  | create (policy : Policy)
  | state (f : Id .factory)
  | addListener (f : Id .factory) (l : Id .listener)
  | removeListener (f : Id .factory) (l : Id .listener)
  | disableListening (f : Id .factory)
  | close (f : Id .factory)

namespace FactoryQuery

/-- The type of the reply. -/
abbrev Reply : FactoryQuery → Type
  | create _ => Id .factory
  | state _ => Factory
  | addListener _ _ | removeListener _ _ | disableListening _ | close _ => Except Fault Unit

/-- Put a changed factory in place, unless the change was refused. -/
def update (t : Table .factory Factory) (f : Id .factory)
    (change : Factory → Except IllegalState Factory) :
    Except Fault Unit × Table .factory Factory :=
  match change (t.get f) with
  | .ok factory => (.ok (), t.set f factory)
  | .error cause => (.error (.illegalState cause), t)

/-- The reply, and the factories afterwards. -/
def perform (t : Table .factory Factory) : (q : FactoryQuery) → q.Reply × Table .factory Factory
  | create policy => t.insert { policy }
  | state f => (t.get f, t)
  | addListener f l => update t f (·.addListener l)
  | removeListener f l => update t f (·.removeListener l)
  | disableListening f => update t f (·.disableListening)
  | close f => update t f (·.close)

end FactoryQuery

/-- Queries about code. -/
inductive CodeQuery where
  /-- Share a routine, so that executables can be made from it. -/
  | share (r : Routine)
  /-- Make an executable for the current context. -/
  | create (kind : RoutineKind) (r : SharedRoutine) (domain : Option Payload)
  /-- Make a function from a nested routine. -/
  | nested (e : Executable) (index : Nat)

/-- The type of the reply. -/
abbrev CodeQuery.Reply : CodeQuery → Type
  | share _ => SharedRoutine
  | create _ _ _ | nested _ _ => Except Fault Executable

/-- Queries about loaders. -/
inductive LoaderQuery where
  | create (parent : Option (Id .loader))
  | state (l : Id .loader)
  | find (l : Id .loader) (name : String)
  | define (l : Id .loader) (name : String) (payload : List UInt8)

namespace LoaderQuery

/-- The type of the reply. -/
abbrev Reply : LoaderQuery → Type
  | create _ => Id .loader
  | state _ => Loader
  | find _ _ => Option GeneratedUnit
  | define _ _ _ => Except Fault GeneratedUnit

/-- The reply, and the loaders afterwards. -/
def perform (t : Loaders) : (q : LoaderQuery) → q.Reply × Loaders
  | create parent => t.create parent
  | state l => (t.get l, t)
  | find l name => (t.find? l name, t)
  | define l name payload =>
    match t.define l name payload with
    | .ok (unit, t) => (.ok unit, t)
    | .error e => (.error e, t)

end LoaderQuery

/-- A question to the store of a host with state `σ`. -/
inductive Query (σ : Type) where
  | scope (q : ScopeQuery)
  | value (q : ValueQuery)
  | context (q : ContextQuery)
  | factory (q : FactoryQuery)
  | code (q : CodeQuery)
  | loader (q : LoaderQuery)
  | generator (g : Generator)
  | continuation (k : Id .continuation)
  /-- What a developer sees of a value. -/
  | inspect (v : Value)
  | newHostFunction (name : String)
  | newPolicy
  | newListener
  | newController
  | newTree
  | host
  | setHost (s : σ)

/-- The type of the reply. -/
abbrev Query.Reply {σ : Type} : Query σ → Type
  | scope q => q.Reply
  | value q => q.Reply
  | context q => q.Reply
  | factory q => q.Reply
  | code q => q.Reply
  | loader q => q.Reply
  | generator _ => GeneratorState
  | continuation _ => CaptureState
  | inspect _ => String
  | newHostFunction _ => HostFunction
  | newPolicy => Id .policy
  | newListener => Id .listener
  | newController => Id .controller
  | newTree => Id .tree
  | host => σ
  | setHost _ => Unit

end ScriptMachine
