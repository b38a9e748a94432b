import ScriptMachine.Machine.Step
import ScriptMachine.Tree.Basic

/-!
# Sessions

A session is an embedder that knows things by names. It keeps a table of names for each sort of
thing, a log, and the code that its host functions, policies, listeners and controllers stand
for. The code is given as data here and gets its meaning in the modules that follow.
-/

namespace ScriptMachine.Embedding

/-- Things by name, in ascending order of names. -/
structure Names (α : Type) where
  entries : List (String × α) := []

namespace Names

variable {α : Type}

/-- The thing with a name. -/
def get? (names : Names α) (name : String) : Option α := names.entries.lookup name

/-- Give a name to a thing, taking it away from another one. -/
def set (names : Names α) (name : String) (a : α) : Names α :=
  ⟨insert names.entries⟩
where
  /-- Put the thing where its name belongs. -/
  insert : List (String × α) → List (String × α)
    | [] => [(name, a)]
    | e :: rest =>
      if name < e.1 then (name, a) :: e :: rest
      else if e.1 == name then (name, a) :: rest
      else e :: insert rest

/-- The first name of a thing with a property. -/
def nameOf? (names : Names α) (p : α → Bool) : Option String :=
  (names.entries.find? (p ·.2)).map (·.1)

end Names

/-- A value that is spelled out and looked up when it is needed. -/
inductive ValueSpec where
  | value (v : Value)
  | concat (left right : ValueSpec)
  | named (name : String)
  | object (scope : String)
  | executable (name : String)

/-- How a script is run by a host function. -/
inductive EntryMode where
  | execute
  | executeCapturing
  | callCapturing

/-- What a host function does. -/
inductive Behavior where
  /-- Return a value, or the first argument. -/
  | ret (v : Option ValueSpec)
  /-- Throw a value, or the first argument. -/
  | throw (v : Option ValueSpec)
  | this
  | argc
  | sum
  | typeName
  | log
  /-- Call the first argument with the second as receiver and the others as arguments. -/
  | apply
  /-- The same in a new scope below that of the call. -/
  | applyChild
  /-- The same, and return a text for what was thrown. -/
  | guard
  /-- The same as the outermost call. -/
  | topCall (isStrict : Bool)
  | enterScript (name : String) (mode : EntryMode)
  | createExecutable (r : Except BuildError Routine)
  /-- Capture the running computation and leave with it. -/
  | suspend (state : Option String)
  /-- Capture the running computation and give the capture a name. -/
  | capture (name : String)
  /-- Leave with a capture that has a name. -/
  | raise (name : String)
  /-- Resume a capture that has a name with the first argument. -/
  | resume (name : String)
  /-- Resume the generator that is the first argument with the second. -/
  | resumeGenerator (op : GeneratorOp)
  /-- Resume a generator that has a name with the first argument. -/
  | resumeNamed (name : String) (op : GeneratorOp)
  /-- A text about the bookkeeping of the context. -/
  | probe
  | abort (reason : String)
  | fault (f : Fault)
  | newObject
  | getProperty
  | setProperty
  | deleteProperty
  | scopeOfCall
  | setFrameLimit (limit : Nat)
  | setThreshold (threshold : UInt32)
  | exitContext
  /-- Enter a context of a factory, or of the global one. -/
  | enterContext (factory : Option String)
  | panic

/-- How a recording policy performs the outermost call. -/
inductive Wrapping where
  /-- Call, and make a string flat. -/
  | standard
  | raw
  /-- Do not call at all. -/
  | constant
  | twice
  deriving DecidableEq

/-- A policy that writes into the log. -/
structure RecordingPolicy where
  threshold : Option UInt32 := none
  frameLimit : Option Nat := none
  /-- The name of a context to answer in place of a new one. -/
  make : Option String := none
  features : List (String × Bool) := []
  quiet : Bool := false
  wrapping : Wrapping := .standard
  logObserve : Bool := false
  /-- The observer aborts from this call on. -/
  abortAfter : Option Nat := none
  reason : String := "budget exhausted"
  /-- How often the observer was called. -/
  observed : Nat := 0

/-- What a listener does after it wrote into the log. -/
inductive ListenerAction where
  | add (listener : String)
  | remove (listener : String)
  | close
  | disable
  | enter
  deriving DecidableEq

/-- A listener: its name, and its actions for the two events. -/
structure ListenerScript where
  name : String
  created : List ListenerAction := []
  released : List ListenerAction := []

/-- How a controller answers a static domain. -/
inductive ControllerMode where
  /-- A domain that tells the static one. -/
  | tag
  /-- The static domain. -/
  | pass
  /-- No domain. -/
  | deny
  deriving DecidableEq

/-- A loader, and whether a factory made it. -/
structure LoaderHandle where
  id : Id .loader
  ofFactory : Bool

/-- An embedder that knows things by names. Its own code may collect answers of type `ω`. -/
structure Session (ω : Type) where
  factories : Names (Id .factory) := {}
  contexts : Names (Id .context) := {}
  scopes : Names (Id .scope) := {}
  executables : Names Executable := {}
  values : Names Value := {}
  pendings : Names Pending := {}
  listeners : Names (Id .listener) := {}
  frames : Names Frame := {}
  trees : Names SourceTree := {}
  loaders : Names LoaderHandle := {}
  settings : Names Settings := {}
  routines : Names SharedRoutine := {}
  threads : Names (Id .thread) := {}
  behaviors : List (Id .hostFunction × String × Behavior) := []
  policies : List (Id .policy × RecordingPolicy) := []
  listenerScripts : List (Id .listener × ListenerScript) := []
  controllers : List (Id .controller × ControllerMode) := []
  /-- The log, last line first. -/
  log : List String := []
  /-- What was collected, last first. -/
  answers : List ω := []

/-- A name that the session does not know. -/
structure Missing where
  sort : String
  name : String
  deriving DecidableEq

namespace Session

variable {ω : Type} {κ : Kind}

/-- Write a line into the log. -/
def say (line : String) (s : Session ω) : Session ω := { s with log := line :: s.log }

/-- The name of a thread. -/
def threadName (s : Session ω) (thread : Option (Id .thread)) : String :=
  (thread.bind fun id => s.threads.nameOf? (· == id)).getD "none"

/-- Change a recording policy. -/
def modifyPolicy (s : Session ω) (p : Id .policy) (f : RecordingPolicy → RecordingPolicy) :
    Session ω :=
  { s with policies := s.policies.map fun e => if e.1 == p then (e.1, f e.2) else e }

end Session

/-- Code of a session in sequence. -/
abbrev Code (ω : Type) (κ : Kind) : Type → Type := Script (Session ω) κ

namespace Code

variable {ω : Type} {κ : Kind}

/-- The session. -/
def session : Code ω κ (Session ω) := Script.ask .host

/-- Change the session. -/
def modifySession (f : Session ω → Session ω) : Code ω κ Unit := do
  let s ← session
  Script.ask (.setHost (f s))

/-- Write a line into the log. -/
def say (line : String) : Code ω κ Unit := modifySession (·.say line)

/-- The text of a value. -/
def display (v : Value) : Code ω κ String := Script.ask (.value (.display v))

/-- The texts of some values. -/
def displayAll (vs : List Value) : Code ω κ (List String) := vs.mapM display

/-- The state of a context. -/
def context (c : Id .context) : Code ω κ Context := Script.ask (.context (.state c))

/-- A thing with a name of the session. -/
def lookup {α : Type} (sort : String) (names : Session ω → Names α) (name : String) :
    Code ω κ (Except Missing α) := do
  let s ← session
  return match (names s).get? name with
    | some a => .ok a
    | none => .error ⟨sort, name⟩

/-- The factory with a name, or the global one. -/
def factory : Option String → Code ω κ (Except Missing (Id .factory))
  | some name => lookup "factory" Session.factories name
  | none => return .ok Store.globalFactory

/-- The value that is spelled out. -/
def evaluate : ValueSpec → Code ω κ (Except Missing Value)
  | .value v => return .ok v
  | .concat left right => do
    match ← evaluate left with
    | .error e => return .error e
    | .ok v =>
      match ← evaluate right with
      | .error e => return .error e
      | .ok w => return .ok (← Script.ask (.value (.concat v w)))
  | .named name => lookup "value" Session.values name
  | .object scope => do return (← lookup "scope" Session.scopes scope).map .object
  | .executable name => do return (← lookup "unit" Session.executables name).map .executable

end Code

end ScriptMachine.Embedding
