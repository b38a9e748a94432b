import ScriptMachine.Embedding.Callback
import ScriptMachine.Embedding.Request.Factories
import ScriptMachine.Embedding.Request.Frames
import ScriptMachine.Embedding.Request.Loaders
import ScriptMachine.Embedding.Request.Runs
import ScriptMachine.Embedding.Request.Scopes
import ScriptMachine.Embedding.Request.Trees
import ScriptMachine.Embedding.Request.Values
import ScriptMachine.Release

/-!
# Requests

A session takes one request after the other, each on a thread with a name, and answers each with
a record. A request that panics is answered too, and what it did stays done. Requests may be
nested in one that binds a context for them; each has a log of its own.
-/

namespace ScriptMachine.Embedding

/-- A request to a session. -/
inductive Request where
  | value (r : ValueRequest)
  | scope (r : ScopeRequest)
  | routine (r : RoutineRequest)
  | frame (r : FrameRequest)
  | tree (r : TreeRequest)
  | loader (r : LoaderRequest)
  | settings (r : SettingsRequest)
  | factory (r : FactoryRequest)
  | run (r : RunRequest)
  /-- What release of the library this is. -/
  | about
  /-- Carry out requests while a context of a factory is bound, and perhaps panic then. -/
  | within (factory : Option String) (keep : Option String) (requests : List Request)
      (panics : Bool)

instance : Inhabited Record := ⟨.mk none []⟩

namespace Record

/-- What came out; nothing if the request panicked. -/
def result : Record → Option (Except Failure (Answer Record))
  | mk result _ => result

/-- The lines that were logged. -/
def log : Record → List String
  | mk _ log => log

end Record

namespace Request

open Attempt

/-- Carry out a request under a guard, with a log of its own. -/
def recorded (body : Attempt (Answer Record)) : Code Record .done Record := do
  let outer ← Code.session
  Code.modifySession fun s => { s with log := [], answers := [] }
  let isFinished ← Script.guard do
    let result ← body.run
    Code.modifySession fun s => { s with answers := [.mk (some result) []] }
  let s ← Code.session
  Code.modifySession fun s => { s with log := outer.log, answers := outer.answers }
  let result := if isFinished then s.answers.head?.bind Record.result else none
  return .mk result s.log.reverse

mutual

/-- Carry out a request. -/
def perform : Request → Attempt (Answer Record)
  | value r => r.perform
  | scope r => r.perform
  | routine r => r.perform
  | frame r => r.perform
  | tree r => r.perform
  | loader r => r.perform
  | settings r => r.perform
  | factory r => r.perform
  | run r => r.perform
  | about => return .texts [Release.name, Release.version]
  | within f name requests panics => do
    let f ← Attempt.factory f
    let bound ← lift <| Script.bracket f fun c => do
      Code.modifySession fun s =>
        { s with contexts := match name with
            | some name => s.contexts.set name c
            | none => s.contexts }
      let records ← performAll requests
      let inside ← Code.viewContext c
      Code.modifySession fun s =>
        { s with answers := [.mk (some (.ok (.within inside records))) []] }
      if panics then Script.panic else return
    unlessFault bound
    match (← session).answers with
    | .mk (some (.ok answer)) _ :: _ => return answer
    | _ => return .nothing

/-- Carry out some requests, one after the other. -/
def performAll : List Request → Code Record .done (List Record)
  | [] => return []
  | r :: rest => do
    let record ← recorded (perform r)
    return record :: (← performAll rest)

end

end Request

namespace Session

/-- The thread that everything starts on. -/
def mainThread : String := "main"

/-- A session that knows nothing but its first thread. -/
def initial : Session Record := { threads := ⟨[(mainThread, ⟨0⟩)]⟩ }

instance : Inhabited (Store (Session Record)) := ⟨Store.initial initial⟩

/-- The thread with a name, which is new if there was none. -/
def thread (s : Session Record) (name : String) : Id .thread × Session Record :=
  match s.threads.get? name with
  | some id => (id, s)
  | none =>
    let id := ⟨s.threads.entries.length⟩
    (id, { s with threads := s.threads.set name id })

end Session

/-- A request that is being carried out on a thread. -/
structure Exchange where
  thread : Id .thread
  config : Config (Session Record) .done

namespace Exchange

/-- Begin a request on the thread with a name. -/
def start (m : Store (Session Record)) (thread : String) (r : Request) : Exchange :=
  let (thread, s) := m.host.thread thread
  let program := Script.toProgram do
    let record ← Request.recorded r.perform
    Code.modifySession fun s => { s with answers := [record] }
  { thread, config := Config.start { m with host := s } program }

/-- One step. -/
def step (e : Exchange) : Exchange :=
  { e with config := e.config.step (host Record) e.thread }

/-- The record and the store afterwards, once the request has been carried out. A crash leaves
no record of its own. -/
def ending? (e : Exchange) : Option (Record × Store (Session Record)) :=
  e.config.ending?.map fun ending =>
    let m := e.config.store
    let record := match ending with
      | .result () => m.host.answers.head?
      | .panicked | .crashed => none
    (record.getD default, { m with host := { m.host with answers := [] } })

end Exchange

end ScriptMachine.Embedding
