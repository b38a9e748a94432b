import ScriptMachine.Embedding.View
import ScriptMachine.Settings.Document
import ScriptMachine.Tree.Compile
import ScriptMachine.Tree.Walk

/-!
# Answers

What a session answers to a request: a view of what came out, or the reason why nothing did.
-/

namespace ScriptMachine.Embedding

/-- The abrupt end of code that was run. -/
inductive AbruptView where
  | thrown (v : ValueView)
  | suspended (p : PendingView)
  | aborted (reason : String)
  | fault (f : Fault)

/-- Why a request has no result. -/
inductive Failure where
  | missing (e : Missing)
  /-- The thread that the request runs on is bound to no context. -/
  | noContext
  /-- The request names something of another sort than it needs. -/
  | unsuitable
  | fault (f : Fault)
  /-- A tree was compiled, but the script could not be made. -/
  | uncreated (f : Fault)
  | compile (e : CompileError)
  | settings (e : SettingsError)
  /-- Code that was run ended abruptly. -/
  | abrupt (message : String) (e : AbruptView)

/-- What there is to know about a value. -/
structure ValueReport where
  typeName : String
  text : String
  truthy : Bool
  toNumber : Float
  number? : Option Float
  isString : Bool
  isUndefined : Bool
  isCallable : Bool
  /-- For a concatenation: its length, whether it is empty, and whether it was flat before. -/
  join : Option (UInt64 × Bool × Bool)

/-- What there is to know about a scope. -/
structure ScopeReport where
  bindings : List (String × ValueView)
  parent : Option String

/-- What an operation on a frame gives. -/
inductive FrameResult where
  | nothing
  | instruction (i : Option Instruction)
  | value (v : ValueView)
  | values (vs : List ValueView)
  | normal
  | throw (v : ValueView)
  | return (v : ValueView)
  /-- The frame goes on at a handler. -/
  | routed
  /-- No handler takes the value. -/
  | back (v : ValueView)

/-- What there is to know about a frame. -/
structure FrameReport where
  position : Nat
  height : Nat
  top : Option ValueView
  handlers : Nat
  cleanups : Nat
  receiver : ValueView

/-- What there is to know about a factory. -/
structure FactoryReport where
  factory : Factory
  isGlobal : Bool

/-- What there is to know about a context. -/
structure ContextReport where
  who : ContextView
  context : Context

/-- What a session answers. Requests inside a request are answered by records of type `ρ`. -/
inductive Answer (ρ : Type) where
  | nothing
  | flag (b : Bool)
  | optionalFlag (b : Option Bool)
  | integer (n : Int)
  | text (s : String)
  | texts (ss : List String)
  | value (v : ValueView)
  | found (v : Option ValueView)
  | equality (strict loose : Bool)
  | valueReport (r : ValueReport)
  | chain (byteLength : Nat) (head : String) (ropeLength : Option UInt64)
  | membership (has own : Bool)
  | scope (r : ScopeReport)
  | routine (r : Routine)
  | outline (r : Routine)
  | executable (e : Executable)
  | slot (name : Option String) (isConst : Option Bool)
  | frame (result : FrameResult) (r : FrameReport)
  | tree (t : SourceTree)
  | comments (c : CommentsView)
  | sights (seen : List Sight)
  | treeCopy (sameId sameStatements : Bool) (t : SourceTree)
  | generatedUnit (u : Option GeneratedUnit)
  | loader (l : Loader) (ofFactory : Bool)
  | settings (s : Settings)
  | unreadFile (e : Settings.FileError)
  | factoryMade
  | overrides (features : List (Feature × Bool))
  | factory (r : FactoryReport)
  | within (inside : ContextView) (records : List ρ)
  | context (c : Option ContextView)
  | contextReport (r : ContextReport)
  | features (features : List (Feature × Bool))
  | feature (f : Option Feature)
  | extension (e : Option Payload)
  | pending (p : PendingView)
  | exchange (sameBefore : Bool) (p : PendingView)
  | step (value : ValueView) (done finished running : Bool)
  | generator (g : Generator) (state : GeneratorState)

/-- The answer to a request, and the lines that were logged meanwhile. -/
inductive Record where
  | mk (result : Option (Except Failure (Answer Record))) (log : List String)

/-- Code of a session that carries out a request. -/
abbrev Attempt : Type → Type := ExceptT Failure (Code Record .done)

namespace Attempt

/-- Code of the session as a part of an attempt. -/
def lift {α : Type} (c : Code Record .done α) : Attempt α := ExceptT.lift c

/-- The session. -/
def session : Attempt (Session Record) := lift Code.session

/-- Change the session. -/
def modifySession (f : Session Record → Session Record) : Attempt Unit :=
  lift (Code.modifySession f)

/-- Ask a query. -/
def ask (q : Query (Session Record)) : Attempt q.Reply := lift (Script.ask q)

/-- Perform an action. -/
def act (a : Action) : Attempt a.kind.Result := lift (Script.act a)

/-- Go on if there was no fault. -/
def unlessFault {α : Type} : Except Fault α → Attempt α
  | .ok a => return a
  | .error f => throw (.fault f)

/-- Go on with something that is known. -/
def known {α : Type} (c : Code Record .done (Except Missing α)) : Attempt α := do
  match ← lift c with
  | .ok a => return a
  | .error e => throw (.missing e)

/-- A thing with a name. -/
def find {α : Type} (sort : String) (names : Session Record → Names α) (name : String) :
    Attempt α :=
  known (Code.lookup sort names name)

/-- The value that is spelled out. -/
def evaluate (v : ValueSpec) : Attempt Value := known (Code.evaluate v)

/-- How a value is shown. -/
def view (v : Value) : Attempt ValueView := lift (Code.view v)

/-- Give a name to something, if there is a name. -/
def keep {α : Type} (set : (Names α → Names α) → Session Record → Session Record)
    (name : Option String) (a : α) : Attempt Unit :=
  match name with
  | some name => modifySession (set (·.set name a))
  | none => return

/-- Give a name to a value, if there is one. -/
def keepValue : Option String → Value → Attempt Unit :=
  keep fun f s => { s with values := f s.values }

/-- Give a name to a capture, if there is one. -/
def keepPending : Option String → Pending → Attempt Unit :=
  keep fun f s => { s with pendings := f s.pendings }

/-- Show a value and then keep it. -/
def give (name : Option String) (v : Value) : Attempt (Answer Record) := do
  let shown ← view v
  keepValue name v
  return .value shown

/-- Show an abrupt end, and then keep what was thrown or captured. -/
def viewAbrupt (name : Option String) : Abrupt → Attempt AbruptView
  | .thrown v => do
    let shown ← view v
    keepValue name v
    return .thrown shown
  | .suspended p => do
    let shown ← lift (Code.viewPending p)
    keepPending name p
    return .suspended shown
  | .aborted reason => return .aborted reason
  | .fault f => return .fault f

/-- Go on with the result of code that was run. -/
def settle {α : Type} (name : Option String) : Except Abrupt α → Attempt α
  | .ok a => return a
  | .error e => do
    let message ← ask (.value (.message e))
    throw (.abrupt message (← viewAbrupt name e))

/-- The context that is named, or that the running thread is bound to. -/
def context : Option String → Attempt (Id .context)
  | some name => find "context" Session.contexts name
  | none => do
    match ← ask (.context .current) with
    | some c => return c
    | none => throw .noContext

/-- The factory that is named, or the global one. -/
def factory (name : Option String) : Attempt (Id .factory) := known (Code.factory name)

end Attempt

end ScriptMachine.Embedding
