import ScriptMachine.Embedding.Session

/-!
# Views

What a session shows of the things it works with. Identities are shown by the name that the
session has for them, if it has one. Showing a string flattens it, and a view tells whether it
was flat before.
-/

namespace ScriptMachine.Embedding

/-- A value as a session shows it. -/
inductive ValueView where
  | undefined
  | null
  | bool (b : Bool)
  | number (x : Float)
  | text (s : String)
  | rope (text : String) (byteLength : UInt64) (wasFlat : Bool)
  | object (name : Option String)
  | executable (title : String) (name : Option String)
  | hostFunction (title : String)
  | generator (title : String) (finished running : Bool)

/-- A context as a session shows it. -/
structure ContextView where
  name : Option String
  factory : Option String
  boundTo : Option String
  enterCount : Nat

/-- A capture and the state of its continuation. -/
structure PendingView where
  pending : Pending
  state : CaptureState

/-- The comments of a tree, and which tree it is. -/
structure CommentsView where
  tree : Id .tree
  comments : Option (List Comment)

namespace Session

variable {ω : Type}

/-- The name of a scope. -/
def nameOfScope (s : Session ω) (id : Id .scope) : Option String := s.scopes.nameOf? (· == id)

/-- The name of a context. -/
def nameOfContext (s : Session ω) (id : Id .context) : Option String :=
  s.contexts.nameOf? (· == id)

/-- The name of a factory. -/
def nameOfFactory (s : Session ω) (id : Id .factory) : Option String :=
  s.factories.nameOf? (· == id)

/-- The name of an executable. -/
def nameOfExecutable (s : Session ω) (e : Executable) : Option String :=
  s.executables.nameOf? (·.id == e.id)

/-- How a context is shown. -/
def viewContext (s : Session ω) (id : Id .context) (cx : Context) : ContextView :=
  { name := s.nameOfContext id
    factory := s.nameOfFactory cx.factory
    boundTo := cx.boundTo.bind fun thread => s.threads.nameOf? (· == thread)
    enterCount := cx.enterCount }

end Session

/-- The comments of a tree. -/
def viewComments (t : SourceTree) : CommentsView := ⟨t.id, t.comments⟩

namespace Code

variable {ω : Type} {κ : Kind}

/-- How a rope is shown. -/
def viewRope : Rope → Code ω κ ValueView
  | .flat s => return .text s
  | r => do
    let wasFlat ← Script.ask (.value (.isFlattened r))
    let text ← display (.string r)
    return .rope text r.byteLength wasFlat

/-- How a value is shown. -/
def view : Value → Code ω κ ValueView
  | .undefined => return .undefined
  | .null => return .null
  | .bool b => return .bool b
  | .number x => return .number x
  | .string r => viewRope r
  | .object scope => do return .object ((← session).nameOfScope scope)
  | .executable e => do return .executable e.name ((← session).nameOfExecutable e)
  | .hostFunction f => return .hostFunction f.name
  | .generator g => do
    let state ← Script.ask (.generator g)
    return .generator g.body.name state.finished state.isRunning

/-- How some values are shown. -/
def viewAll (vs : List Value) : Code ω κ (List ValueView) := vs.mapM view

/-- How a value is shown, if there is one. -/
def view? : Option Value → Code ω κ (Option ValueView)
  | some v => some <$> view v
  | none => return none

/-- How a context is shown. -/
def viewContext (id : Id .context) : Code ω κ ContextView := do
  let cx ← context id
  return (← session).viewContext id cx

/-- How a capture is shown. -/
def viewPending (p : Pending) : Code ω κ PendingView := do
  return ⟨p, ← Script.ask (.continuation p.continuation)⟩

end Code

end ScriptMachine.Embedding
