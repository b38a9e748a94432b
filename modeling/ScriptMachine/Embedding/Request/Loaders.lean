import ScriptMachine.Embedding.Answer

/-!
# Requests about loaders
-/

namespace ScriptMachine.Embedding

/-- Something to do with a loader. -/
inductive LoaderAction where
  | define (name : String) (payload : List UInt8)
  | find (name : String)
  | report

/-- A request about loaders. -/
inductive LoaderRequest where
  /-- Make a loader, or have a factory make one. -/
  | create (loader : String) (parent factory : Option String)
  | act (loader : String) (a : LoaderAction)

namespace LoaderRequest

open Attempt

/-- Ask a query about loaders. -/
def query (q : LoaderQuery) : Attempt q.Reply := ask (.loader q)

/-- The loader with a name. -/
def loader (name : String) : Attempt LoaderHandle := find "loader" Session.loaders name

/-- Do something with a loader. -/
def carryOut (l : LoaderHandle) : LoaderAction → Attempt (Answer Record)
  | .define name payload => do
    return .generatedUnit (some (← unlessFault (← query (.define l.id name payload))))
  | .find name => do return .generatedUnit (← query (.find l.id name))
  | .report => do return .loader (← query (.state l.id)) l.ofFactory

/-- Carry out the request. A factory keeps nothing of the loaders it made. -/
def perform : LoaderRequest → Attempt (Answer Record)
  | create name parent factory => do
    let parent ← parent.mapM loader
    let _ ← factory.mapM (find "factory" Session.factories)
    let id ← query (.create (parent.map (·.id)))
    keep (fun f s => { s with loaders := f s.loaders }) (some name)
      (⟨id, factory.isSome⟩ : LoaderHandle)
    return .nothing
  | act name a => do carryOut (← loader name) a

end LoaderRequest

end ScriptMachine.Embedding
