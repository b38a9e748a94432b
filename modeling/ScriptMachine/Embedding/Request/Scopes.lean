import ScriptMachine.Embedding.Answer

/-!
# Requests about scopes
-/

namespace ScriptMachine.Embedding

/-- Something to do with one scope. -/
inductive ScopeAction where
  /-- Give the scope another name. -/
  | alias (name : String)
  | define (name : String) (v : ValueSpec)
  | put (name : String) (v : ValueSpec)
  | find (name : String) (keep : Option String)
  | has (name : String)
  | delete (name : String)
  | report
  | inspect

/-- A request about scopes. -/
inductive ScopeRequest where
  | create (parent : Option String) (keep : Option String)
  | act (scope : String) (a : ScopeAction)

namespace ScopeRequest

open Attempt

/-- Ask a query about scopes. -/
def query (q : ScopeQuery) : Attempt q.Reply := ask (.scope q)

/-- The scope with a name. -/
def scope (name : String) : Attempt (Id .scope) := find "scope" Session.scopes name

/-- Give a name to a scope, if there is one. -/
def keepScope : Option String → Id .scope → Attempt Unit :=
  keep fun f s => { s with scopes := f s.scopes }

/-- Show the bindings of a scope, in order of definition. -/
def reportOn (id : Id .scope) : Attempt ScopeReport := do
  let state ← query (.state id)
  let bindings ← state.bindings.mapM fun (name, v) => do return (name, ← view v)
  let s ← session
  return { bindings, parent := state.parent?.bind s.nameOfScope }

/-- Show a value that may be missing. -/
def found (keep : Option String) : Option Value → Attempt (Answer Record)
  | none => return .found none
  | some v => do
    let shown ← view v
    keepValue keep v
    return .found (some shown)

/-- Do something with a scope. -/
def carryOut (id : Id .scope) : ScopeAction → Attempt (Answer Record)
  | .alias name => do
    keepScope (some name) id
    return .nothing
  | .define name v => do
    query (.define id name (← evaluate v))
    return .nothing
  | .put name v => do
    query (.put id name (← evaluate v))
    return .nothing
  | .find name keep => do found keep (← query (.find id name))
  | .has name => do
    let own := (← query (.state id)).has name
    return .membership (← query (.has id name)) own
  | .delete name => do found none (← query (.delete id name))
  | .report => do return .scope (← reportOn id)
  | .inspect => do return .text (← query (.state id)).inspect

/-- Carry out the request. -/
def perform : ScopeRequest → Attempt (Answer Record)
  | create parent keep => do
    let parent ← parent.mapM scope
    keepScope keep (← query (.create parent))
    return .nothing
  | act name a => do carryOut (← scope name) a

end ScopeRequest

end ScriptMachine.Embedding
