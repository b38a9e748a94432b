import ScriptMachine.Embedding.Answer

/-!
# Requests that run code
-/

namespace ScriptMachine.Embedding

/-- How something is called. -/
inductive CallMode where
  | plain
  /-- As a function that accepts captures. -/
  | capturing
  /-- As the outermost call. -/
  | outermost (isStrict : Bool)

/-- Where code runs: a context, or that of the running thread, and a scope. -/
structure Place where
  context : Option String := none
  scope : String := "global"

/-- Something to do with a capture. -/
inductive PendingAction where
  | report
  /-- Copy the capture and put another state into the copy. -/
  | setState (state : Payload) (keep : Option String)
  /-- Put the continuation of another capture into a copy. -/
  | exchange (other : String) (keep : Option String)
  | inspect

/-- A request that runs code or is about code that ran. -/
inductive RunRequest where
  /-- Make a host function, and bind it in a scope. -/
  | hostFunction (name : String) (behavior : Behavior) (scope keep : Option String)
  | execute (executable : String) (capturing : Bool) (place : Place) (keep : Option String)
  | call (f receiver : ValueSpec) (args : List ValueSpec) (mode : CallMode) (place : Place)
      (keep : Option String)
  | resume (pending : String) (v : ValueSpec) (place : Place) (keep : Option String)
  | step (g : ValueSpec) (op : GeneratorOp) (v : ValueSpec) (via : Option String) (place : Place)
      (keep : Option String)
  | generator (g : ValueSpec)
  | onPending (pending : String) (a : PendingAction)

namespace RunRequest

open Attempt

/-- The context and the scope of a place. -/
def locate (p : Place) : Attempt (Id .context × Id .scope) := do
  let c ← context p.context
  return (c, ← find "scope" Session.scopes p.scope)

/-- Show and keep the result of running code. -/
def finish (keep : Option String) (outcome : Outcome) : Attempt (Answer Record) := do
  give keep (← settle keep outcome)

/-- A value as something to call. -/
def callable : Value → Attempt Callable
  | .executable e => return .executable e
  | .hostFunction f => return .hostFunction f
  | _ => throw .unsuitable

/-- Call something. Only functions accept captures. -/
def enter (f : Callable) (site : CallSite) : CallMode → Attempt Outcome
  | .plain => Attempt.act (.call f site)
  | .outermost isStrict => Attempt.act (.callOutermost f site isStrict)
  | .capturing =>
    match f with
    | .executable e => Attempt.act (.callCapturing e site.context site.scope site.args)
    | _ => throw .unsuitable

/-- The generator that is meant. -/
def generatorOf (v : ValueSpec) : Attempt Generator := do
  match ← evaluate v with
  | .generator g => return g
  | _ => throw .unsuitable

/-- The capture with a name. -/
def pending (name : String) : Attempt Pending := find "pending" Session.pendings name

/-- Do something with a capture. -/
def carryOut (name : String) (p : Pending) : PendingAction → Attempt (Answer Record)
  | .report => do return .pending (← lift (Code.viewPending p))
  | .setState state keep => do
    let p := { p with state := some state }
    keepPending (some (keep.getD name)) p
    return .pending (← lift (Code.viewPending p))
  | .exchange other keep => do
    let q ← pending other
    let sameBefore := p.continuation == q.continuation
    let p := { p with continuation := q.continuation }
    keepPending (some (keep.getD name)) p
    return .exchange sameBefore (← lift (Code.viewPending p))
  | .inspect => do
    let state ← ask (.continuation p.continuation)
    return .texts [state.inspect "N", p.inspect state "N"]

/-- Carry out the request. -/
def perform : RunRequest → Attempt (Answer Record)
  | hostFunction name behavior scope keep => do
    let scope ← scope.mapM (find "scope" Session.scopes)
    let f ← ask (.newHostFunction name)
    modifySession fun s => { s with behaviors := (f.id, name, behavior) :: s.behaviors }
    if let some scope := scope then ask (.scope (.define scope name (.hostFunction f)))
    keepValue (some (keep.getD name)) (.hostFunction f)
    return .nothing
  | execute name capturing place keep => do
    let e ← find "unit" Session.executables name
    let (c, scope) ← locate place
    if capturing then finish keep (← Attempt.act (.executeCapturing e c scope))
    else finish keep (← Attempt.act (.execute e c scope))
  | call f receiver args mode place keep => do
    let f ← evaluate f
    let receiver ← evaluate receiver
    let args ← args.mapM evaluate
    let (c, scope) ← locate place
    let site : CallSite := { context := c, scope, receiver, args }
    finish keep (← enter (← callable f) site mode)
  | resume name v place keep => do
    let p ← pending name
    let v ← evaluate v
    let (c, scope) ← locate place
    finish keep (← Attempt.act (.resume p.continuation c scope v))
  | step g op v via place keep => do
    let g ← generatorOf g
    let v ← evaluate v
    let via ← via.mapM (find "unit" Session.executables)
    let (c, scope) ← locate place
    let result ← settle keep (← Attempt.act (.step (via.getD g.body) g op c scope v))
    let shown ← view result.value
    keepValue keep result.value
    let state ← ask (.generator g)
    return .step shown result.done state.finished state.isRunning
  | generator g => do
    let g ← generatorOf g
    return .generator g (← ask (.generator g))
  | onPending name a => do carryOut name (← pending name) a

end RunRequest

end ScriptMachine.Embedding
