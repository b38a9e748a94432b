import ScriptMachine.Embedding.Answer

/-!
# Requests about frames

Frames that no activation holds, to be worked on one operation at a time.
-/

namespace ScriptMachine.Embedding

/-- An operation on a frame. -/
inductive FrameAction where
  | fetch
  | push (v : ValueSpec)
  | pop
  | popMany (count : Nat)
  | getLocal (slot : UInt16)
  | setLocal (slot : UInt16) (v : ValueSpec)
  | goto (position : Nat)
  | pushHandler (catchAt finallyAt : Option Nat)
  | popHandler
  | endCleanup
  | throw (v : ValueSpec)
  | return (v : ValueSpec)

/-- A request about frames. -/
inductive FrameRequest where
  | enter (frame executable scope : String) (receiver : ValueSpec) (args : List ValueSpec)
  | copy (frame : String) (keep : Option String)
  | act (frame : String) (a : FrameAction)

namespace FrameRequest

open Attempt

/-- Give a name to a frame, if there is one. -/
def keepFrame : Option String → Frame → Attempt Unit :=
  keep fun f s => { s with frames := f s.frames }

/-- What there is to know about a frame. -/
def reportOn (f : Frame) : Attempt FrameReport := do
  let top ← f.top?.mapM view
  return {
    position := f.position
    height := f.height
    top
    handlers := f.handlers.length
    cleanups := f.cleanups.length
    receiver := ← view f.receiver }

/-- Show what was popped, and how the frame is afterwards. -/
def shown (r : Value × Frame) : Attempt (FrameResult × Frame) := do
  return (.value (← view r.1), r.2)

/-- Show whether a value was routed. -/
def routed (v : Value) (r : Bool × Frame) : Attempt (FrameResult × Frame) := do
  if r.1 then return (.routed, r.2) else return (.back (← view v), r.2)

/-- Carry out an operation. -/
def carryOut (f : Frame) : FrameAction → Attempt (FrameResult × Frame)
  | .fetch =>
    match f.fetch? with
    | some (i, f) => return (.instruction (some i), f)
    | none => return (.instruction none, f)
  | .push v => do return (.nothing, f.push (← evaluate v))
  | .pop => shown f.pop
  | .popMany count => do
    let (vs, f) := f.popMany count
    return (.values (← vs.mapM view), f)
  | .getLocal slot => shown (f.getLocal slot, f)
  | .setLocal slot v => do return (.nothing, f.setLocal slot (← evaluate v))
  | .goto position => return (.nothing, f.goto position)
  | .pushHandler catchAt finallyAt => return (.nothing, f.pushHandler catchAt finallyAt)
  | .popHandler => return (.nothing, f.popHandler)
  | .endCleanup =>
    match f.endCleanup with
    | (.normal, f) => return (.normal, f)
    | (.throw v, f) => do return (.throw (← view v), f)
    | (.return v, f) => do return (.return (← view v), f)
  | .throw v => do
    let v ← evaluate v
    routed v (f.routeThrow v)
  | .return v => do
    let v ← evaluate v
    routed v (f.routeReturn v)

/-- The frame with a name. -/
def frame (name : String) : Attempt Frame := find "frame" Session.frames name

/-- Carry out the request. -/
def perform : FrameRequest → Attempt (Answer Record)
  | enter name executable scope receiver args => do
    let e ← find "unit" Session.executables executable
    let scope ← find "scope" Session.scopes scope
    let receiver ← evaluate receiver
    let args ← args.mapM evaluate
    let f := Frame.enter e scope receiver args
    keepFrame (some name) f
    return .frame .nothing (← reportOn f)
  | copy name keep => do
    let f ← frame name
    keepFrame keep f
    return .frame .nothing (← reportOn f)
  | act name a => do
    let (result, f) ← carryOut (← frame name) a
    keepFrame (some name) f
    return .frame result (← reportOn f)

end FrameRequest

end ScriptMachine.Embedding
