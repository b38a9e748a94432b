import ScriptMachine.Fault
import ScriptMachine.Frame.Basic

/-!
# Abrupt ends of a call

A call ends with a value or abruptly. Scripts can catch what was thrown and nothing else: a
captured continuation, an abort by the embedder and a fault leave all running code behind
without running its catch and finally blocks.
-/

namespace ScriptMachine

/-- A continuation that waits to be resumed, with data of the embedder. -/
structure Pending where
  continuation : Id .continuation
  state : Option Payload := none
  deriving DecidableEq, Repr

/-- Why a call ended without a value. -/
inductive Abrupt where
  | thrown (v : Value)
  | suspended (p : Pending)
  | aborted (reason : String)
  | fault (f : Fault)

namespace Abrupt

/-- Whether scripts can catch it. -/
def isCatchable : Abrupt → Bool
  | .thrown _ => true
  | _ => false

/-- A thrown error text with the name of its kind in front. -/
def error (kind text : String) : Abrupt := .thrown (.text (kind ++ ": " ++ text))

/-- A value was used in a way that its type does not allow. -/
def typeError (text : String) : Abrupt := error "TypeError" text

/-- A name has no value. -/
def referenceError (text : String) : Abrupt := error "ReferenceError" text

/-- A fault by an illegal state. -/
abbrev illegalState (cause : IllegalState) : Abrupt := .fault (.illegalState cause)

/-- A fault by an invalid argument. -/
abbrev invalidArgument (cause : InvalidArgument) : Abrupt := .fault (.invalidArgument cause)

/-- The wording. A thrown string is flattened. -/
def message : Abrupt → Flattening String
  | .thrown v => do return "Uncaught exception: " ++ (← v.display)
  | .suspended _ => pure "Continuation pending"
  | .aborted reason => pure ("Execution aborted: " ++ reason)
  | .fault f => pure f.message

end Abrupt

/-- The end of a call. -/
abbrev Outcome := Except Abrupt Value

/-- How a suspended generator is resumed. -/
inductive GeneratorOp where
  /-- Go on, with a value as the result of the pending yield. -/
  | next
  /-- Throw a value at the pending yield. -/
  | throw
  /-- Return a value at the pending yield. -/
  | return
  deriving DecidableEq, Repr

/-- What one resumption of a generator gives. -/
structure GeneratorStep where
  value : Value
  done : Bool

end ScriptMachine
