import ScriptMachine.Abrupt
import ScriptMachine.Settings.Basic

/-!
# Contexts and factories

A context is the state of one logical run of scripts. A factory makes contexts, holds the policy
for them and a list of listeners that are told when a context is bound to a thread or released.

The bookkeeping of a running script is in three fields: the top call, whether it accepts
captures, and the number of interpreter activations under way.
-/

namespace ScriptMachine

/-- The outermost call that a context is running. -/
structure TopCall where
  scope : Id .scope
  isStrict : Bool
  deriving DecidableEq, Repr

/-- The state of one logical run of scripts. -/
structure Context where
  factory : Id .factory
  /-- The thread the context is bound to. -/
  boundTo : Option (Id .thread) := none
  /-- Nesting of the binding. -/
  enterCount : Nat := 0
  version : LanguageVersion := .es6
  /-- The observer is called every so many instructions; zero turns it off. -/
  observerThreshold : UInt32 := 0
  /-- Instructions since the observer was last called. -/
  instructionCount : UInt32 := 0
  /-- Whether code generated ahead of time should count instructions too. -/
  countsGenerated : Bool := false
  /-- Frames that one activation may have. -/
  frameLimit : Nat := defaultFrameLimit
  controller : Option (Id .controller) := none
  topCall : Option TopCall := none
  /-- Whether the top call accepts captures of a continuation. -/
  acceptsCaptures : Bool := false
  /-- Activations of the interpreter under way. -/
  depth : Nat := 0
  extension : Option Payload := none
  deriving DecidableEq, Repr

instance : Inhabited Context := ⟨{ factory := ⟨0⟩ }⟩

namespace Context

/-- Observe after a number of instructions, counted from now. -/
def setThreshold (c : Context) (threshold : UInt32) : Context :=
  { c with observerThreshold := threshold, instructionCount := 0 }

/-- Limit the frames of an activation; at least one is always allowed. -/
def setFrameLimit (c : Context) (limit : Nat) : Context := { c with frameLimit := max limit 1 }

/-- Whether the outermost call is strict. -/
def isTopCallStrict (c : Context) : Bool := c.topCall.any (·.isStrict)

/-- Count an instruction. Answers the count for the observer when it is time to call it. -/
def countInstruction (c : Context) : Option UInt32 × Context :=
  if c.observerThreshold = 0 then (none, c)
  else
    let count := c.instructionCount + 1
    if count < c.observerThreshold then (none, { c with instructionCount := count })
    else (some count, { c with instructionCount := 0 })

/-- Bind a context to a thread. -/
def bind (c : Context) (thread : Id .thread) : Except IllegalState Context :=
  match c.boundTo with
  | none => .ok { c with boundTo := some thread, enterCount := 1 }
  | some owner => .error (if owner = thread then .boundTwice else .boundToOtherThread)

/-- Drop one level of the binding. Answers whether it was the last. -/
def release (c : Context) : Except IllegalState (Bool × Context) :=
  match c.enterCount with
  | 0 => .error .exitWithoutEnter
  | 1 => .ok (true, { c with enterCount := 0, boundTo := none })
  | n + 2 => .ok (false, { c with enterCount := n + 1 })

end Context

/-- The policy of a factory. -/
inductive Policy where
  | standard
  | planned (plan : ContextPlan)
  /-- The host answers. -/
  | custom (id : Id .policy)

/-- A maker of contexts. -/
structure Factory where
  policy : Policy := .standard
  isSealed : Bool := false
  /-- In order of registration; a listener may be registered more than once. -/
  listeners : List (Id .listener) := []
  listeningDisabled : Bool := false

instance : Inhabited Factory := ⟨{}⟩

namespace Factory

/-- Whether listeners may still be changed. -/
def checkListening (f : Factory) (disabled : IllegalState) : Except IllegalState Unit :=
  if f.isSealed then .error .sealed
  else if f.listeningDisabled then .error disabled
  else .ok ()

/-- Register a listener. -/
def addListener (f : Factory) (l : Id .listener) : Except IllegalState Factory := do
  f.checkListening .listeningDisabled
  return { f with listeners := f.listeners ++ [l] }

/-- Remove the first registration of a listener, if there is one. -/
def removeListener (f : Factory) (l : Id .listener) : Except IllegalState Factory := do
  f.checkListening .listeningDisabled
  return { f with listeners := f.listeners.erase l }

/-- Remove all listeners for good. -/
def disableListening (f : Factory) : Except IllegalState Factory := do
  f.checkListening .listeningAlreadyDisabled
  return { f with listeners := [], listeningDisabled := true }

/-- Forbid further changes of the listeners. -/
def close (f : Factory) : Except IllegalState Factory :=
  if f.isSealed then .error .sealed else .ok { f with isSealed := true }

/-- What a developer sees of a factory. -/
def inspect (f : Factory) : String :=
  s!"ContextFactory \x7b sealed: {f.isSealed}, listeners: {f.listeners.length}, .. \x7d"

end Factory

end ScriptMachine
