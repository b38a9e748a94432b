import ScriptMachine.Code.Assembler

/-!
# Faults

Mistakes of the embedder and exhausted limits. Scripts cannot catch a fault. Each cause has a
constructor; `Fault.message` is the only place with wording.
-/

namespace ScriptMachine

/-- An operation came at the wrong time. -/
inductive IllegalState where
  | topCallInProgress
  | scriptExpected
  | noCurrentContext
  | captureEntryDuringTopCall
  | resumeDuringTopCall
  | notResumable
  | notRunning
  | captureNotEnabled
  | captureAcrossHostFrame
  | captureInGenerator
  | alreadyCaptured
  | neverCaptured
  | alreadyResumed
  | noCapturedFrames
  | noActiveFrame
  /-- An instruction that needs more than its own frame came to the code for the others. -/
  | strayDispatch (listing : String)
  | controllerInstalled
  | listeningDisabled
  | listeningAlreadyDisabled
  | sealed
  | boundToOtherThread
  | boundTwice
  | exitWithoutEnter
  | madeBoundContext
  | definedByAncestor (name : String)
  | alreadyDefined (name : String)
  | strayComment (position : Nat)
  /-- A host function reports a mistake of its own. -/
  | reported (text : String)
  deriving DecidableEq, Repr

/-- The wording of an illegal state. -/
def IllegalState.message : IllegalState → String
  | .topCallInProgress => "a top call is already in progress"
  | .scriptExpected => "exec is only supported for scripts"
  | .noCurrentContext => "no context is bound to the current thread"
  | .captureEntryDuringTopCall =>
    "cannot have any pending top calls when executing with continuations"
  | .resumeDuringTopCall => "cannot resume a continuation while a top call is pending"
  | .notResumable => "continuation is not resumable; it was never captured or was already resumed"
  | .notRunning => "interpreter frames not found"
  | .captureNotEnabled =>
    "cannot capture continuation from script code not called directly by " ++
      "execute_script_with_continuations or call_function_with_continuations"
  | .captureAcrossHostFrame => "cannot capture continuation across a host function frame"
  | .captureInGenerator => "cannot capture a continuation inside a generator"
  | .alreadyCaptured => "continuation was already captured"
  | .neverCaptured => "continuation was never captured"
  | .alreadyResumed => "continuation was already resumed"
  | .noCapturedFrames => "continuation holds no frames"
  | .noActiveFrame => "interpreter has no active frame"
  | .strayDispatch listing => listing ++ " dispatched outside the interpreter loop"
  | .controllerInstalled => "security controller is already installed"
  | .listeningDisabled => "context listening is disabled"
  | .listeningAlreadyDisabled => "context listening is already disabled"
  | .sealed => "context factory is sealed"
  | .boundToOtherThread => "context is already bound to another thread"
  | .boundTwice => "context is already bound to this thread under another registration"
  | .exitWithoutEnter => "calling exit without previous enter"
  | .madeBoundContext => "make_context returned a context that is already bound"
  | .definedByAncestor name =>
    "generated unit '" ++ name ++ "' is already defined by a parent loader"
  | .alreadyDefined name => "generated unit '" ++ name ++ "' is already defined"
  | .strayComment position => s!"comment at {position} is not parented to this root"
  | .reported text => text

/-- An operation was given something it cannot take. -/
inductive InvalidArgument where
  | build (e : BuildError)
  | kindMismatch (expected found : RoutineKind)
  | domainWithoutController
  | noNestedRoutine (index : Nat)
  | foreignGenerator
  | scriptRequired
  | unknownFeature (index : Nat)
  | badVersion (version : Int)
  | emptyUnitName
  /-- A host function reports a mistake of its own. -/
  | reported (text : String)
  deriving DecidableEq, Repr

/-- The wording of an invalid argument. -/
def InvalidArgument.message : InvalidArgument → String
  | .build e => e.message
  | .kindMismatch expected found => s!"expected {expected.word} data, found {found.word}"
  | .domainWithoutController => "a security domain requires a security controller"
  | .noNestedRoutine index => s!"no nested function at index {index}"
  | .foreignGenerator => "generator was not created by this function"
  | .scriptRequired => "execute_script_with_continuations requires a script"
  | .unknownFeature index => s!"unknown feature index {index}"
  | .badVersion version => s!"bad language version: {version}"
  | .emptyUnitName => "generated unit name is empty"
  | .reported text => text

/-- A mistake of the embedder or an exhausted limit. -/
inductive Fault where
  | illegalState (cause : IllegalState)
  | invalidArgument (cause : InvalidArgument)
  /-- An activation would have had more frames than its limit. -/
  | stackOverflow (limit : Nat)
  deriving DecidableEq, Repr

/-- The wording of a fault. -/
def Fault.message : Fault → String
  | .illegalState cause => "Illegal state: " ++ cause.message
  | .invalidArgument cause => "Invalid argument: " ++ cause.message
  | .stackOverflow limit => s!"Interpreter stack depth limit of {limit} frames exceeded"

end ScriptMachine
