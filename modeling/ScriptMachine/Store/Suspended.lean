import ScriptMachine.Abrupt

/-!
# Suspended computations

Generators and continuations hold frames that do not run at the moment. A generator can be
resumed again and again; a continuation goes from pending to captured to resumed and never back.
-/

namespace ScriptMachine

/-- The state of a generator. It holds its frame while it is suspended. -/
structure GeneratorState where
  frame : Option Frame
  started : Bool := false
  finished : Bool := false

instance : Inhabited GeneratorState := ⟨{ frame := none }⟩

namespace GeneratorState

/-- Whether the body runs at the moment. -/
def isRunning (s : GeneratorState) : Bool := !s.finished && s.frame.isNone

/-- What a developer sees of a generator in this state. -/
def inspect (s : GeneratorState) (g : Generator) : String :=
  "Generator \x7b unit: " ++ Text.quote g.body.name ++ s!", started: {s.started}, finished: " ++
    s!"{s.finished} \x7d"

end GeneratorState

/-- The state of a continuation. Frames are listed from the innermost. -/
inductive CaptureState where
  /-- Asked for, but the running code has not been left yet. -/
  | pending
  | captured (frames : List Frame)
  | resumed

instance : Inhabited CaptureState := ⟨.resumed⟩

namespace CaptureState

/-- Captured and not resumed yet. -/
def isResumable : CaptureState → Bool
  | .captured _ => true
  | _ => false

/-- Captured, and perhaps resumed since. -/
def isCaptured : CaptureState → Bool
  | .pending => false
  | _ => true

/-- The frames that are held, innermost first. -/
def frames : CaptureState → List Frame
  | .captured frames => frames
  | _ => []

/-- Number of frames that are held. -/
def depth (s : CaptureState) : Nat := s.frames.length

/-- Whether the outermost frame that is held is strict. -/
def isStrict (s : CaptureState) : Bool := s.frames.getLast?.any (·.body.routine.isStrict)

/-- The word for a state. -/
def word : CaptureState → String
  | .pending => "pending"
  | .captured _ => "captured"
  | .resumed => "resumed"

end CaptureState

/-- A resumption of a generator that goes through the outermost call: the value that is still to
be delivered, and whether the generator was done after the last step. -/
structure Resumption where
  value : Option Value
  done : Option Bool := none
  deriving Inhabited

end ScriptMachine
