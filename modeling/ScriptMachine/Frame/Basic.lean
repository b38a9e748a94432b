import ScriptMachine.Value.Basic

/-!
# Frames

A frame is one call in progress: its operands, local slots and try statements. It is plain data,
so a suspended generator or a captured continuation simply holds frames.

Leaving a try statement by a throw or a return is `Frame.routeThrow` and `Frame.routeReturn`;
a finally block that is running remembers in a `Cleanup` what led into it.
-/

namespace ScriptMachine

/-- A try statement that is active: its handlers and the height of the operand stack on entry. -/
structure Handler where
  catchAt : Option Nat
  finallyAt : Option Nat
  height : Nat
  deriving DecidableEq, Repr

/-- What led into a finally block and goes on after it. -/
inductive Completion where
  | normal
  | throw (v : Value)
  | return (v : Value)

/-- A finally block that is running. Its depth is the number of active handlers on entry; an
exit through handlers below that depth abandons the block. -/
structure Cleanup where
  completion : Completion
  depth : Nat

/-- One call in progress. Stacks are listed from the top. -/
structure Frame where
  body : Executable
  /-- Position of the next instruction. -/
  position : Nat
  operands : List Value
  locals : Array Value
  handlers : List Handler
  cleanups : List Cleanup
  scope : Id .scope
  receiver : Value

namespace Frame

/-- A call of a body: parameters take the arguments, and are undefined where there is none;
arguments without a parameter are dropped. -/
def enter (body : Executable) (scope : Id .scope) (receiver : Value) (args : List Value) :
    Frame :=
  let given := (args.take body.routine.paramCount).toArray
  { body
    position := 0
    operands := []
    locals := Array.ofFn (n := body.routine.names.size) fun slot => given.getD slot .undefined
    handlers := []
    cleanups := []
    scope
    receiver }

/-- The next instruction, if the code has not ended, and the frame behind it. -/
def fetch? (f : Frame) : Option (Instruction × Frame) :=
  f.body.routine.code[f.position]?.map fun i => (i, { f with position := f.position + 1 })

/-- Go on at a position. -/
def goto (f : Frame) (position : Nat) : Frame := { f with position }

/-- Push an operand. -/
def push (f : Frame) (v : Value) : Frame := { f with operands := v :: f.operands }

/-- Pop an operand; there is always one more undefined. -/
def pop (f : Frame) : Value × Frame :=
  (f.operands.headD .undefined, { f with operands := f.operands.tail })

/-- Pop as many operands as there are, up to a number; the first pushed comes first. -/
def popMany (f : Frame) (count : Nat) : List Value × Frame :=
  ((f.operands.take count).reverse, { f with operands := f.operands.drop count })

/-- The operand on top. -/
def top? (f : Frame) : Option Value := f.operands.head?

/-- Height of the operand stack. -/
def height (f : Frame) : Nat := f.operands.length

/-- Cut the operand stack to a height. -/
def truncate (f : Frame) (height : Nat) : Frame :=
  { f with operands := f.operands.drop (f.height - height) }

/-- The value of a slot. -/
def local? (f : Frame) (slot : UInt16) : Option Value := f.locals[slot.toNat]?

/-- The value of a slot; a slot that does not exist is undefined. -/
def getLocal (f : Frame) (slot : UInt16) : Value := (f.local? slot).getD .undefined

/-- Store into a slot; a slot that does not exist takes nothing. -/
def setLocal (f : Frame) (slot : UInt16) (v : Value) : Frame :=
  { f with locals := f.locals.setIfInBounds slot.toNat v }

/-- Enter a try statement. -/
def pushHandler (f : Frame) (catchAt finallyAt : Option Nat) : Frame :=
  { f with handlers := ⟨catchAt, finallyAt, f.height⟩ :: f.handlers }

/-- Enter a finally block. -/
def beginCleanup (f : Frame) (completion : Completion) : Frame :=
  { f with cleanups := ⟨completion, f.handlers.length⟩ :: f.cleanups }

/-- Leave the innermost try statement normally. -/
def popHandler (f : Frame) : Frame :=
  match f.handlers with
  | [] => f
  | h :: rest =>
    let f := { f with handlers := rest }
    if h.finallyAt.isSome then f.beginCleanup .normal else f

/-- Leave a finally block, answering what led into it. -/
def endCleanup (f : Frame) : Completion × Frame :=
  match f.cleanups with
  | [] => (.normal, f)
  | c :: rest => (c.completion, { f with cleanups := rest })

/-- Abandon the finally blocks on top that were entered inside try statements no longer
active. -/
def abandonCleanups (f : Frame) : Frame :=
  { f with cleanups := f.cleanups.dropWhile (f.handlers.length < ·.depth) }

/-- Remove handlers, innermost first, up to and including the first with a finally block, which
is entered with a return. Answers whether there was one. -/
def routeReturnThrough (v : Value) (f : Frame) : List Handler → Bool × Frame
  | [] => (false, { f with handlers := [] })
  | h :: rest =>
    let f := { f with handlers := rest }.abandonCleanups
    match h.finallyAt with
    | some target => (true, ((f.truncate h.height).beginCleanup (.return v)).goto target)
    | none => routeReturnThrough v f rest

/-- Return a value: enter the innermost finally block, if there is one. Catch blocks are passed
by. Answers whether the frame goes on. -/
def routeReturn (f : Frame) (v : Value) : Bool × Frame := routeReturnThrough v f f.handlers

/-- Remove handlers, innermost first, up to and including the first that catches or has a
finally block, and go on there. A handler with both leaves one behind that has only the finally
block. Answers whether there was one. -/
def routeThrowThrough (v : Value) (f : Frame) : List Handler → Bool × Frame
  | [] => (false, { f with handlers := [] })
  | h :: rest =>
    let f := ({ f with handlers := rest }.abandonCleanups).truncate h.height
    match h.catchAt, h.finallyAt with
    | some target, none => (true, (f.push v).goto target)
    | some target, some cleanup =>
      (true, ({ f with handlers := ⟨none, some cleanup, h.height⟩ :: rest }.push v).goto target)
    | none, some target => (true, (f.beginCleanup (.throw v)).goto target)
    | none, none => routeThrowThrough v f rest

/-- Throw a value: go on at the innermost handler, if there is one. Answers whether the frame
goes on. -/
def routeThrow (f : Frame) (v : Value) : Bool × Frame := routeThrowThrough v f f.handlers

end Frame

end ScriptMachine
