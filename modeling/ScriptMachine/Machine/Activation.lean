import ScriptMachine.Store.Basic

/-!
# Activations

An activation is one run of the interpreter: a list of frames, innermost first. Calls between
interpreted functions push and pop frames of the same activation; a call of anything else has to
be answered from outside, which `Move.call` asks for.

Ends of a call are routed by their kind. A return runs the finally blocks of its frame. A thrown
value goes to the innermost handler of any frame. A captured continuation takes all frames
along. Aborts and faults leave at once.
-/

namespace ScriptMachine

/-- What can be called. -/
inductive Callable where
  | executable (e : Executable)
  | hostFunction (f : HostFunction)
  /-- Resume a generator with a value that is kept aside. -/
  | resumption (r : Id .resumption) (g : Generator) (op : GeneratorOp)
  /-- Run captured frames again, with a value as the result of the call that captured them. -/
  | continuation (k : Id .continuation) (v : Value)

/-- The circumstances of a call. -/
structure CallSite where
  context : Id .context
  scope : Id .scope
  receiver : Value
  args : List Value

/-- How an activation is left without an error. -/
inductive Exit where
  | returned (v : Value)
  /-- The frame of a generator is suspended. -/
  | yielded (v : Value) (frame : Frame)

/-- One run of the interpreter. -/
structure Activation where
  context : Id .context
  /-- Innermost first. -/
  frames : List Frame
  /-- Frames it may have. -/
  limit : Nat
  /-- It runs the body of a generator, which may yield. -/
  isGenerator : Bool

/-- Whether an activation goes on. -/
inductive Flow where
  | next (a : Activation)
  | leave (e : Except Abrupt Exit)

/-- What an activation does after an instruction. -/
inductive Move where
  | flow (f : Flow)
  /-- Wait for a callee that is no interpreted function. -/
  | call (a : Activation) (f : Callable) (site : CallSite)

namespace Frame

variable {σ : Type}

/-- Apply an operator to the two operands on top. -/
def applyBinary (f : Frame) (op : BinaryOp) (m : Store σ) : Frame × Store σ :=
  let (w, f) := f.pop
  let (v, f) := f.pop
  let (result, m) := m.flattening (Value.applyBinary op v w)
  (f.push result, m)

/-- Carry out an instruction that touches no frame but its own. One that fails has taken its
operands all the same. -/
def perform (f : Frame) (i : Instruction) (m : Store σ) : Except Abrupt Unit × Frame × Store σ :=
  let next (f : Frame) : Except Abrupt Unit × Frame × Store σ := (.ok (), f, m)
  match i with
  | .undefined => next (f.push .undefined)
  | .null => next (f.push .null)
  | .bool b => next (f.push (.bool b))
  | .number x => next (f.push (.number x))
  | .text s => next (f.push (.text s))
  | .loadName name =>
    match m.scopes.find? f.scope name with
    | some v => next (f.push v)
    | none => (.error (.referenceError (name ++ " is not defined")), f, m)
  | .storeName name =>
    let (v, f) := f.pop
    if f.body.routine.isStrict && !m.scopes.has f.scope name then
      (.error (.referenceError ("assignment to undeclared variable " ++ name)), f, m)
    else (.ok (), f, { m with scopes := m.scopes.put f.scope name v })
  | .defineName name =>
    let (v, f) := f.pop
    (.ok (), f, { m with scopes := m.scopes.define f.scope name v })
  | .loadLocal slot => next (f.push (f.getLocal slot))
  | .storeLocal slot =>
    let (v, f) := f.pop
    next (f.setLocal slot v)
  | .loadThis => next (f.push f.receiver)
  | .pop => next f.pop.2
  | .dup => next (f.push (f.top?.getD .undefined))
  | .binary op => (.ok (), f.applyBinary op m)
  | .not =>
    let (v, f) := f.pop
    next (f.push (.bool !v.isTruthy))
  | .jump target => next (f.goto target)
  | .jumpIfFalse target =>
    let (v, f) := f.pop
    next (if v.isTruthy then f else f.goto target)
  | .closure index =>
    let (id, m) := m.fresh .executable
    match f.body.nested? id index.toNat with
    | some e => (.ok (), f.push (.executable e), m)
    | none => (.error (.invalidArgument (.noNestedRoutine index.toNat)), f, m)
  | .enterTry catchAt finallyAt => next (f.pushHandler catchAt finallyAt)
  | .exitTry => next f.popHandler
  | .call _ | .ret | .yield | .endFinally | .throw =>
    (.error (.illegalState (.strayDispatch i.listing)), f, m)

end Frame

namespace Activation

variable {σ : Type}

/-- Frames below and including the innermost one that handles a thrown value. -/
def unwind (v : Value) : List Frame → List Frame
  | [] => []
  | f :: callers =>
    match f.routeThrow v with
    | (true, f) => f :: callers
    | (false, _) => unwind v callers

/-- Throw a value. -/
def throw (a : Activation) (v : Value) : Flow :=
  match unwind v a.frames with
  | [] => .leave (.error (.thrown v))
  | frames => .next { a with frames }

/-- Leave for a captured continuation, which takes the frames along unless it already holds or
held some. -/
def capture (a : Activation) (p : Pending) (m : Store σ) : Flow × Store σ :=
  if a.isGenerator then (.leave (.error (.illegalState .captureInGenerator)), m)
  else if 1 < (m.context a.context).depth then
    (.leave (.error (.illegalState .captureAcrossHostFrame)), m)
  else
    let m := if (m.continuations.get p.continuation).isCaptured then m
      else { m with continuations := m.continuations.set p.continuation (.captured a.frames) }
    (.leave (.error (.suspended p)), m)

/-- Deal with the abrupt end of something the activation called or did. -/
def fail (a : Activation) (e : Abrupt) (m : Store σ) : Flow × Store σ :=
  match e with
  | .thrown v => (a.throw v, m)
  | .suspended p => a.capture p m
  | e => (.leave (.error e), m)

/-- The innermost call ended with a value. -/
def complete (a : Activation) (callers : List Frame) (v : Value) : Flow :=
  match callers with
  | [] => .leave (.ok (.returned v))
  | caller :: rest => .next { a with frames := caller.push v :: rest }

/-- Return a value from the innermost frame, through its finally blocks. -/
def returnValue (a : Activation) (v : Value) : Flow :=
  match a.frames with
  | [] => .leave (.error (.illegalState .noActiveFrame))
  | f :: callers =>
    match f.routeReturn v with
    | (true, f) => .next { a with frames := f :: callers }
    | (false, _) => a.complete callers v

/-- Deliver the value of a call that was answered from outside. -/
def deliver (a : Activation) (v : Value) : Flow :=
  match a.frames with
  | [] => .leave (.error (.illegalState .noActiveFrame))
  | f :: callers => .next { a with frames := f.push v :: callers }

/-- The move after an error was dealt with. -/
def failed (r : Flow × Store σ) : Move × Store σ := (.flow r.1, r.2)

/-- Carry out a call instruction. -/
def call (a : Activation) (f : Frame) (callers : List Frame) (count : Nat) (m : Store σ) :
    Move × Store σ :=
  let (args, f) := f.popMany count
  let (receiver, f) := f.pop
  let (callee, f) := f.pop
  let a := { a with frames := f :: callers }
  let site : CallSite := { context := a.context, scope := f.scope, receiver, args }
  match callee with
  | .executable e =>
    if e.routine.isGenerator then (.call a (.executable e) site, m)
    else if a.limit ≤ a.frames.length then
      (.flow (.leave (.error (.fault (.stackOverflow a.limit)))), m)
    else (.flow (.next { a with frames := Frame.enter e f.scope receiver args :: a.frames }), m)
  | .hostFunction h => (.call a (.hostFunction h) site, m)
  | v =>
    let (text, m) := m.flattening v.display
    failed (a.fail (.typeError (text ++ " is not a function")) m)

/-- Carry out an instruction that was fetched from the innermost frame. -/
def perform (a : Activation) (f : Frame) (callers : List Frame) (i : Instruction) (m : Store σ) :
    Move × Store σ :=
  let next (f : Frame) : Move := .flow (.next { a with frames := f :: callers })
  let within (f : Frame) : Activation := { a with frames := f :: callers }
  match i with
  | .call count => a.call f callers count.toNat m
  | .ret =>
    let (v, f) := f.pop
    (.flow ((within f).returnValue v), m)
  | .yield =>
    if !a.isGenerator || !callers.isEmpty then
      failed ((within f).fail (.typeError "yield outside a generator") m)
    else
      let (v, f) := f.pop
      (.flow (.leave (.ok (.yielded v f))), m)
  | .endFinally =>
    match f.endCleanup with
    | (.normal, f) => (next f, m)
    | (.throw v, f) => (.flow ((within f).throw v), m)
    | (.return v, f) => (.flow ((within f).returnValue v), m)
  | .throw =>
    let (v, f) := f.pop
    (.flow ((within f).throw v), m)
  | i =>
    match f.perform i m with
    | (.ok (), f, m) => (next f, m)
    | (.error e, f, m) => failed ((within f).fail e m)

/-- Fetch an instruction and carry it out. The end of the code completes the call with
undefined. -/
def execute (a : Activation) (m : Store σ) : Move × Store σ :=
  match a.frames with
  | [] => (.flow (.leave (.error (.illegalState .noActiveFrame))), m)
  | f :: callers =>
    match f.fetch? with
    | none => (.flow (a.complete callers .undefined), m)
    | some (i, f) => a.perform f callers i m

end Activation

end ScriptMachine
