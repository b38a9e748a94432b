import ScriptMachine.Machine.Query

/-!
# Host programs

Host code is data: a tree of the queries and actions that it performs, each followed by what it
does with the reply. Host functions, policies, listeners and the embedder's own code on the
outside are all programs. A program can do only what the library offers, so a statement about
all programs is a statement about every embedder.

Actions may run other code. A program of kind `κ` ends with a result of type `κ.Result`, or
panics.
-/

namespace ScriptMachine

/-- What an activity is to result in. -/
inductive Kind where
  /-- The end of a call. -/
  | completion
  /-- The end of an activation. -/
  | exit
  /-- The end of the resumption of a generator. -/
  | step
  /-- The context bound by an enter. -/
  | entered
  /-- The end of an exit. -/
  | left
  /-- A context made by a policy. -/
  | made
  /-- The verdict of an instruction observer; an error aborts with a reason. -/
  | verdict
  /-- Whether guarded code ended without a panic. -/
  | guarded
  /-- Nothing. -/
  | done
  deriving DecidableEq, Repr

/-- The type of the results of a kind. -/
abbrev Kind.Result : Kind → Type
  | .completion => Outcome
  | .exit => Except Abrupt Exit
  | .step => Except Abrupt GeneratorStep
  | .entered => Except Fault (Id .context)
  | .left => Except Fault Unit
  | .made => Id .context
  | .verdict => Except String Unit
  | .guarded => Bool
  | .done => Unit

/-- Something that may run code. -/
inductive Action where
  /-- Call something, within the top call if there is one. -/
  | call (f : Callable) (site : CallSite)
  /-- Call something as the outermost call of a context. -/
  | callOutermost (f : Callable) (site : CallSite) (isStrict : Bool)
  /-- Run a script. -/
  | execute (e : Executable) (c : Id .context) (s : Id .scope)
  /-- Run a script and accept captures. -/
  | executeCapturing (e : Executable) (c : Id .context) (s : Id .scope)
  /-- Call a function and accept captures. -/
  | callCapturing (e : Executable) (c : Id .context) (s : Id .scope) (args : List Value)
  /-- Resume a continuation with a value. -/
  | resume (k : Id .continuation) (c : Id .context) (s : Id .scope) (v : Value)
  /-- Resume a generator with a value, through an executable that runs its body. -/
  | step (via : Executable) (g : Generator) (op : GeneratorOp) (c : Id .context) (s : Id .scope)
      (v : Value)
  /-- Bind a context to the running thread; a factory makes one if none is requested. -/
  | enter (f : Id .factory) (requested : Option (Id .context))
  /-- Drop one level of the binding of the running thread. -/
  | exit
  /-- Have a factory make a context. -/
  | makeContext (f : Id .factory)

/-- What an action results in. -/
abbrev Action.kind : Action → Kind
  | .call _ _ | .callOutermost _ _ _ | .execute _ _ _ | .executeCapturing _ _ _
  | .callCapturing _ _ _ _ | .resume _ _ _ _ => .completion
  | .step _ _ _ _ _ _ => .step
  | .enter _ _ => .entered
  | .exit => .left
  | .makeContext _ => .made

/-- Code of a host with state `σ`. -/
inductive Program (σ : Type) : Kind → Type where
  /-- End with a result. -/
  | finish {κ : Kind} (result : κ.Result) : Program σ κ
  /-- Give up; the guards of everything under way are run. -/
  | panic {κ : Kind} : Program σ κ
  | ask {κ : Kind} (q : Query σ) (k : q.Reply → Program σ κ) : Program σ κ
  | act {κ : Kind} (a : Action) (k : a.kind.Result → Program σ κ) : Program σ κ
  /-- Run a body with a context bound to the thread, and drop the binding afterwards however the
  body ends. -/
  | bracket {κ : Kind} (f : Id .factory) (body : Id .context → Program σ .done)
      (k : Except Fault Unit → Program σ κ) : Program σ κ
  /-- Run a body and go on even if it panics. -/
  | guard {κ : Kind} (body : Program σ .done) (k : Bool → Program σ κ) : Program σ κ

/-- What a listener is told. -/
inductive ContextEvent where
  /-- The context was bound to the running thread. -/
  | created
  /-- The context is no longer bound. -/
  | released
  deriving DecidableEq, Repr

/-- The code of a host with state `σ`, by the identities it gave out. -/
structure Host (σ : Type) where
  /-- The body of a host function. -/
  run : Id .hostFunction → CallSite → Program σ .completion
  /-- How a policy makes a context. -/
  makeContext : Id .policy → Id .factory → Program σ .made
  /-- How a policy performs the outermost call of a context. -/
  outermost : Id .policy → Callable → CallSite → Program σ .completion
  /-- How a policy observes that instructions were counted. -/
  observe : Id .policy → Id .context → UInt32 → Program σ .verdict
  /-- How a policy answers for a feature. -/
  hasFeature : Id .policy → Id .context → Feature → σ → Bool
  /-- What a listener does. -/
  notify : Id .listener → ContextEvent → Id .context → Program σ .done
  /-- The domain that a controller answers for a static domain. -/
  resolve : Id .controller → Option Payload → σ → Option Payload × σ

/-- Code written in sequence: a computation that is given the rest of the program. -/
def Script (σ : Type) (κ : Kind) (α : Type) : Type := (α → Program σ κ) → Program σ κ

namespace Script

variable {σ : Type} {κ : Kind} {α : Type}

instance : Monad (Script σ κ) where
  pure a := fun k => k a
  bind c f := fun k => c fun a => f a k

/-- End the program here. -/
def exit (result : κ.Result) : Script σ κ α := fun _ => Program.finish result

/-- Give up. -/
def panic : Script σ κ α := fun _ => Program.panic

/-- Ask a query. -/
def ask (q : Query σ) : Script σ κ q.Reply := Program.ask q

/-- Perform an action. -/
def act (a : Action) : Script σ κ a.kind.Result := Program.act a

/-- Run a body with a context bound to the thread. -/
def bracket (f : Id .factory) (body : Id .context → Script σ .done Unit) :
    Script σ κ (Except Fault Unit) :=
  Program.bracket f fun c => body c fun _ => Program.finish ()

/-- Run a body and go on even if it panics. -/
def guard (body : Script σ .done Unit) : Script σ κ Bool :=
  Program.guard (body fun _ => Program.finish ())

/-- The program that ends with the result of a computation. -/
def toProgram (c : Script σ κ κ.Result) : Program σ κ := c .finish

end Script

end ScriptMachine
