import ScriptMachine.Embedding.Session

/-!
# Host functions of a session

What the ready-made host functions do. They are small programs over the library: some look at
the bookkeeping, some call back into scripts, some capture, abort or panic. A name that the
session does not know is thrown as a text.
-/

namespace ScriptMachine.Embedding

variable {ω : Type}

/-- An argument; undefined if it was not given. -/
def CallSite.arg (site : CallSite) (i : Nat) : Value := site.args.getD i .undefined

/-- Throw a text. -/
def throwText (text : String) : Outcome := .error (.thrown (.text text))

/-- Throw that a name is not known. -/
def throwMissing (e : Missing) : Outcome := throwText ("missing: " ++ e.sort ++ " " ++ e.name)

/-- The text of an optional text. -/
def textOrNone (text : Option String) : String := text.getD "none"

/-- Go on with the named thing, or throw that there is none. -/
def whenKnown {α : Type} (c : Code ω .completion (Except Missing α))
    (f : α → Code ω .completion Outcome) : Code ω .completion Outcome := do
  match ← c with
  | .ok a => f a
  | .error e => return throwMissing e

/-- A value as something to call. -/
def asCallable : Value → Option Callable
  | .executable e => some (.executable e)
  | .hostFunction f => some (.hostFunction f)
  | _ => none

/-- The call that the arguments describe: the callee, its receiver and its arguments. -/
def forwarded? (site : CallSite) (scope : Id .scope) : Option (Callable × CallSite) :=
  (asCallable (CallSite.arg site 0)).map fun f =>
    (f, { site with scope, receiver := CallSite.arg site 1, args := site.args.drop 2 })

/-- Go on with the call that the arguments describe. -/
def whenCallable (site : CallSite) (scope : Id .scope)
    (f : Callable → CallSite → Code ω .completion Outcome) : Code ω .completion Outcome :=
  match forwarded? site scope with
  | some (callee, site) => f callee site
  | none => return throwText "not callable"

/-- Run a script, or call a function with captures, in the scope of the call. -/
def enterExecutable (site : CallSite) (mode : EntryMode) (e : Executable) :
    Code ω .completion Outcome :=
  match mode with
  | .execute => Script.act (.execute e site.context site.scope)
  | .executeCapturing => Script.act (.executeCapturing e site.context site.scope)
  | .callCapturing => Script.act (.callCapturing e site.context site.scope site.args)

/-- An error as the end of a call. -/
def fromFault (f : Fault) : Outcome := .error (.fault f)

/-- Request a capture and go on with it. -/
def whenCaptured (site : CallSite) (f : Pending → Code ω .completion Outcome) :
    Code ω .completion Outcome := do
  match ← Script.ask (.context (.requestCapture site.context)) with
  | .ok p => f p
  | .error e => return fromFault e

/-- Go on with the scope that an object stands for and the text of a key. -/
def whenProperty (site : CallSite)
    (f : Id .scope → String → Code ω .completion Outcome) : Code ω .completion Outcome := do
  match CallSite.arg site 0 with
  | .object scope => f scope (← Code.display (CallSite.arg site 1))
  | _ => return .error (.typeError "not an object")

/-- A text for the bookkeeping of a context, as seen from a scope. -/
def probeText (cx : Context) (scope : Id .scope) : String :=
  let sameScope := cx.topCall.any fun top => top.scope == scope
  s!"top={cx.topCall.isSome} same_scope={sameScope} strict={cx.isTopCallStrict} " ++
    s!"cont={cx.acceptsCaptures} depth={cx.depth}"

/-- What a host function with this name does when it is called. -/
def Behavior.run (name : String) (site : CallSite) :
    Behavior → Code ω .completion Outcome
  | .ret none => return .ok (CallSite.arg site 0)
  | .ret (some v) => whenKnown (Code.evaluate v) fun v => return .ok v
  | .throw none => return .error (.thrown (CallSite.arg site 0))
  | .throw (some v) => whenKnown (Code.evaluate v) fun v => return .error (.thrown v)
  | .this => return .ok site.receiver
  | .argc => return .ok (.number (Float.ofNat site.args.length))
  | .sum => do
    let total ← site.args.foldlM
      (fun total v => do return total + (← Script.ask (.value (.number v)))) (0.0 : Float)
    return .ok (.number total)
  | .typeName => return .ok (.text (CallSite.arg site 0).typeName)
  | .log => do
    let args ← Code.displayAll site.args
    let this ← Code.display site.receiver
    Code.say (name ++ "(" ++ ", ".intercalate args ++ ") this=" ++ this)
    return .ok .undefined
  | .apply => whenCallable site site.scope fun f inner => Script.act (.call f inner)
  | .applyChild =>
    if (asCallable (CallSite.arg site 0)).isNone then return throwText "not callable"
    else do
      let scope ← Script.ask (.scope (.create (some site.scope)))
      whenCallable site scope fun f inner => Script.act (.call f inner)
  | .guard => whenCallable site site.scope fun f inner => do
    match ← Script.act (.call f inner) with
    | .error (.thrown v) => return .ok (← Script.ask (.value (.add (.text "caught ") v)))
    | outcome => return outcome
  | .topCall isStrict => whenCallable site site.scope fun f inner =>
    Script.act (.callOutermost f inner isStrict)
  | .enterScript name mode =>
    whenKnown (Code.lookup "unit" Session.executables name) (enterExecutable site mode)
  | .createExecutable (.error e) => return fromFault (.invalidArgument (.build e))
  | .createExecutable (.ok r) => do
    let shared ← Script.ask (.code (.share r))
    match ← Script.ask (.code (.create r.kind shared none)) with
    | .ok e => return .ok (.executable e)
    | .error e => return fromFault e
  | .suspend state => whenCaptured site fun p => do
    let text ← match state, site.args with
      | some text, _ => pure (some text)
      | none, v :: _ => some <$> Code.display v
      | none, [] => pure none
    return .error (.suspended { p with state := text.map .text })
  | .capture name => whenCaptured site fun p => do
    Code.modifySession fun s => { s with pendings := s.pendings.set name p }
    return .ok .undefined
  | .raise name =>
    whenKnown (Code.lookup "pending" Session.pendings name) fun p => return .error (.suspended p)
  | .resume name =>
    whenKnown (Code.lookup "pending" Session.pendings name) fun p =>
      Script.act (.resume p.continuation site.context site.scope (CallSite.arg site 0))
  | .resumeGenerator op =>
    match CallSite.arg site 0 with
    | .generator g => do
      match ← Script.act (.step g.body g op site.context site.scope (CallSite.arg site 1)) with
      | .ok step =>
        Code.say (name ++ s!" done={step.done}")
        return .ok step.value
      | .error e => return .error e
    | _ => return throwText "not a generator"
  | .resumeNamed handle op =>
    whenKnown (Code.lookup "value" Session.values handle) fun v =>
      match v with
      | .generator g => do
        let state ← Script.ask (.generator g)
        Code.say (name ++ s!" running={state.isRunning} finished={state.finished}")
        match ← Script.act (.step g.body g op site.context site.scope (CallSite.arg site 0)) with
        | .ok step => return .ok step.value
        | .error e => return .error e
      | _ => return throwText "not a generator"
  | .probe => do return .ok (.text (probeText (← Code.context site.context) site.scope))
  | .abort reason => return .error (.aborted reason)
  | .fault f => return fromFault f
  | .newObject => do
    let parent := match CallSite.arg site 0 with
      | .object scope => some scope
      | _ => none
    return .ok (.object (← Script.ask (.scope (.create parent))))
  | .getProperty => whenProperty site fun scope key => do
    return .ok ((← Script.ask (.scope (.find scope key))).getD .undefined)
  | .setProperty => whenProperty site fun scope key => do
    Script.ask (.scope (.put scope key (CallSite.arg site 2)))
    return .ok (CallSite.arg site 2)
  | .deleteProperty => whenProperty site fun scope key => do
    return .ok (.bool (← Script.ask (.scope (.delete scope key))).isSome)
  | .scopeOfCall => return .ok (.object site.scope)
  | .setFrameLimit limit => do
    Script.ask (.context (.setFrameLimit site.context limit))
    return .ok .undefined
  | .setThreshold threshold => do
    Script.ask (.context (.setThreshold site.context threshold))
    return .ok .undefined
  | .exitContext => do
    match ← Script.act .exit with
    | .ok () => return .ok .undefined
    | .error e => return fromFault e
  | .enterContext factory =>
    whenKnown (Code.factory factory) fun f => do
      match ← Script.act (.enter f none) with
      | .ok c =>
        let cx ← Code.context c
        let same := c == site.context
        return .ok (.text s!"same={same} count={cx.enterCount}")
      | .error e => return fromFault e
  | .panic => Script.panic

end ScriptMachine.Embedding
