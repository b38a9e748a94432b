import ScriptMachine.Store.Basic

/-!
# Views for developers

One-line texts about the state of things, as they appear in debug output.
-/

namespace ScriptMachine

/-- A rope, with the text that is remembered for each concatenation. -/
def Rope.inspect (texts : FlatTexts) : Rope → String
  | .flat s => "Str(" ++ Text.quote s ++ ")"
  | .join id left right =>
    let flat := match texts.get id with
      | some s => "OnceCell(" ++ Text.quote s ++ ")"
      | none => "OnceCell(Uninit)"
    "Cons(ConsString \x7b left: " ++ left.inspect texts ++ ", right: " ++ right.inspect texts ++
      s!", length: {(Rope.join id left right).byteLength}, flat: " ++ flat ++ " \x7d)"

/-- A value, with the state of what it refers to. -/
def Value.inspect {σ : Type} (m : Store σ) : Value → String
  | .undefined => "Undefined"
  | .null => "Null"
  | .bool b => s!"Bool({b})"
  | .number x => "Number(" ++ Number.renderLiteral x ++ ")"
  | .string s => s.inspect m.texts
  | .object scope => "Object(" ++ (m.scopes.get scope).inspect ++ ")"
  | .executable e => "Function(" ++ e.inspect ++ ")"
  | .hostFunction f => "Native(NativeFunction \x7b name: " ++ Text.quote f.name ++ ", .. \x7d)"
  | .generator g => "Generator(" ++ (m.generators.get g.id).inspect g ++ ")"

/-- A context, with texts for its identity and for that of its thread. -/
def Context.inspect (c : Context) (identity : String) (thread : Id .thread → String) : String :=
  let bound := match c.boundTo with
    | some t => "Some(ThreadId(" ++ thread t ++ "))"
    | none => "None"
  let version := match c.version with
    | .unspecified => "Unspecified"
    | .es6 => "Es6"
  "Context \x7b id: " ++ identity ++ ", bound_thread: " ++ bound ++
    s!", enter_count: {c.enterCount}, language_version: " ++ version ++
    s!", top_call: {c.topCall.isSome}, .. \x7d"

/-- A continuation, with a text for its identity. -/
def CaptureState.inspect (s : CaptureState) (identity : String) : String :=
  "Continuation \x7b id: " ++ identity ++ ", state: " ++ Text.quote s.word ++ " \x7d"

/-- A capture, with the state of its continuation and a text for its identity. -/
def Pending.inspect (p : Pending) (s : CaptureState) (identity : String) : String :=
  "ContinuationPending \x7b continuation: " ++ s.inspect identity ++
    s!", has_application_state: {p.state.isSome} \x7d"

end ScriptMachine
