import ScriptMachine.Proofs.Structured.Evaluation
import ScriptMachine.Proofs.Tree.Layout

/-!
# The meaning of trees

Direct recursive evaluation of a source tree. The functions that a body declares are bound before
its other statements, in order: at the level of the script in the scope, inside a function among
its variables. A name means the first variable of that name and otherwise a name of the scope;
variables of functions around are out of reach. Operands, callees and arguments are evaluated from
left to right, and evaluation stops at an error and at a return.

Calls of functions of the tree are evaluated in the same way, within a number of calls that may be
under way; calls of host functions are described by a parameter.
-/

namespace ScriptMachine

variable {σ α β : Type}

/-- The variables of the body that is evaluated, and everything that is shared. -/
structure Env (σ : Type) where
  slots : List (String × Value)
  store : Store σ

/-- Why the evaluation of a body does not go on. -/
inductive Stop where
  | returned (v : Value)
  | abrupt (e : Abrupt)
  | silent (s : Silence)

/-- An evaluation. What it did before it stopped is not taken back. -/
def Eval (σ α : Type) : Type := Env σ → Except Stop α × Env σ

instance : Monad (Eval σ) where
  pure a := fun env => (.ok a, env)
  bind c next := fun env =>
    match c env with
    | (.ok a, env) => next a env
    | (.error s, env) => (.error s, env)

/-- Stop an evaluation. -/
def Eval.stop (s : Stop) : Eval σ α := fun env => (.error s, env)

/-- Apply an operator. -/
def Eval.operate (op : BinaryOp) (v w : Value) : Eval σ Value := fun env =>
  let (x, m) := env.store.flattening (Value.applyBinary op v w)
  (.ok x, { env with store := m })

/-- What is fixed while a body is evaluated: its own executable, of which its functions are made,
the scope, and what becomes of calls. -/
structure Body (σ : Type) where
  isStrict : Bool
  executable : Executable
  scope : Id .scope
  call : Calls σ

namespace Body

variable (b : Body σ)

/-- The value of a name. -/
def read (name : String) : Eval σ Value := fun env =>
  match env.slots.lookup name with
  | some v => (.ok v, env)
  | none =>
    match env.store.scopes.find? b.scope name with
    | some v => (.ok v, env)
    | none => (.error (.abrupt (.referenceError (name ++ " is not defined"))), env)

/-- Assign to a name. Strict code may not create one this way. -/
def write (name : String) (v : Value) : Eval σ Unit := fun env =>
  if (env.slots.lookup name).isSome then
    (.ok (), { env with slots := Scope.assign name v env.slots })
  else if b.isStrict && !env.store.scopes.has b.scope name then
    (.error (.abrupt (.referenceError ("assignment to undeclared variable " ++ name))), env)
  else
    (.ok (), { env with
      store := { env.store with scopes := env.store.scopes.put b.scope name v } })

/-- Bind a name in the scope itself. -/
def define (name : String) (v : Value) : Eval σ Unit := fun env =>
  (.ok (), { env with
    store := { env.store with scopes := env.store.scopes.define b.scope name v } })

/-- Call a value. -/
def apply (callee : Value) (args : List Value) : Eval σ Value := fun env =>
  match b.call callee b.scope .undefined args env.store with
  | (.gives (.ok v), m) => (.ok v, { env with store := m })
  | (.gives (.error e), m) => (.error (.abrupt e), { env with store := m })
  | (.silent s, m) => (.error (.silent s), { env with store := m })

/-- A new function made of a declaration, by its index. -/
def closure (index : Nat) : Eval σ Value := fun env =>
  let (id, m) := env.store.fresh .executable
  match b.executable.nested? id index with
  | some e => (.ok (.executable e), { env with store := m })
  | none =>
    (.error (.abrupt (.invalidArgument (.noNestedRoutine index))), { env with store := m })

mutual

/-- The value of an expression. Nodes that do not compile are of no interest. -/
def expression (n : Node) : Eval σ Value :=
  match n with
  | ⟨_, _, .number x, _⟩ => pure (.number x)
  | ⟨_, _, .text s, _⟩ => pure (.text s)
  | ⟨_, _, .ident name, _⟩ => b.read name
  | ⟨_, _, .assign name, value :: _⟩ => do
    let v ← expression value
    b.write name v
    return v
  | ⟨_, _, .binary op, left :: right :: _⟩ => do
    let v ← expression left
    let w ← expression right
    Eval.operate op v w
  | ⟨_, _, .call, callee :: args⟩ => do
    let v ← expression callee
    let vs ← expressions args
    b.apply v vs
  | _ => pure .undefined

/-- The values of several expressions. -/
def expressions (ns : List Node) : Eval σ (List Value) :=
  match ns with
  | [] => pure []
  | n :: rest => do
    let v ← expression n
    let vs ← expressions rest
    return v :: vs

end

mutual

/-- Carry out a statement. -/
def statement (n : Node) : Eval σ Unit :=
  match n with
  | ⟨_, _, .expressionStatement, value :: _⟩ => do
    let _ ← b.expression value
    return ()
  | ⟨_, _, .ret, value :: _⟩ => do
    let v ← b.expression value
    Eval.stop (.returned v)
  | ⟨_, _, .ret, []⟩ => Eval.stop (.returned .undefined)
  | ⟨_, _, .block, body⟩ => statements body
  | _ => pure ()

/-- Carry out several statements. -/
def statements (ns : List Node) : Eval σ Unit :=
  match ns with
  | [] => pure ()
  | n :: rest => do
    statement n
    statements rest

end

/-- Bind the name of a declared function. -/
def bindFunction (level : Compile.Level) (name : String) (v : Value) : Eval σ Unit :=
  match level with
  | .script => b.define name v
  | .function _ => b.write name v

/-- Bind the functions that a body declares, from an index on. -/
def bindFunctions (level : Compile.Level) : List String → Nat → Eval σ Unit
  | [], _ => pure ()
  | name :: rest, index => do
    let v ← b.closure index
    b.bindFunction level name v
    bindFunctions level rest (index + 1)

/-- Evaluate a body: its functions first and then its other statements. -/
def run (level : Compile.Level) (body : List Node) : Eval σ Unit := do
  b.bindFunctions level (Compile.declaredNames body) 0
  b.statements (body.filter (!Compile.isFunction ·))

end Body

/-! ## Calls -/

/-- What becomes of the call of a body that is evaluated like this. A body that does not return
gives undefined. -/
def Stop.callEnd : Except Stop Unit → CallEnd
  | .ok () => .gives (.ok .undefined)
  | .error (.returned v) => .gives (.ok v)
  | .error (.abrupt e) => .gives (.error e)
  | .error (.silent s) => .silent s

/-- Parameters take the arguments, and are undefined where there is none. -/
def bindParameters : List String → List Value → List (String × Value)
  | [], _ => []
  | name :: names, args => (name, args.headD .undefined) :: bindParameters names args.tail

/-- The variables that a body begins with. -/
def Compile.Level.slots (declared : List String) (args : List Value) :
    Compile.Level → List (String × Value)
  | .script => []
  | .function params => bindParameters params args ++ declared.map (·, .undefined)

/-- Evaluate a call of a body. -/
def Body.evaluate (b : Body σ) (level : Compile.Level) (body : List Node) (args : List Value)
    (m : Store σ) : CallEnd × Store σ :=
  let (r, env) := b.run level body ⟨level.slots (Compile.declaredNames body) args, m⟩
  (Stop.callEnd r, env.store)

/-- The functions that are declared in a body and in the functions declared there. -/
inductive Node.Declares (body : List Node) : Node → Prop
  | here {n : Node} (hn : n ∈ body) (h : Compile.isFunction n = true) : Declares body n
  | inner {f n : Node} (hf : Declares body f) (hn : n ∈ f.children)
      (h : Compile.isFunction n = true) : Declares body n

/-- Functions of a tree, told by which declaration they were compiled from. -/
structure SourceTree.Functions (strict : Bool) (t : SourceTree) where
  of? : Executable → Option Node
  declared : ∀ {e n}, of? e = some n → Node.Declares t.statements.toList n
  compiled : ∀ {e n}, of? e = some n → Compile.function strict n = .ok e.routine

namespace SourceTree

variable {strict : Bool} {t : SourceTree}

/-- All functions of a tree can be told. -/
theorem Functions.exists_all (strict : Bool) (t : SourceTree) :
    ∃ fs : t.Functions strict, ∀ e n, Node.Declares t.statements.toList n →
      Compile.function strict n = .ok e.routine → (fs.of? e).isSome := by
  classical
  let told (e : Executable) (n : Node) : Prop :=
    Node.Declares t.statements.toList n ∧ Compile.function strict n = .ok e.routine
  let of? (e : Executable) : Option Node := if h : ∃ n, told e n then some h.choose else none
  have hof {e : Executable} {n : Node} (h : of? e = some n) : told e n := by
    simp only [of?] at h
    split at h
    · next hexists =>
      cases h
      exact hexists.choose_spec
    · cases h
  refine ⟨⟨of?, fun h => (hof h).1, fun h => (hof h).2⟩, ?_⟩
  intro e n hdeclared hcompiled
  have hexists : ∃ n, told e n := ⟨n, hdeclared, hcompiled⟩
  simp only [of?, hexists, dif_pos, Option.isSome_some]

/-- What becomes of calls that the tree makes, while there is room for a number of frames more;
`others` answers for all callees that are no functions of the tree. -/
def calls (fs : t.Functions strict) (limit : Nat) (others : Calls σ) : Nat → Calls σ
  | 0 => .dispatch (fun _ _ _ _ m => (.gives (.error (.fault (.stackOverflow limit))), m)) others
  | room + 1 =>
    .dispatch
      (fun e scope receiver args m =>
        match fs.of? e with
        | some ⟨_, _, .function _ params, body⟩ =>
          let b : Body σ :=
            { isStrict := strict, executable := e, scope, call := calls fs limit others room }
          b.evaluate (.function params) body args m
        | _ => others (.executable e) scope receiver args m)
      others

/-- Evaluate a tree that was compiled to a script, which may have a number of frames. -/
def evaluate (fs : t.Functions strict) (e : Executable) (scope : Id .scope) (limit : Nat)
    (others : Calls σ) (m : Store σ) : CallEnd × Store σ :=
  let b : Body σ :=
    { isStrict := strict, executable := e, scope, call := calls fs limit others (limit - 1) }
  b.evaluate .script t.statements.toList [] m

end SourceTree

end ScriptMachine
