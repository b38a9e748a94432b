import ScriptMachine.Tree.Basic

/-!
# Compiling source trees

Statements and expressions become instructions for the stack machine. The functions declared in
a body are bound before its other statements run: in the scope at the level of the script, in
local slots inside a function. Inside a function a name means the first parameter or declared
function of that name, and otherwise a name of the scope; slots of functions around it are out
of reach.
-/

namespace ScriptMachine

/-- What is missing or too much in a node. -/
inductive Malformation where
  | missingOperand (index : Nat)
  | noCallee
  | tooManyArguments
  deriving DecidableEq, Repr

/-- The wording of a malformation. -/
def Malformation.message : Malformation → String
  | .missingOperand index => s!"missing operand {index}"
  | .noCallee => "call without a callee"
  | .tooManyArguments => "too many arguments"

/-- Why a tree could not be compiled. -/
inductive CompileError where
  | unsupported (kind : NodeKind) (position : Nat)
  | malformed (kind : NodeKind) (position : Nat) (m : Malformation)
  | tooManyFunctions
  | build (e : BuildError)

/-- The wording of a compile error. -/
def CompileError.message : CompileError → String
  | .unsupported kind position => "Unsupported " ++ kind.word ++ s!" at offset {position}"
  | .malformed kind position m =>
    "Malformed " ++ kind.word ++ s!" at offset {position}: " ++ m.message
  | .tooManyFunctions => "Malformed function at offset 0: too many nested functions"
  | .build e => (Fault.invalidArgument (.build e)).message

/-- How many values an operand of an instruction can have. -/
def operandRange : Nat := UInt16.size

/-- A number as an operand of an instruction, if it fits. -/
def operand? (n : Nat) : Option UInt16 := if n < operandRange then some (UInt16.ofNat n) else none

namespace Compile

/-- The names of the local slots of a body; a body at the level of the script has none. -/
abbrev Locals := List String

/-- The slot of a name: that of its first occurrence, if the slot can be addressed. -/
def slot? (locals : Locals) (name : String) : Option UInt16 :=
  (locals.findIdx? (· == name)).bind operand?

/-- Push the value of a name. -/
def loadName (locals : Locals) (name : String) : Instruction :=
  match slot? locals name with
  | some slot => .loadLocal slot
  | none => .loadName name

/-- Pop into a name. -/
def storeName (locals : Locals) (name : String) : Instruction :=
  match slot? locals name with
  | some slot => .storeLocal slot
  | none => .storeName name

mutual

/-- Add the instructions of an expression. -/
def expression (locals : Locals) (n : Node) (a : Assembler) : Except CompileError Assembler :=
  match n with
  | ⟨_, _, .number x, _⟩ => .ok (a.emit (.number x))
  | ⟨_, _, .text s, _⟩ => .ok (a.emit (.text s))
  | ⟨_, _, .ident name, _⟩ => .ok (a.emit (loadName locals name))
  | ⟨_, _, .assign name, value :: _⟩ =>
    match expression locals value a with
    | .error e => .error e
    | .ok a => .ok ((a.emit .dup).emit (storeName locals name))
  | ⟨_, _, .binary op, left :: right :: _⟩ =>
    match expression locals left a with
    | .error e => .error e
    | .ok a =>
      match expression locals right a with
      | .error e => .error e
      | .ok a => .ok (a.emit (.binary op))
  | ⟨position, _, .binary op, [left]⟩ =>
    match expression locals left a with
    | .error e => .error e
    | .ok _ => .error (.malformed (.binary op) position (.missingOperand 1))
  | ⟨position, _, .call, callee :: args⟩ =>
    match operand? args.length with
    | none => .error (.malformed .call position .tooManyArguments)
    | some count =>
      match expression locals callee a with
      | .error e => .error e
      | .ok a =>
        match expressions locals args (a.emit .undefined) with
        | .error e => .error e
        | .ok a => .ok (a.emit (.call count))
  | ⟨position, _, .assign name, []⟩ =>
    .error (.malformed (.assign name) position (.missingOperand 0))
  | ⟨position, _, .binary op, []⟩ =>
    .error (.malformed (.binary op) position (.missingOperand 0))
  | ⟨position, _, .call, []⟩ => .error (.malformed .call position .noCallee)
  | ⟨position, _, kind, _⟩ => .error (.unsupported kind position)

/-- Add the instructions of several expressions. -/
def expressions (locals : Locals) (ns : List Node) (a : Assembler) :
    Except CompileError Assembler :=
  match ns with
  | [] => .ok a
  | n :: rest =>
    match expression locals n a with
    | .error e => .error e
    | .ok a => expressions locals rest a

end

mutual

/-- Add the instructions of a statement. -/
def statement (locals : Locals) (n : Node) (a : Assembler) : Except CompileError Assembler :=
  match n with
  | ⟨_, _, .expressionStatement, value :: _⟩ =>
    match expression locals value a with
    | .error e => .error e
    | .ok a => .ok (a.emit .pop)
  | ⟨position, _, .expressionStatement, []⟩ =>
    .error (.malformed .expressionStatement position (.missingOperand 0))
  | ⟨_, _, .ret, value :: _⟩ =>
    match expression locals value a with
    | .error e => .error e
    | .ok a => .ok (a.emit .ret)
  | ⟨_, _, .ret, []⟩ => .ok ((a.emit .undefined).emit .ret)
  | ⟨_, _, .block, body⟩ => statements locals body a
  | ⟨position, _, kind, _⟩ => .error (.unsupported kind position)

/-- Add the instructions of several statements. -/
def statements (locals : Locals) (ns : List Node) (a : Assembler) :
    Except CompileError Assembler :=
  match ns with
  | [] => .ok a
  | n :: rest =>
    match statement locals n a with
    | .error e => .error e
    | .ok a => statements locals rest a

end

/-- Whether a node declares a function. -/
def isFunction (n : Node) : Bool :=
  match n.kind with
  | .function _ _ => true
  | _ => false

/-- Where the functions of a body are bound. -/
inductive Level where
  /-- In the scope. -/
  | script
  /-- In local slots, behind the parameters. -/
  | function (params : List String)

/-- The local slots of a body that declares these functions. -/
def Level.locals (level : Level) (declared : Array String) : Locals :=
  match level with
  | .script => []
  | .function params => params ++ declared.toList

/-- Bind the declared functions, in order. -/
def bindFunctions (level : Level) (locals : Locals) :
    List String → Nat → Assembler → Except CompileError Assembler
  | [], _, a => .ok a
  | name :: rest, index, a =>
    match operand? index with
    | none => .error .tooManyFunctions
    | some operand =>
      let bind := match level with
        | .script => .defineName name
        | .function _ => storeName locals name
      bindFunctions level locals rest (index + 1) ((a.emit (.closure operand)).emit bind)

/-- Finish a body whose declared functions are nested already. -/
def finish (level : Level) (body : List Node) (a : Assembler) (declared : Array String) :
    Except CompileError Routine :=
  let locals := level.locals declared
  match bindFunctions level locals declared.toList 0 a with
  | .error e => .error e
  | .ok a =>
    match statements locals (body.filter (!isFunction ·)) a with
    | .error e => .error e
    | .ok a =>
      match a.build with
      | .error e => .error (.build e)
      | .ok r => .ok r

/-- Start a routine with parameters, strict or not. -/
def startRoutine (strict : Bool) (params : List String) (a : Assembler) : Assembler :=
  params.foldl Assembler.param (if strict then a.strict else a)

/-- Compile the functions that a body declares and nest them; inside a function each gets a
slot. Answers their names, in order. -/
def nestFunctions (strict : Bool) (level : Level) (body : List Node) (a : Assembler)
    (declared : Array String) : Except CompileError (Assembler × Array String) :=
  match body with
  | [] => .ok (a, declared)
  | ⟨_, _, .function name params, children⟩ :: rest =>
    let inner := startRoutine strict params (.function name)
    match nestFunctions strict (.function params) children inner #[] with
    | .error e => .error e
    | .ok (inner, names) =>
      match finish (.function params) children inner names with
      | .error e => .error e
      | .ok r =>
        let a := match level with
          | .script => a.nest r
          | .function _ => (a.nest r).var name
        nestFunctions strict level rest a (declared.push name)
  | _ :: rest => nestFunctions strict level rest a declared

end Compile

/-- Compile a tree to a script. -/
def SourceTree.compile (strict : Bool) (t : SourceTree) : Except CompileError Routine :=
  let body := t.statements.toList
  match Compile.nestFunctions strict .script body (Compile.startRoutine strict [] .script) #[] with
  | .error e => .error e
  | .ok (a, declared) => Compile.finish .script body a declared

end ScriptMachine
