import ScriptMachine.Code.Routine

/-!
# Assembling routines

An assembler collects declarations and instructions. Jumps and try statements may refer to
labels, which are marked before or after their use; `Assembler.build` puts the marked positions
in place of the labels and validates the result.
-/

namespace ScriptMachine

/-- A code position that is still to be marked. -/
structure Label where
  index : Nat
  deriving DecidableEq, Repr

/-- Which operand of an instruction a label stands for. -/
inductive Operand where
  | target
  | catchAt
  | finallyAt
  deriving DecidableEq, Repr

/-- An operand that waits for its label. -/
structure Fixup where
  position : Nat
  operand : Operand
  label : Label
  deriving DecidableEq, Repr

/-- Why a routine could not be built. -/
inductive BuildError where
  | unmarkedLabel (label : Label)
  | defect (d : Defect)
  deriving DecidableEq, Repr

/-- The wording of a build error. -/
def BuildError.message : BuildError → String
  | .unmarkedLabel label => s!"label {label.index} was never marked"
  | .defect d => d.message

/-- A routine under construction. Parameters and variables are collected apart, so that the
parameters come first whatever the order of declarations. -/
structure Assembler where
  kind : RoutineKind
  name : Option String
  isGenerator : Bool := false
  isStrict : Bool := false
  isExpression : Bool := false
  params : Array String := #[]
  /-- Variables, each with whether it is constant. -/
  vars : Array (String × Bool) := #[]
  nested : Array Routine := #[]
  code : Array Instruction := #[]
  /-- The marked position of each label. -/
  labels : Array (Option Nat) := #[]
  /-- In order of use. -/
  fixups : Array Fixup := #[]

namespace Assembler

/-- Start a script. -/
def script : Assembler := { kind := .script, name := none }

/-- Start a function with a name. -/
def function (name : String) : Assembler := { kind := .function, name := some name }

/-- Start a function without a name. -/
def anonymous : Assembler := { kind := .function, name := none }

/-- Declare a parameter. It goes behind the parameters declared so far and in front of all
variables. -/
def param (a : Assembler) (name : String) : Assembler := { a with params := a.params.push name }

/-- Declare a variable. -/
def var (a : Assembler) (name : String) : Assembler :=
  { a with vars := a.vars.push (name, false) }

/-- Declare a constant. -/
def const (a : Assembler) (name : String) : Assembler :=
  { a with vars := a.vars.push (name, true) }

/-- Make the code strict. -/
def strict (a : Assembler) : Assembler := { a with isStrict := true }

/-- Make the routine a generator. -/
def generator (a : Assembler) : Assembler := { a with isGenerator := true }

/-- Mark the routine as written as an expression. -/
def expression (a : Assembler) : Assembler := { a with isExpression := true }

/-- Add a nested routine; its index is the number of those added before. -/
def nest (a : Assembler) (f : Routine) : Assembler := { a with nested := a.nested.push f }

/-- The position of the next instruction. -/
def position (a : Assembler) : Nat := a.code.size

/-- Add an instruction. -/
def emit (a : Assembler) (i : Instruction) : Assembler := { a with code := a.code.push i }

/-- Add several instructions. -/
def emitAll (a : Assembler) (is : List Instruction) : Assembler := is.foldl emit a

/-- A new label. -/
def newLabel (a : Assembler) : Label × Assembler :=
  (⟨a.labels.size⟩, { a with labels := a.labels.push none })

/-- Let a label stand for the position of the next instruction. -/
def mark (a : Assembler) (label : Label) : Assembler :=
  { a with labels := a.labels.modify label.index fun _ => some a.position }

/-- Have an operand of the next instruction wait for a label. -/
def await (a : Assembler) (operand : Operand) (label : Label) : Assembler :=
  { a with fixups := a.fixups.push ⟨a.position, operand, label⟩ }

/-- Jump to a label. -/
def jump (a : Assembler) (label : Label) : Assembler := (a.await .target label).emit (.jump 0)

/-- Jump to a label if the popped value is falsy. -/
def jumpIfFalse (a : Assembler) (label : Label) : Assembler :=
  (a.await .target label).emit (.jumpIfFalse 0)

/-- Enter a try statement whose handlers are at labels. -/
def enterTry (a : Assembler) (catchAt finallyAt : Option Label) : Assembler :=
  let a := match catchAt with
    | some label => a.await .catchAt label
    | none => a
  let a := match finallyAt with
    | some label => a.await .finallyAt label
    | none => a
  a.emit (.enterTry (catchAt.map fun _ => 0) (finallyAt.map fun _ => 0))

end Assembler

/-- Put a code position in place of an operand. An instruction without that operand stays as it
is. -/
def Instruction.patch (i : Instruction) (operand : Operand) (target : Nat) : Instruction :=
  match i, operand with
  | .jump _, .target => .jump target
  | .jumpIfFalse _, .target => .jumpIfFalse target
  | .enterTry (some _) finallyAt, .catchAt => .enterTry (some target) finallyAt
  | .enterTry catchAt (some _), .finallyAt => .enterTry catchAt (some target)
  | i, _ => i

namespace Assembler

/-- Put positions in place of the labels, in order of use; the first label that was never
marked is an error. -/
def resolve (labels : Array (Option Nat)) (code : Array Instruction) :
    List Fixup → Except BuildError (Array Instruction)
  | [] => .ok code
  | fixup :: rest =>
    match labels[fixup.label.index]?.join with
    | none => .error (.unmarkedLabel fixup.label)
    | some target =>
      resolve labels (code.modify fixup.position (·.patch fixup.operand target)) rest

/-- The routine with this code. -/
def routine (a : Assembler) (code : Array Instruction) : Routine :=
  { name := a.name
    kind := a.kind
    isGenerator := a.isGenerator
    isStrict := a.isStrict
    isExpression := a.isExpression
    paramCount := a.params.size
    names := a.params ++ a.vars.map (·.1)
    isConst := Array.replicate a.params.size false ++ a.vars.map (·.2)
    code
    nested := a.nested.toList }

/-- Accept a routine that is valid. -/
def accept (r : Routine) : Except BuildError Routine :=
  match r.defect? with
  | some d => .error (.defect d)
  | none => .ok r

/-- Finish the routine. -/
def build (a : Assembler) : Except BuildError Routine :=
  match resolve a.labels a.code a.fixups.toList with
  | .error e => .error e
  | .ok code => accept (a.routine code)

theorem accept_eq_ok_iff {r r' : Routine} : accept r = .ok r' ↔ r.Valid ∧ r = r' := by
  unfold accept Routine.Valid
  split <;> simp_all

theorem valid_of_build {a : Assembler} {r : Routine} (h : a.build = .ok r) : r.Valid := by
  unfold build at h
  split at h
  · exact absurd h (by simp)
  · obtain ⟨hv, rfl⟩ := accept_eq_ok_iff.mp h
    exact hv

end Assembler

end ScriptMachine
