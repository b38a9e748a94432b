import ScriptMachine.Code.Assembler

/-!
# Drafts

A draft is a routine on paper: declarations, code with named labels, and the drafts nested in
it. `Draft.build` hands it to an assembler in a fixed order, so the first mistake in that order is
the one that is reported. A revision changes the tables of a routine that was built, without
looking at whether it is still valid.
-/

namespace ScriptMachine.Embedding

/-- A line of a draft. A label is made where its name is first mentioned. -/
inductive Line where
  | emit (i : Instruction)
  | mark (label : String)
  | newLabel (label : String)
  | jump (label : String)
  | jumpIfFalse (label : String)
  | enterTry (catchAt finallyAt : Option String)

/-- What is declared. -/
inductive Declaration where
  | param (name : String)
  | var (name : String)
  | const (name : String)

/-- How a routine is begun. -/
inductive Opening where
  | script
  | function (name : String)
  | anonymous

/-- Changes to the tables of a routine. -/
structure Revision where
  paramCount : Option Nat := none
  isConst : Option (List Bool) := none
  kind : Option RoutineKind := none
  isGenerator : Option Bool := none
  /-- How many of the last nested routines are dropped. -/
  dropNested : Nat := 0

/-- A routine with the changes made. -/
def Revision.apply (v : Revision) (r : Routine) : Routine :=
  { r with
    paramCount := v.paramCount.getD r.paramCount
    isConst := (v.isConst.map List.toArray).getD r.isConst
    kind := v.kind.getD r.kind
    isGenerator := v.isGenerator.getD r.isGenerator
    nested := r.nested.take (r.nested.length - v.dropNested) }

/-- A routine on paper. -/
structure Draft where
  opening : Opening
  declarations : List Declaration := []
  isStrict : Bool := false
  isGenerator : Bool := false
  isExpression : Bool := false
  nested : List Draft := []
  code : List Line := []
  revision : Revision := {}

/-- An assembler and the labels by name. -/
structure Labelled where
  assembler : Assembler
  labels : List (String × Label) := []

namespace Labelled

/-- Make a label for a name. -/
def create (l : Labelled) (name : String) : Label × Labelled :=
  let (label, assembler) := l.assembler.newLabel
  (label, { assembler, labels := (name, label) :: l.labels })

/-- The label with a name, made if it is new. -/
def label (l : Labelled) (name : String) : Label × Labelled :=
  match l.labels.lookup name with
  | some label => (label, l)
  | none => l.create name

/-- The label with a name, if there is a name. -/
def label? (l : Labelled) : Option String → Option Label × Labelled
  | some name =>
    let (label, l) := l.label name
    (some label, l)
  | none => (none, l)

/-- Change the assembler. -/
def modify (l : Labelled) (f : Assembler → Assembler) : Labelled :=
  { l with assembler := f l.assembler }

/-- Add a line. -/
def add (l : Labelled) : Line → Labelled
  | .emit i => l.modify (·.emit i)
  | .mark name =>
    let (label, l) := l.label name
    l.modify (·.mark label)
  | .newLabel name => (l.label name).2
  | .jump name =>
    let (label, l) := l.label name
    l.modify (·.jump label)
  | .jumpIfFalse name =>
    let (label, l) := l.label name
    l.modify (·.jumpIfFalse label)
  | .enterTry catchAt finallyAt =>
    let (catchAt, l) := l.label? catchAt
    let (finallyAt, l) := l.label? finallyAt
    l.modify (·.enterTry catchAt finallyAt)

end Labelled

/-- Begin a routine. -/
def Opening.assembler : Opening → Assembler
  | .script => .script
  | .function name => .function name
  | .anonymous => .anonymous

/-- Declare something. -/
def Declaration.addTo (a : Assembler) : Declaration → Assembler
  | .param name => a.param name
  | .var name => a.var name
  | .const name => a.const name

namespace Draft

mutual

/-- Build the routine: declarations, flags, nested drafts, code. -/
def build : Draft → Except BuildError Routine
  | ⟨opening, declarations, strict, generator, expression, nested, code, revision⟩ =>
    let a := declarations.foldl Declaration.addTo opening.assembler
    let a := if strict then a.strict else a
    let a := if generator then a.generator else a
    let a := if expression then a.expression else a
    match nestAll a nested with
    | .error e => .error e
    | .ok a => (code.foldl Labelled.add { assembler := a }).assembler.build.map revision.apply

/-- Build some drafts and nest them. -/
def nestAll (a : Assembler) : List Draft → Except BuildError Assembler
  | [] => .ok a
  | d :: rest =>
    match build d with
    | .error e => .error e
    | .ok r => nestAll (a.nest r) rest

end

end Draft

end ScriptMachine.Embedding
