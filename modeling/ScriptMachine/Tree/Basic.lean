import ScriptMachine.Code.Instruction
import ScriptMachine.Fault
import ScriptMachine.Identity

/-!
# Source trees

A source tree has the statements of one script, and its comments apart from them. Comments are
kept in the order of their positions; among comments at one position the order is that of
addition. A comment points back at the tree that it was added to.
-/

namespace ScriptMachine

/-- What a node is. The children are, in order: for an expression statement and an assignment
the value; for a return the value, if there is one; for an operator its operands; for a call the
callee and the arguments; for a function and a block the statements. -/
inductive NodeKind where
  | expressionStatement
  | ret
  | block
  | function (name : String) (params : List String)
  | number (x : Float)
  | text (s : String)
  | ident (name : String)
  | assign (name : String)
  | binary (op : BinaryOp)
  | call
  deriving BEq, Repr

/-- The word for a kind in messages. -/
def NodeKind.word : NodeKind → String
  | .expressionStatement => "ExpressionStatement"
  | .ret => "Return"
  | .block => "Block"
  | .function _ _ => "nested function declaration"
  | .number x => "Number(" ++ Number.renderLiteral x ++ ")"
  | .text s => "Str(" ++ Text.quote s ++ ")"
  | .ident name => "Name(" ++ Text.quote name ++ ")"
  | .assign name => "Assign(" ++ Text.quote name ++ ")"
  | .binary op => "Binary(" ++ op.listing ++ ")"
  | .call => "Call"

/-- A node of a source tree, at an offset of the source. -/
structure Node where
  position : Nat
  length : Nat
  kind : NodeKind
  children : List Node
  deriving Repr

namespace Node

mutual

/-- Equality of all parts. Numbers are compared as numbers, so a node with a number that is not
a number differs from itself. -/
def same (n m : Node) : Bool :=
  match n, m with
  | ⟨position, length, kind, children⟩, ⟨position', length', kind', children'⟩ =>
    position == position' && length == length' && kind == kind' && sameAll children children'

/-- Equality of all parts of two lists of nodes. -/
def sameAll : List Node → List Node → Bool
  | [], [] => true
  | n :: ns, m :: ms => same n m && sameAll ns ms
  | _, _ => false

end

end Node

/-- How a comment is written. -/
inductive CommentStyle where
  | line
  | block
  | jsDoc
  | html
  deriving DecidableEq, Repr

/-- A comment, with its delimiters. -/
structure Comment where
  position : Nat
  length : Nat
  style : CommentStyle
  text : String
  /-- The tree it was added to. -/
  parent : Option (Id .tree) := none
  deriving DecidableEq, Repr

/-- The statements and comments of one script. -/
structure SourceTree where
  id : Id .tree
  /-- The offset at which the source starts. -/
  position : Nat := 0
  statements : Array Node := #[]
  /-- Absent until a comment is added. -/
  comments : Option (List Comment) := none

/-- Narrow the part of a list in which its elements stop passing a test, down to one element. -/
def narrow {α : Type} (p : α → Bool) (xs : List α) (base size : Nat) : Nat :=
  if 1 < size then
    let half := size / 2
    narrow p xs (if xs[base + half]?.any p then base + half else base) (size - half)
  else if xs[base]?.any p then base + 1 else base
termination_by size

/-- Where a list stops passing a test, found by bisection: all elements before that pass it if no
element behind a failing one does. -/
def partitionPoint {α : Type} (p : α → Bool) (xs : List α) : Nat := narrow p xs 0 xs.length

/-- Put a comment behind all comments that do not come after it. -/
def insertComment (c : Comment) (comments : List Comment) : List Comment :=
  comments.insertIdx (partitionPoint (·.position ≤ c.position) comments) c

namespace SourceTree

/-- Add a statement at the end. -/
def addStatement (t : SourceTree) (n : Node) : SourceTree :=
  { t with statements := t.statements.push n }

/-- Add a comment, which from then on belongs to this tree. -/
def addComment (t : SourceTree) (c : Comment) : SourceTree :=
  { t with comments := some (insertComment { c with parent := some t.id } (t.comments.getD [])) }

/-- Replace all comments. Without a list the comments become absent; an empty list empties them
if there are any and leaves them absent otherwise. -/
def setComments (t : SourceTree) : Option (List Comment) → SourceTree
  | none => { t with comments := none }
  | some comments => comments.foldl addComment { t with comments := t.comments.map fun _ => [] }

/-- A copy with an identity of its own, to which its comments belong. -/
def copy (t : SourceTree) (id : Id .tree) : SourceTree :=
  { t with id, comments := t.comments.map (·.map fun c => { c with parent := some id }) }

/-- Check that every comment belongs to this tree. -/
def checkComments (t : SourceTree) : Except Fault Unit :=
  match (t.comments.getD []).find? (·.parent != some t.id) with
  | some stray => .error (.illegalState (.strayComment stray.position))
  | none => .ok ()

end SourceTree

end ScriptMachine
