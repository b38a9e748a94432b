import ScriptMachine.Embedding.Request.Routines

/-!
# Requests about source trees
-/

namespace ScriptMachine.Embedding

/-- A comment that is spelled out, or that another tree has. -/
inductive CommentSource where
  | spelled (c : Comment)
  | copied (tree : String) (index : Nat)

/-- Which parts of a tree are walked. -/
inductive WalkMode where
  | statements
  | comments
  | all
  | statement (index : Nat)

/-- Something to do with a tree. -/
inductive TreeAction where
  | addStatement (n : Node)
  | addComment (c : CommentSource)
  | setComments (cs : Option (List CommentSource))
  | comments
  | checkComments
  | copy (keep : Option String)
  /-- Walk and list what was seen. Below a thing that the test rejects nothing is looked at. -/
  | walk (mode : WalkMode) (goesOn : Sight → Bool)
  | compile (isStrict brief : Bool) (keep : Option String)
  /-- Compile and make a script for the current context. -/
  | create (isStrict : Bool) (domain context keep : Option String)

/-- A request about source trees. -/
inductive TreeRequest where
  | create (tree : String) (position : Nat) (statements : List Node)
      (comments : List CommentSource)
  | act (tree : String) (a : TreeAction)

namespace TreeRequest

open Attempt

/-- The tree with a name. -/
def tree (name : String) : Attempt SourceTree := find "root" Session.trees name

/-- Give a name to a tree, if there is one. -/
def keepTree : Option String → SourceTree → Attempt Unit :=
  keep fun f s => { s with trees := f s.trees }

/-- The comment that is meant. -/
def comment : CommentSource → Attempt Comment
  | .spelled c => return c
  | .copied name index => do
    match ((← tree name).comments.getD [])[index]? with
    | some c => return c
    | none => throw (.missing ⟨"comment", toString index⟩)

/-- A visitor that lists what it sees, last first. -/
def lister (goesOn : Sight → Bool) : Visitor (List Sight) := fun sight => do
  modify (sight :: ·)
  return goesOn sight

/-- Walk through a part of a tree, listing what is seen. -/
def walk (t : SourceTree) (mode : WalkMode) (v : Visitor (List Sight)) : Attempt (List Sight) :=
  match mode with
  | .statements => return t.walk v []
  | .comments => return t.walkComments v []
  | .all => return t.walkAll v []
  | .statement index =>
    match t.statements[index]? with
    | some n => return n.walk v []
    | none => throw (.missing ⟨"statement", toString index⟩)

/-- The compiled tree. -/
def compiled (t : SourceTree) (isStrict : Bool) : Attempt SharedRoutine :=
  match t.compile isStrict with
  | .ok r => ask (.code (.share r))
  | .error e => throw (.compile e)

/-- Change a tree and show its comments. -/
def changed (name : String) (t : SourceTree) : Attempt (Answer Record) := do
  keepTree (some name) t
  return .comments (viewComments t)

/-- Do something with a tree. -/
def carryOut (name : String) (t : SourceTree) : TreeAction → Attempt (Answer Record)
  | .addStatement n => do
    let t := t.addStatement n
    keepTree (some name) t
    return .integer t.statements.size
  | .addComment c => do changed name (t.addComment (← comment c))
  | .setComments cs => do changed name (t.setComments (← cs.mapM (·.mapM comment)))
  | .comments => return .comments (viewComments t)
  | .checkComments => do
    unlessFault t.checkComments
    return .nothing
  | .copy keep => do
    let copy := t.copy (← ask .newTree)
    keepTree keep copy
    let sameStatements := Node.sameAll copy.statements.toList t.statements.toList
    return .treeCopy (copy.id == t.id) sameStatements copy
  | .walk mode goesOn => do return .sights (← walk t mode (lister goesOn)).reverse
  | .compile isStrict brief keep => do
    let r ← compiled t isStrict
    RoutineRequest.keepRoutine keep r
    return if brief then .outline r.routine else .routine r.routine
  | .create isStrict domain context? keep => do
    let _ ← context context?
    let r ← compiled t isStrict
    match ← ask (.code (.create .script r (domain.map .text))) with
    | .ok e =>
      RoutineRequest.keepExecutable keep e
      return .executable e
    | .error f => throw (.uncreated f)

/-- Carry out the request. -/
def perform : TreeRequest → Attempt (Answer Record)
  | create name position statements comments => do
    let comments ← comments.mapM comment
    let t : SourceTree := { id := ← ask .newTree, position, statements := statements.toArray }
    let t := comments.foldl SourceTree.addComment t
    keepTree (some name) t
    return .tree t
  | act name a => do carryOut name (← tree name) a

end TreeRequest

end ScriptMachine.Embedding
