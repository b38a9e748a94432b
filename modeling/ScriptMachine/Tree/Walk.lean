import ScriptMachine.Tree.Basic

/-!
# Walking a source tree

A visitor looks at one thing after the other, may remember what it saw, and answers for each
whether to go on to the children. Nodes are visited before their children and children from left
to right. Comments are visited only when they are asked for.
-/

namespace ScriptMachine

/-- What a visitor looks at. -/
inductive Sight where
  | tree (t : SourceTree)
  | node (n : Node)
  | comment (c : Comment)

/-- A visitor with a memory of type `ω`. -/
abbrev Visitor (ω : Type) := Sight → StateM ω Bool

namespace Node

mutual

/-- Number of nodes of a tree. -/
def size : Node → Nat
  | ⟨_, _, _, children⟩ => sizeAll children + 1

/-- Number of nodes of several trees. -/
def sizeAll : List Node → Nat
  | [] => 0
  | n :: rest => n.size + sizeAll rest

end

theorem sizeAll_append (ns ms : List Node) : sizeAll (ns ++ ms) = sizeAll ns + sizeAll ms := by
  induction ns with
  | nil => simp [sizeAll]
  | cons n rest ih => simp only [List.cons_append, sizeAll, ih, Nat.add_assoc]

theorem sizeAll_reverse (ns : List Node) : sizeAll ns.reverse = sizeAll ns := by
  induction ns with
  | nil => rfl
  | cons n rest ih =>
    rw [List.reverse_cons, sizeAll_append, ih, sizeAll, sizeAll, sizeAll, Nat.add_zero,
      Nat.add_comm]

theorem size_eq (n : Node) : n.size = sizeAll n.children + 1 := by
  cases n
  rw [size]

/-- Visit pending nodes, the last one first; the children of a node are put behind its siblings in
reverse, so that they come next, in order. -/
def walkPending {ω : Type} (v : Visitor ω) (pending : Array Node) (w : ω) : ω :=
  match _ : pending.back? with
  | none => w
  | some n =>
    match v (.node n) w with
    | (true, w) => walkPending v (pending.pop ++ n.children.reverse) w
    | (false, w) => walkPending v pending.pop w
termination_by sizeAll pending.toList
decreasing_by all_goals
  obtain ⟨rest, rfl⟩ := Array.back?_eq_some_iff.mp ‹_›
  simp [sizeAll_append, sizeAll_reverse, sizeAll, size_eq]

/-- Visit a node and what is below it. -/
def walk {ω : Type} (v : Visitor ω) (n : Node) (w : ω) : ω := walkPending v #[n] w

end Node

namespace SourceTree

variable {ω : Type}

/-- Visit the tree and then its statements. -/
def walk (v : Visitor ω) (t : SourceTree) (w : ω) : ω :=
  match v (.tree t) w with
  | (true, w) => t.statements.foldl (fun w n => n.walk v w) w
  | (false, w) => w

/-- Visit the comments, in order. -/
def walkComments (v : Visitor ω) (t : SourceTree) (w : ω) : ω :=
  (t.comments.getD []).foldl (fun w c => (v (.comment c) w).2) w

/-- Visit the tree, its statements and then its comments. -/
def walkAll (v : Visitor ω) (t : SourceTree) (w : ω) : ω := t.walkComments v (t.walk v w)

end SourceTree

end ScriptMachine
