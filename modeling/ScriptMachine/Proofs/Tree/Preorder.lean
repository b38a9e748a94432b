import ScriptMachine.Proofs.Tree.Comments
import ScriptMachine.Tree.Walk

/-!
# Walks are recursive

A walk keeps the nodes that are still to be visited on a stack. What it visits is what a recursive
walk visits: a thing, and if the visitor answers so, what is below it from left to right, before
anything beside it. Every visit has an address, which is the path to what was visited; a walk visits
exactly the addresses whose parents were visited with the answer to go on, in the order of the
source (`Visit.InPreorder`).
-/

namespace ScriptMachine

variable {ω : Type}

/-! ## The recursive walk -/

/-- A visit: the path to the visited thing, the thing, and whether the visitor goes on below it. -/
structure Visit where
  address : List Nat
  sight : Sight
  goesOn : Bool

namespace Visit

/-- The visit, as one at the child with the given index. -/
def under (i : Nat) (x : Visit) : Visit := { x with address := i :: x.address }

/-- What a visitor notices. -/
def entry (x : Visit) : Sight × Bool := (x.sight, x.goesOn)

/-- Visit a thing, and then what is below it if the visitor goes on. -/
def first (v : Visitor ω) (s : Sight) (below : ω → List Visit × ω) (w : ω) : List Visit × ω :=
  match v s w with
  | (true, w) => (⟨[], s, true⟩ :: (below w).1, (below w).2)
  | (false, w) => ([⟨[], s, false⟩], w)

end Visit

namespace Node

mutual

/-- The visits to a node and what is below it. -/
def visits (v : Visitor ω) : Node → ω → List Visit × ω
  | ⟨position, length, kind, children⟩ =>
    Visit.first v (.node ⟨position, length, kind, children⟩) (visitsFrom v 0 children)

/-- The visits to the children from the given index on. -/
def visitsFrom (v : Visitor ω) (i : Nat) : List Node → ω → List Visit × ω
  | [], w => ([], w)
  | n :: rest, w =>
    ((n.visits v w).1.map (Visit.under i) ++ (visitsFrom v (i + 1) rest (n.visits v w).2).1,
      (visitsFrom v (i + 1) rest (n.visits v w).2).2)

end

theorem visits_eq (v : Visitor ω) (n : Node) :
    n.visits v = Visit.first v (.node n) (visitsFrom v 0 n.children) := by
  cases n
  rw [visits]

end Node

/-- The visits to a tree and its statements. -/
def SourceTree.visits (v : Visitor ω) (t : SourceTree) : ω → List Visit × ω :=
  Visit.first v (.tree t) (Node.visitsFrom v 0 t.statements.toList)

/-! ## The stack -/

namespace Node

variable (v : Visitor ω) {w w' : ω} {n : Node}

theorem walkPending_empty (w : ω) : walkPending v #[] w = w := by
  rw [walkPending]
  rfl

theorem walkPending_push (n : Node) (pending : Array Node) (w : ω) :
    walkPending v (pending.push n) w = walkPending v
      (if (v (.node n) w).1 then pending ++ n.children.reverse else pending) (v (.node n) w).2 := by
  rw [walkPending]
  split
  · next h => simp at h
  · next m h =>
    obtain rfl : n = m := by simpa using h
    rw [Array.pop_push]
    split <;> next heq => simp [heq]

/-- What holds of a node if it holds of its children holds of all nodes. -/
theorem induct {motive : Node → Prop} (step : ∀ n, (∀ c ∈ n.children, motive c) → motive n) :
    ∀ n, motive n
  | ⟨position, length, kind, children⟩ =>
    step ⟨position, length, kind, children⟩ fun c _ => induct step c

theorem visitsFrom_nil (i : Nat) (w : ω) : visitsFrom v i [] w = ([], w) := by rw [visitsFrom]

theorem visitsFrom_cons (i : Nat) (n : Node) (rest : List Node) (w : ω) :
    visitsFrom v i (n :: rest) w =
      ((n.visits v w).1.map (Visit.under i) ++ (visitsFrom v (i + 1) rest (n.visits v w).2).1,
        (visitsFrom v (i + 1) rest (n.visits v w).2).2) := by
  rw [visitsFrom]

/-- To finish the nodes of a list, which were put on the stack in reverse, is to visit them one
after the other. -/
theorem walkPending_append_reverse {ns : List Node}
    (h : ∀ n ∈ ns, ∀ pending w,
      walkPending v (pending.push n) w = walkPending v pending (n.visits v w).2)
    (i : Nat) (pending : Array Node) (w : ω) :
    walkPending v (pending ++ ns.reverse) w = walkPending v pending (visitsFrom v i ns w).2 := by
  induction ns generalizing i w with
  | nil => simp [visitsFrom_nil]
  | cons n rest ih =>
    obtain ⟨hn, hrest⟩ := List.forall_mem_cons.mp h
    have hpush : pending ++ (n :: rest).reverse = (pending ++ rest.reverse).push n := by
      apply Array.toList_inj.mp
      simp
    rw [hpush, hn, ih hrest (i + 1), visitsFrom_cons]

/-- Whatever is beneath a node on the stack, the node and all that is below it are finished
first. -/
theorem walkPending_push_eq (n : Node) (pending : Array Node) (w : ω) :
    walkPending v (pending.push n) w = walkPending v pending (n.visits v w).2 := by
  induction n using induct generalizing pending w with
  | step n ih =>
    rw [walkPending_push, visits_eq, Visit.first]
    obtain ⟨goesOn, w', hv⟩ : ∃ goesOn w', v (.node n) w = (goesOn, w') := ⟨_, _, rfl⟩
    cases goesOn with
    | true =>
      rw [hv, if_pos rfl]
      exact walkPending_append_reverse v ih 0 pending w'
    | false =>
      rw [hv, if_neg Bool.false_ne_true]

theorem walk_eq (n : Node) (w : ω) : n.walk v w = (n.visits v w).2 :=
  (walkPending_push_eq v n #[] w).trans (walkPending_empty v _)

theorem foldl_walk (i : Nat) (ns : List Node) (w : ω) :
    ns.foldl (fun w n => n.walk v w) w = (visitsFrom v i ns w).2 := by
  induction ns generalizing i w with
  | nil => rw [visitsFrom_nil, List.foldl_nil]
  | cons n rest ih => rw [List.foldl_cons, ih (i + 1), visitsFrom_cons, walk_eq]

end Node

theorem SourceTree.walk_eq (v : Visitor ω) (t : SourceTree) (w : ω) :
    t.walk v w = (t.visits v w).2 := by
  obtain ⟨goesOn, w', hv⟩ : ∃ goesOn w', v (.tree t) w = (goesOn, w') := ⟨_, _, rfl⟩
  simp only [walk, visits, Visit.first, hv]
  cases goesOn with
  | true =>
    show t.statements.foldl (fun w n => n.walk v w) w' = (Node.visitsFrom v 0 _ w').2
    rw [← Node.foldl_walk, Array.foldl_toList]
  | false => rfl

/-! ## What a visitor sees -/

namespace Visitor

/-- The visitor, writing down what it sees and answers. -/
def recording (v : Visitor ω) : Visitor (List (Sight × Bool) × ω) := fun s w =>
  ((v s w.2).1, (w.1 ++ [(s, (v s w.2).1)], (v s w.2).2))

end Visitor

namespace Node

variable (v : Visitor ω)

/-- A computation with a record writes down its visits. -/
def Records (f : ω → List Visit × ω)
    (g : List (Sight × Bool) × ω → List Visit × (List (Sight × Bool) × ω)) : Prop :=
  ∀ log w, (g (log, w)).2 = (log ++ (f w).1.map Visit.entry, (f w).2)

variable {v}

theorem records_first {s : Sight} {f : ω → List Visit × ω}
    {g : List (Sight × Bool) × ω → List Visit × (List (Sight × Bool) × ω)} (h : Records f g) :
    Records (Visit.first v s f) (Visit.first (Visitor.recording v) s g) := by
  intro log w
  obtain ⟨goesOn, w', hv⟩ : ∃ goesOn w', v s w = (goesOn, w') := ⟨_, _, rfl⟩
  have hrec : Visitor.recording v s (log, w) = (goesOn, (log ++ [(s, goesOn)], w')) := by
    rw [Visitor.recording, hv]
  rw [Visit.first, Visit.first, hv, hrec]
  cases goesOn with
  | true => 
    show (g _).2 = _
    rw [h]
    simp [Visit.entry]
  | false => rfl

theorem records_visitsFrom {ns : List Node}
    (h : ∀ n ∈ ns, Records (n.visits v) (n.visits (Visitor.recording v))) (i : Nat) :
    Records (visitsFrom v i ns) (visitsFrom (Visitor.recording v) i ns) := by
  have hentry : ∀ j (vs : List Visit),
      (vs.map (Visit.under j)).map Visit.entry = vs.map Visit.entry := fun _ _ => List.map_map
  induction ns generalizing i with
  | nil => 
    intro log w
    simp [visitsFrom_nil]
  | cons n rest ih =>
    obtain ⟨hn, hrest⟩ := List.forall_mem_cons.mp h
    intro log w
    simp only [visitsFrom_cons, hn log w, ih hrest (i + 1) _ _, List.map_append, hentry,
      List.append_assoc]

theorem records_visits (n : Node) : Records (n.visits v) (n.visits (Visitor.recording v)) := by
  induction n using induct with
  | step n ih =>
    rw [visits_eq, visits_eq]
    exact records_first (records_visitsFrom ih 0)

end Node

/-- A walk of a tree notices what the recursive walk visits, in the same order. -/
theorem SourceTree.walk_recording (v : Visitor ω) (t : SourceTree) (w : ω) :
    t.walk (Visitor.recording v) ([], w) =
      ((t.visits v w).1.map Visit.entry, (t.visits v w).2) := by
  rw [walk_eq]
  exact Node.records_first (Node.records_visitsFrom (fun n _ => Node.records_visits n) 0) [] w

theorem Visitor.foldl_recording (v : Visitor ω) (comments : List Comment)
    (log : List (Sight × Bool)) (w : ω) :
    ∃ noticed : List (Sight × Bool), noticed.map Prod.fst = comments.map .comment ∧
      comments.foldl (fun w c => (Visitor.recording v (.comment c) w).2) (log, w) =
        (log ++ noticed, comments.foldl (fun w c => (v (.comment c) w).2) w) := by
  induction comments generalizing log w with
  | nil => exact ⟨[], rfl, by simp⟩
  | cons c rest ih =>
    obtain ⟨noticed, hfst, heq⟩ := ih (log ++ [(.comment c, (v (.comment c) w).1)])
      (v (.comment c) w).2
    refine ⟨(.comment c, (v (.comment c) w).1) :: noticed, by rw [List.map_cons, hfst]; rfl, ?_⟩
    rw [List.foldl_cons, List.foldl_cons, Visitor.recording, heq, List.append_assoc]
    rfl

/-! ## Addresses -/

/-- The node at the end of a path from a node. -/
def Node.at? : List Nat → Node → Option Node
  | [], n => some n
  | i :: path, n => n.children[i]?.bind (at? path)

/-- What is at the end of a path from a thing that has the given nodes below it. -/
def Sight.lookUp (s : Sight) (below : List Node) : List Nat → Option Sight
  | [] => some s
  | i :: path => (below[i]?.bind (Node.at? path)).map .node

/-- What is at an address of a tree: the tree itself, a statement or a node further down. -/
def SourceTree.at? (t : SourceTree) : List Nat → Option Sight :=
  (Sight.tree t).lookUp t.statements.toList

theorem Node.lookUp_eq (n : Node) (path : List Nat) :
    (Sight.node n).lookUp n.children path = (n.at? path).map .node := by
  cases path <;> rfl

namespace Visit

/-- The visits are those of a walk in the order of the source: each thing is visited once, at its
address; the first is the thing itself, and something below it is visited exactly if its parent was
visited with the answer to go on. -/
structure InPreorder (at? : List Nat → Option Sight) (visits : List Visit) : Prop where
  found : ∀ x ∈ visits, at? x.address = some x.sight
  ordered : visits.Pairwise (·.address < ·.address)
  starts : ∃ x ∈ visits, x.address = []
  descends : ∀ address i, (∃ x ∈ visits, x.address = address ++ [i]) ↔
    (∃ x ∈ visits, x.address = address ∧ x.goesOn = true) ∧ (at? (address ++ [i])).isSome

end Visit

namespace Node

variable {v : Visitor ω}

/-- The state in which the turn of a node of a list comes. -/
def turn (v : Visitor ω) (i : Nat) (ns : List Node) (w : ω) (j : Nat) : ω :=
  (visitsFrom v i (ns.take j) w).2

/-- The visits from a list of nodes are those of each of them when its turn comes. -/
theorem mem_visitsFrom {x : Visit} {i : Nat} {ns : List Node} {w : ω} :
    x ∈ (visitsFrom v i ns w).1 ↔ ∃ (j : Nat) (n : Node), ns[j]? = some n ∧
      ∃ y ∈ (n.visits v (turn v i ns w j)).1, x = y.under (i + j) := by
  induction ns generalizing i w with
  | nil => simp [visitsFrom_nil]
  | cons n rest ih =>
    have hturn : ∀ j, turn v i (n :: rest) w (j + 1) = turn v (i + 1) rest (n.visits v w).2 j := by
      intro j
      rw [turn, List.take_succ_cons, visitsFrom_cons, turn]
    have hfirst : turn v i (n :: rest) w 0 = w := by rw [turn, List.take_zero, visitsFrom_nil]
    rw [visitsFrom_cons, List.mem_append, List.mem_map, ih]
    constructor
    · rintro (⟨y, hy, rfl⟩ | ⟨j, m, hm, y, hy, rfl⟩)
      · exact ⟨0, n, rfl, y, hfirst ▸ hy, rfl⟩
      · exact ⟨j + 1, m, hm, y, hturn j ▸ hy, by rw [Nat.add_right_comm, Nat.add_assoc]⟩
    · rintro ⟨j | j, m, hm, y, hy, rfl⟩
      · cases hm
        exact .inl ⟨y, hfirst ▸ hy, rfl⟩
      · refine .inr ⟨j, m, hm, y, hturn j ▸ hy, ?_⟩
        rw [Nat.add_right_comm, Nat.add_assoc]

/-- The visits below the child with an index are those of the child. -/
theorem exists_mem_visitsFrom {ns : List Node} {w : ω} {p : Visit → Prop} {j : Nat}
    {path : List Nat} :
    (∃ x ∈ (visitsFrom v 0 ns w).1, x.address = j :: path ∧ p x) ↔ ∃ n, ns[j]? = some n ∧
      ∃ y ∈ (n.visits v (turn v 0 ns w j)).1, y.address = path ∧ p (y.under j) := by
  constructor
  · rintro ⟨x, hx, haddress, hp⟩
    obtain ⟨k, n, hn, y, hy, rfl⟩ := mem_visitsFrom.mp hx
    rw [Nat.zero_add] at *
    obtain ⟨rfl, rfl⟩ := List.cons.inj haddress
    exact ⟨n, hn, y, hy, rfl, hp⟩
  · rintro ⟨n, hn, y, hy, rfl, hp⟩
    refine ⟨y.under j, mem_visitsFrom.mpr ⟨j, n, hn, y, hy, ?_⟩, rfl, hp⟩
    rw [Nat.zero_add]

/-- A visit with a longer path is one to the child that the path begins with. -/
theorem exists_mem_cons_visitsFrom {s : Sight} {ns : List Node} {w : ω} {p : Visit → Prop}
    {j : Nat} {path : List Nat} :
    (∃ x ∈ ⟨[], s, true⟩ :: (visitsFrom v 0 ns w).1, x.address = j :: path ∧ p x) ↔
      ∃ n, ns[j]? = some n ∧
        ∃ y ∈ (n.visits v (turn v 0 ns w j)).1, y.address = path ∧ p (y.under j) := by
  rw [← exists_mem_visitsFrom]
  constructor
  · rintro ⟨x, hx, haddress, hp⟩
    rcases List.mem_cons.mp hx with rfl | hx
    · cases haddress
    · exact ⟨x, hx, haddress, hp⟩
  · rintro ⟨x, hx, hp⟩
    exact ⟨x, List.mem_cons_of_mem _ hx, hp⟩

theorem ordered_visitsFrom {ns : List Node} 
    (h : ∀ n ∈ ns, ∀ w, (n.visits v w).1.Pairwise (·.address < ·.address)) (i : Nat) (w : ω) :
    (visitsFrom v i ns w).1.Pairwise (·.address < ·.address) := by
  induction ns generalizing i w with
  | nil =>
    rw [visitsFrom_nil]
    exact List.Pairwise.nil
  | cons n rest ih =>
    obtain ⟨hn, hrest⟩ := List.forall_mem_cons.mp h
    rw [visitsFrom_cons, List.pairwise_append, List.pairwise_map]
    refine ⟨(hn w).imp fun hxy => List.cons_lt_cons_self.mpr hxy, ih hrest _ _, ?_⟩
    intro x hx z hz
    obtain ⟨y, -, rfl⟩ := List.mem_map.mp hx
    obtain ⟨j, m, -, y', -, rfl⟩ := mem_visitsFrom.mp hz
    exact List.cons_lt_cons_iff.mpr (.inl (by omega))

/-- A walk goes in preorder if the walks of the nodes below do. -/
theorem inPreorder_first {s : Sight} {ns : List Node}
    (h : ∀ n ∈ ns, ∀ w, Visit.InPreorder ((Sight.node n).lookUp n.children) (n.visits v w).1)
    (w : ω) :
    Visit.InPreorder (s.lookUp ns) (Visit.first v s (visitsFrom v 0 ns) w).1 := by
  rw [Visit.first]
  split
  · next w' hv =>
    have hbelow : ∀ n ∈ ns, ∀ w, (n.visits v w).1.Pairwise (·.address < ·.address) :=
      fun n hn w => (h n hn w).ordered
    constructor
    · intro x hx
      rcases List.mem_cons.mp hx with rfl | hx
      · rfl
      · obtain ⟨j, n, hn, y, hy, rfl⟩ := Node.mem_visitsFrom.mp hx
        have hfound := (h n (List.mem_of_getElem? hn) _).found y hy
        rw [lookUp_eq] at hfound
        rw [Visit.under, Nat.zero_add, Sight.lookUp, hn]
        exact hfound
    · refine List.pairwise_cons.mpr ⟨?_, ordered_visitsFrom hbelow 0 w'⟩
      intro x hx
      obtain ⟨j, n, hn, y, hy, rfl⟩ := Node.mem_visitsFrom.mp hx
      exact List.nil_lt_cons _ _
    · exact ⟨_, List.mem_cons_self, rfl⟩
    · intro address i
      have hlong : ∀ j path, (∃ x ∈ ⟨[], s, true⟩ :: (visitsFrom v 0 ns w').1,
          x.address = j :: path) ↔ ∃ n, ns[j]? = some n ∧
            ∃ y ∈ (n.visits v (turn v 0 ns w' j)).1, y.address = path := by
        intro j path
        have hiff : (∃ x ∈ ⟨[], s, true⟩ :: (visitsFrom v 0 ns w').1,
            x.address = j :: path ∧ True) ↔ _ := exists_mem_cons_visitsFrom (p := fun _ => True)
        simpa using hiff
      cases address with
      | nil =>
        rw [List.nil_append, hlong]
        constructor
        · rintro ⟨n, hn, -⟩
          refine ⟨⟨_, List.mem_cons_self, rfl, rfl⟩, ?_⟩
          rw [Sight.lookUp, hn]
          rfl
        · rintro ⟨-, hsome⟩
          cases hn : ns[i]? with
          | none =>
            rw [Sight.lookUp, hn] at hsome
            cases hsome
          | some n => exact ⟨n, rfl, (h n (List.mem_of_getElem? hn) _).starts⟩
      | cons j path =>
        rw [List.cons_append, hlong, exists_mem_cons_visitsFrom, Sight.lookUp]
        cases hn : ns[j]? with
        | none => simp
        | some n =>
          have hdescends := (h n (List.mem_of_getElem? hn) (turn v 0 ns w' j)).descends path i
          rw [lookUp_eq] at hdescends
          simpa [Visit.under] using hdescends
  · next w' hv =>
    constructor
    · intro x hx
      obtain rfl := List.mem_singleton.mp hx
      rfl
    · exact List.pairwise_singleton _ _
    · exact ⟨_, List.mem_singleton_self _, rfl⟩
    · intro address i
      constructor
      · rintro ⟨x, hx, hadress⟩
        obtain rfl := List.mem_singleton.mp hx
        simp at hadress
      · rintro ⟨⟨x, hx, -, hgoes⟩, -⟩
        obtain rfl := List.mem_singleton.mp hx
        cases hgoes

/-- The walk of a node goes in preorder. -/
theorem inPreorder_visits (n : Node) (w : ω) :
    Visit.InPreorder ((Sight.node n).lookUp n.children) (n.visits v w).1 := by
  induction n using induct generalizing w with
  | step n ih =>
    rw [visits_eq]
    exact inPreorder_first ih w

theorem length_first_le (s : Sight) {f : ω → List Visit × ω} {k : Nat}
    (h : ∀ w, (f w).1.length ≤ k) (w : ω) : (Visit.first v s f w).1.length ≤ k + 1 := by
  rw [Visit.first]
  split
  · next w' hv => exact Nat.succ_le_succ (h w')
  · exact Nat.succ_le_succ (Nat.zero_le k)

theorem length_visitsFrom_le {ns : List Node} (h : ∀ n ∈ ns, ∀ w, (n.visits v w).1.length ≤ n.size)
    (i : Nat) (w : ω) : (visitsFrom v i ns w).1.length ≤ sizeAll ns := by
  induction ns generalizing i w with
  | nil => simp [visitsFrom_nil]
  | cons n rest ih =>
    obtain ⟨hn, hrest⟩ := List.forall_mem_cons.mp h
    rw [visitsFrom_cons, List.length_append, List.length_map, sizeAll]
    exact Nat.add_le_add (hn w) (ih hrest _ _)

/-- No node is visited twice, so there are no more visits than nodes. -/
theorem length_visits_le (n : Node) (w : ω) : (n.visits v w).1.length ≤ n.size := by
  induction n using induct generalizing w with
  | step n ih =>
    rw [visits_eq, size_eq]
    exact length_first_le _ (length_visitsFrom_le ih 0) w

end Node

namespace SourceTree

variable (v : Visitor ω) (t : SourceTree) (w : ω)

theorem inPreorder_visits : Visit.InPreorder t.at? (t.visits v w).1 :=
  Node.inPreorder_first (fun n _ => Node.inPreorder_visits n) w

theorem length_visits_le : (t.visits v w).1.length ≤ Node.sizeAll t.statements.toList + 1 :=
  Node.length_first_le _ (Node.length_visitsFrom_le (fun n _ => Node.length_visits_le n) 0) w

theorem at?_ne_comment (address : List Nat) (c : Comment) : t.at? address ≠ some (.comment c) := by
  cases address with
  | nil => nofun
  | cons i path =>
    rw [at?, Sight.lookUp]
    intro h
    obtain ⟨n, -, hn⟩ := Option.map_eq_some_iff.mp h
    cases hn

/-- Whatever the visitor remembers and answers, a walk of a tree is the recursive one, in
preorder: the tree comes first, something below is visited exactly if its parent was visited with
the answer to go on, each thing once and in the order of the source, and no comment at all. A walk
of everything goes on with all comments in the order of their positions, also if the visitor refused
the tree. -/
theorem walk_is_recursive (h : List TreeEdit) (id : Id .tree) (t : SourceTree)
    (ht : (Trees.after h).get? id = some t) (v : Visitor ω) (w : ω) :
    t.walk v w = (t.visits v w).2 ∧
    t.walk (Visitor.recording v) ([], w) =
      ((t.visits v w).1.map Visit.entry, (t.visits v w).2) ∧
    Visit.InPreorder t.at? (t.visits v w).1 ∧
    (t.visits v w).1.length ≤ Node.sizeAll t.statements.toList + 1 ∧
    (∀ x ∈ (t.visits v w).1, ∀ c, x.sight ≠ .comment c) ∧
    (∃ noticed : List (Sight × Bool), noticed.map Prod.fst = t.commentList.map .comment ∧
      t.walkAll (Visitor.recording v) ([], w) =
        ((t.visits v w).1.map Visit.entry ++ noticed, t.walkAll v w)) ∧
    Comment.InOrder t.commentList := by
  have hpreorder := inPreorder_visits v t w
  obtain ⟨noticed, hfst, hcomments⟩ := Visitor.foldl_recording v t.commentList
    ((t.visits v w).1.map Visit.entry) (t.visits v w).2
  refine ⟨walk_eq v t w, walk_recording v t w, hpreorder, length_visits_le v t w, ?_,
    ⟨noticed, hfst, ?_⟩, ?_⟩
  · intro x hx c hc
    exact at?_ne_comment t x.address c (hc ▸ hpreorder.found x hx)
  · rw [walkAll, walk_recording, walkComments, walkAll, walkComments, walk_eq]
    exact hcomments
  · rcases (Trees.Collect.after h).all id with ⟨hnone, -⟩ | ⟨t', a, ht', -, hc⟩
    · cases hnone.symm.trans ht
    · cases ht'.symm.trans ht
      exact hc.inOrder

/-- An expression statement with a sum, a return without a value, and two comments. -/
def commented : List TreeEdit :=
  [.create 0,
    .addStatement ⟨0⟩ ⟨0, 6, .expressionStatement,
      [⟨0, 5, .binary .add, [⟨0, 1, .ident "a", []⟩, ⟨4, 1, .ident "b", []⟩]⟩]⟩,
    .addStatement ⟨0⟩ ⟨7, 7, .ret, []⟩, .addComment ⟨0⟩ ⟨20, 4, .line, "// z", none⟩,
    .addComment ⟨0⟩ ⟨3, 5, .block, "/* */", none⟩]

/-- A visitor that goes on for the first two things it sees. -/
def hasty : Visitor Nat := fun _ seen => (seen < 2, seen + 1)

theorem walk_is_recursive_commented :
    ∃ t, (Trees.after commented).get? ⟨0⟩ = some t ∧ t.walk hasty 0 = 4 ∧
      (t.walk (Visitor.recording hasty) ([], 0)).1.map Prod.snd = [true, true, false, false] := by
  refine ⟨_, rfl, ?_⟩
  obtain ⟨hwalk, hrecording, -⟩ := walk_is_recursive commented ⟨0⟩ _ rfl hasty 0
  constructor
  · rw [hwalk]
    rfl
  · rw [hrecording]
    rfl

end SourceTree

end ScriptMachine
