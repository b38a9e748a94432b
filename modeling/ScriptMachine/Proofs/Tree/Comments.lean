import ScriptMachine.Proofs.Lists
import ScriptMachine.Tree.Basic

/-!
# The comments of source trees

The comments of a tree are what was added to it since its comments were last replaced, in the order
of their positions and, at one position, in the order of addition. The place of a new comment is
found by bisection, which is right because the comments are in order
(`exists_split_insertComment`). Wherever a comment comes from, it belongs to the tree that it was
added to, and the comments of a copy to the copy.
-/

namespace ScriptMachine

/-! ## Bisection -/

section Bisection

variable {α : Type} {p : α → Bool} {xs ys zs : List α} {k base size : Nat}

/-- If the first `k` elements are those that pass the test and `k` is in the part of the list that
is looked at, bisection finds it. -/
theorem narrow_eq (hk : ∀ i, xs[i]?.any p = true ↔ i < k) (hlow : base ≤ k)
    (hhigh : k ≤ base + size) : narrow p xs base size = k := by
  induction size using Nat.strongRecOn generalizing base with
  | ind size ih =>
    rw [narrow]
    split
    · next hsize =>
      show narrow p xs (if xs[base + size / 2]?.any p then base + size / 2 else base)
        (size - size / 2) = k
      split
      · next hmid =>
        have hmid : base + size / 2 < k := (hk _).mp hmid
        exact ih (size - size / 2) (by omega) (by omega) (by omega)
      · next hmid =>
        have hmid : ¬ base + size / 2 < k := fun h => hmid ((hk _).mpr h)
        exact ih (size - size / 2) (by omega) hlow (by omega)
    · next hsize =>
      split
      · next hbase =>
        have hbase : base < k := (hk _).mp hbase
        omega
      · next hbase =>
        have hbase : ¬ base < k := fun h => hbase ((hk _).mpr h)
        omega

theorem partitionPoint_append (hys : ∀ y ∈ ys, p y = true) (hzs : ∀ z ∈ zs, p z = false) :
    partitionPoint p (ys ++ zs) = ys.length := by
  refine narrow_eq (fun i => ?_) (Nat.zero_le _) (by simp)
  by_cases hi : i < ys.length
  · rw [List.getElem?_append_left hi, List.getElem?_eq_getElem hi, Option.any_some,
      hys _ (List.getElem_mem hi)]
    exact iff_of_true rfl hi
  · rw [List.getElem?_append_right (Nat.le_of_not_lt hi)]
    refine iff_of_false ?_ hi
    cases hz : zs[i - ys.length]? with
    | none => simp
    | some z => simp [hzs z (List.mem_of_getElem? hz)]

example : partitionPoint (· ≤ 3) [1, 3, 3, 5] = 3 := by cbv

end Bisection

/-! ## Insertion -/

namespace Comment

/-- The comment as that of a tree. -/
def ownedBy (c : Comment) (id : Id .tree) : Comment := { c with parent := some id }

/-- No comment comes before one that it stands behind. -/
def InOrder (comments : List Comment) : Prop := comments.Pairwise (·.position ≤ ·.position)

/-- The comments that stand at a position. -/
def standing (comments : List Comment) (position : Nat) : List Comment :=
  comments.filter (·.position = position)

variable {comments : List Comment}

theorem InOrder.exists_split (h : InOrder comments) (position : Nat) :
    ∃ before after, comments = before ++ after ∧ (∀ d ∈ before, d.position ≤ position) ∧
      ∀ d ∈ after, position < d.position := by
  induction comments with
  | nil => exact ⟨[], [], rfl, nofun, nofun⟩
  | cons d rest ih =>
    obtain ⟨hd, hrest⟩ := List.pairwise_cons.mp h
    by_cases hle : d.position ≤ position
    · obtain ⟨before, after, rfl, hbefore, hafter⟩ := ih hrest
      exact ⟨d :: before, after, rfl, List.forall_mem_cons.mpr ⟨hle, hbefore⟩, hafter⟩
    · have hlt : position < d.position := Nat.lt_of_not_le hle
      refine ⟨[], d :: rest, rfl, nofun, List.forall_mem_cons.mpr ⟨hlt, fun e he => ?_⟩⟩
      exact Nat.lt_of_lt_of_le hlt (hd e he)

/-- A comment is put behind those that do not come after it and before those that do. -/
theorem InOrder.exists_split_insert (h : InOrder comments) (c : Comment) :
    ∃ before after, comments = before ++ after ∧ (∀ d ∈ before, d.position ≤ c.position) ∧
      (∀ d ∈ after, c.position < d.position) ∧
      insertComment c comments = before ++ c :: after := by
  obtain ⟨before, after, rfl, hbefore, hafter⟩ := h.exists_split c.position
  refine ⟨before, after, rfl, hbefore, hafter, ?_⟩
  rw [insertComment, partitionPoint_append, insertIdx_append]
  · exact fun d hd => decide_eq_true (hbefore d hd)
  · exact fun d hd => decide_eq_false (Nat.not_le_of_lt (hafter d hd))

theorem InOrder.insert (h : InOrder comments) (c : Comment) :
    InOrder (insertComment c comments) := by
  obtain ⟨before, after, rfl, hbefore, hafter, heq⟩ := h.exists_split_insert c
  rw [heq]
  obtain ⟨hb, ha, hba⟩ := List.pairwise_append.mp h
  refine List.pairwise_append.mpr ⟨hb, List.pairwise_cons.mpr ⟨?_, ha⟩, ?_⟩
  · exact fun d hd => Nat.le_of_lt (hafter d hd)
  · intro d hd
    exact List.forall_mem_cons.mpr ⟨hbefore d hd, hba d hd⟩

theorem InOrder.perm_insert (h : InOrder comments) (c : Comment) :
    (insertComment c comments).Perm (comments ++ [c]) := by
  obtain ⟨before, after, rfl, -, -, heq⟩ := h.exists_split_insert c
  rw [heq]
  exact List.perm_middle.trans (List.perm_append_singleton c (before ++ after)).symm

/-- A comment stands behind those that were at its position before. -/
theorem InOrder.standing_insert (h : InOrder comments) (c : Comment) (position : Nat) :
    standing (insertComment c comments) position = standing (comments ++ [c]) position := by
  obtain ⟨before, after, rfl, -, hafter, heq⟩ := h.exists_split_insert c
  simp only [heq, standing, List.filter_append, List.filter_cons, List.filter_nil,
    List.append_assoc]
  split
  · next hc =>
    have hnone : after.filter (·.position = position) = [] := by
      refine List.filter_eq_nil_iff.mpr fun d hd => ?_
      have := hafter d hd
      simp at hc ⊢
      omega
    rw [hnone, List.nil_append]
  · rw [List.append_nil]

end Comment

/-! ## Histories -/

/-- The trees of a program. -/
abbrev Trees := Table .tree SourceTree

/-- What is done with the trees of a program. -/
inductive TreeEdit where
  | create (position : Nat)
  | addStatement (id : Id .tree) (n : Node)
  /-- The comment may be another tree's. -/
  | addComment (id : Id .tree) (c : Comment)
  | setComments (id : Id .tree) (comments : Option (List Comment))
  | copy (id : Id .tree)

/-- What was added to the comments of a tree. A copy takes over what was added to its original. -/
structure Additions where
  /-- Since the comments were last replaced or taken away. -/
  sinceReset : List Comment := []
  /-- Since the comments were last taken away. -/
  sinceAbsent : List Comment := []

namespace Additions

def add (a : Additions) (c : Comment) : Additions :=
  ⟨a.sinceReset ++ [c], a.sinceAbsent ++ [c]⟩

def set (a : Additions) : Option (List Comment) → Additions
  | none => {}
  | some comments => ⟨comments, a.sinceAbsent ++ comments⟩

end Additions

namespace TreeEdit

/-- The trees afterwards. -/
def perform (ts : Trees) : TreeEdit → Trees
  | create position => (ts.insert { id := ts.next, position }).2
  | addStatement id n => ts.modify id (·.addStatement n)
  | addComment id c => ts.modify id (·.addComment c)
  | setComments id comments => ts.modify id (·.setComments comments)
  | copy id =>
    match ts.get? id with
    | some t => (ts.insert (t.copy ts.next)).2
    | none => ts

/-- The additions afterwards. -/
def record (l : Table .tree Additions) : TreeEdit → Table .tree Additions
  | create _ => (l.insert {}).2
  | addStatement _ _ => l
  | addComment id c => l.modify id (·.add c)
  | setComments id comments => l.modify id (·.set comments)
  | copy id =>
    match l.get? id with
    | some a => (l.insert a).2
    | none => l

end TreeEdit

/-- The trees after some edits. -/
def Trees.after (h : List TreeEdit) : Trees := h.foldl TreeEdit.perform {}

/-- What was added to the comments of the trees by some edits. -/
def additions (h : List TreeEdit) : Table .tree Additions := h.foldl TreeEdit.record {}

namespace SourceTree

/-- The comments, of which there are none if they are absent. -/
def commentList (t : SourceTree) : List Comment := t.comments.getD []

/-- The comments of the tree are what was added to it. -/
structure Collects (id : Id .tree) (t : SourceTree) (a : Additions) : Prop where
  identity : t.id = id
  inOrder : Comment.InOrder t.commentList
  perm : t.commentList.Perm (a.sinceReset.map (·.ownedBy id))
  stable : ∀ position, Comment.standing t.commentList position =
    (Comment.standing a.sinceReset position).map (·.ownedBy id)
  present : t.comments = none ↔ a.sinceAbsent = []

namespace Collects

variable {id : Id .tree} {t : SourceTree} {a : Additions}

/-- Without comments it collects nothing. -/
theorem of_nil {since : List Comment} (hid : t.id = id) (hnil : t.commentList = [])
    (hpresent : t.comments = none ↔ since = []) : Collects id t ⟨[], since⟩ := by
  constructor
  · exact hid
  · rw [hnil]
    exact List.Pairwise.nil
  · rw [hnil]
    exact .nil
  · intro position
    rw [hnil]
    rfl
  · exact hpresent

theorem addStatement (h : Collects id t a) (n : Node) : Collects id (t.addStatement n) a :=
  ⟨h.identity, h.inOrder, h.perm, h.stable, h.present⟩

theorem addComment (h : Collects id t a) (c : Comment) :
    Collects id (t.addComment c) (a.add c) where
  identity := h.identity
  inOrder := h.inOrder.insert _
  perm := by
    refine (h.inOrder.perm_insert _).trans ?_
    rw [Additions.add, List.map_append]
    exact h.perm.append (.of_eq (by rw [h.identity]; rfl))
  stable position := by
    refine (h.inOrder.standing_insert _ position).trans ?_
    have hc : Comment.standing [{ c with parent := some t.id }] position =
        (Comment.standing [c] position).map (·.ownedBy id) := by
      rw [h.identity]
      by_cases hc : c.position = position <;> simp [Comment.standing, hc, Comment.ownedBy]
    have happend : ∀ xs ys : List Comment, Comment.standing (xs ++ ys) position =
        Comment.standing xs position ++ Comment.standing ys position :=
      fun _ _ => List.filter_append ..
    rw [happend, hc, Additions.add, happend, List.map_append]
    exact congrArg (· ++ _) (h.stable position)
  present := by simp [SourceTree.addComment, Additions.add]

theorem addComments (h : Collects id t a) (comments : List Comment) :
    Collects id (comments.foldl SourceTree.addComment t)
      ⟨a.sinceReset ++ comments, a.sinceAbsent ++ comments⟩ := by
  induction comments generalizing t a with
  | nil =>
    rw [List.append_nil, List.append_nil]
    exact h
  | cons c rest ih => simpa [Additions.add] using ih (h.addComment c)

/-- Emptying the comments leaves them as absent or present as they are. -/
theorem emptied (h : Collects id t a) :
    Collects id { t with comments := t.comments.map fun _ => [] } ⟨[], a.sinceAbsent⟩ := by
  refine of_nil h.identity ?_ (Option.map_eq_none_iff.trans h.present)
  rw [commentList]
  cases t.comments <;> rfl

theorem setComments (h : Collects id t a) (comments : Option (List Comment)) :
    Collects id (t.setComments comments) (a.set comments) := by
  cases comments with
  | none => exact of_nil h.identity rfl (iff_of_true rfl rfl)
  | some comments => exact h.emptied.addComments comments

theorem copy (h : Collects id t a) (id' : Id .tree) : Collects id' (t.copy id') a := by
  have hlist : (t.copy id').commentList = t.commentList.map (·.ownedBy id') := by
    rw [commentList, commentList, SourceTree.copy]
    cases t.comments <;> rfl
  have howned : ∀ comments : List Comment,
      (comments.map (·.ownedBy id)).map (·.ownedBy id') = comments.map (·.ownedBy id') :=
    fun _ => List.map_map
  constructor
  · rfl
  · rw [hlist]
    exact List.pairwise_map.mpr h.inOrder
  · rw [hlist, ← howned a.sinceReset]
    exact h.perm.map _
  · intro position
    have hmap : ∀ comments : List Comment,
        Comment.standing (comments.map (·.ownedBy id')) position =
          (Comment.standing comments position).map (·.ownedBy id') := fun _ => List.filter_map
    rw [hlist, hmap, h.stable, howned]
  · rw [← h.present, SourceTree.copy, Option.map_eq_none_iff]

/-- The tree's comments belong to it. -/
theorem parent_eq (h : Collects id t a) {c : Comment} (hc : c ∈ t.commentList) :
    c.parent = some id := by
  obtain ⟨d, -, rfl⟩ := List.mem_map.mp (h.perm.mem_iff.mp hc)
  rfl

theorem checkComments_eq (h : Collects id t a) : t.checkComments = .ok () := by
  have hfind : (t.comments.getD []).find? (·.parent != some t.id) = none := by
    refine List.find?_eq_none.mpr fun c hc => ?_
    rw [h.parent_eq hc, h.identity]
    simp
  rw [checkComments, hfind]

end Collects

end SourceTree

/-- Every tree has collected what was added to it. -/
structure Trees.Collect (ts : Trees) (l : Table .tree Additions) : Prop where
  next : ts.next = l.next
  all : ∀ id, (ts.get? id = none ∧ l.get? id = none) ∨
    ∃ t a, ts.get? id = some t ∧ l.get? id = some a ∧ SourceTree.Collects id t a

namespace Trees.Collect

variable {ts : Trees} {l : Table .tree Additions} {id : Id .tree}

theorem empty : Trees.Collect {} {} := ⟨rfl, fun _ => .inl ⟨rfl, rfl⟩⟩

theorem insert (h : ts.Collect l) {t : SourceTree} {a : Additions}
    (ht : SourceTree.Collects ts.next t a) : Trees.Collect (ts.insert t).2 (l.insert a).2 where
  next := by
    have hsize : ts.entries.size = l.entries.size := congrArg Id.index h.next
    simp [Table.insert, Table.next, hsize]
  all id := by
    rw [Table.get?_insert, Table.get?_insert, ← h.next]
    split
    · next hid => exact .inr ⟨t, a, rfl, rfl, hid ▸ ht⟩
    · exact h.all id

theorem modify (h : ts.Collect l) {f : SourceTree → SourceTree} {g : Additions → Additions}
    (hf : ∀ t a, SourceTree.Collects id t a → SourceTree.Collects id (f t) (g a)) :
    Trees.Collect (ts.modify id f) (l.modify id g) where
  next := by
    have hsize : ts.entries.size = l.entries.size := congrArg Id.index h.next
    simp [Table.modify, Table.next, hsize]
  all other := by
    rw [Table.get?_modify, Table.get?_modify]
    split
    · next hother =>
      subst hother
      rcases h.all other with ⟨ht, ha⟩ | ⟨t, a, ht, ha, hc⟩
      · exact .inl (by simp [ht, ha])
      · exact .inr ⟨f t, g a, by simp [ht], by simp [ha], hf t a hc⟩
    · exact h.all other

theorem perform (h : ts.Collect l) (e : TreeEdit) : (e.perform ts).Collect (e.record l) := by
  cases e with
  | create position => exact h.insert (.of_nil rfl rfl (iff_of_true rfl rfl))
  | addStatement id n =>
    have hsame : l.modify id (fun a => a) = l := by
      obtain ⟨entries⟩ := l
      rw [Table.modify, Table.mk.injEq]
      ext i hi hi' <;> simp [Array.getElem_modify]
    rw [TreeEdit.record, ← hsame]
    exact h.modify fun t a ht => ht.addStatement n
  | addComment id c => exact h.modify fun t a ht => ht.addComment c
  | setComments id comments => exact h.modify fun t a ht => ht.setComments comments
  | copy id =>
    rw [TreeEdit.perform, TreeEdit.record]
    rcases h.all id with ⟨ht, ha⟩ | ⟨t, a, ht, ha, hc⟩
    · rw [ht, ha]
      exact h
    · rw [ht, ha]
      exact h.insert (hc.copy _)

theorem after (h : List TreeEdit) : (Trees.after h).Collect (additions h) := by
  suffices hfold : ∀ {ts l}, Trees.Collect ts l →
      Trees.Collect (h.foldl TreeEdit.perform ts) (h.foldl TreeEdit.record l) from hfold empty
  induction h with
  | nil => exact id
  | cons e h ih => exact fun hts => ih (hts.perform e)

end Trees.Collect

namespace SourceTree

/-- The comments of a tree are those that were added to it since they were last replaced, each with
the tree as its parent, in the order of their positions and then of addition. They are absent until
one is added, and again when they are taken away; replacing them by none at all makes no
difference to that. -/
theorem comments_collected (h : List TreeEdit) (id : Id .tree) (t : SourceTree)
    (ht : (Trees.after h).get? id = some t) :
    ∃ a, (additions h).get? id = some a ∧ t.id = id ∧
      t.commentList.Perm (a.sinceReset.map (·.ownedBy id)) ∧
      Comment.InOrder t.commentList ∧
      (∀ position, Comment.standing t.commentList position =
        (Comment.standing a.sinceReset position).map (·.ownedBy id)) ∧
      (∀ c ∈ t.commentList, c.parent = some id) ∧ t.checkComments = .ok () ∧
      (t.comments = none ↔ a.sinceAbsent = []) := by
  rcases (Trees.Collect.after h).all id with ⟨hnone, -⟩ | ⟨t', a, ht', ha, hc⟩
  · cases hnone.symm.trans ht
  · cases ht'.symm.trans ht
    exact ⟨a, ha, hc.identity, hc.perm, hc.inOrder, hc.stable, fun c => hc.parent_eq,
      hc.checkComments_eq, hc.present⟩

/-- Three comments are added, two of them at one place; the tree is copied and its comments are
emptied, and a third tree takes one of the copy's. -/
def borrowing : List TreeEdit :=
  [.create 0, .addComment ⟨0⟩ ⟨5, 1, .line, "first", none⟩,
    .addComment ⟨0⟩ ⟨5, 1, .line, "second", none⟩, .addComment ⟨0⟩ ⟨1, 4, .html, "<!--", none⟩,
    .copy ⟨0⟩, .setComments ⟨0⟩ (some []), .create 0,
    .addComment ⟨2⟩ ⟨5, 1, .line, "first", some ⟨1⟩⟩]

theorem comments_collected_borrowing :
    ∃ t, (Trees.after borrowing).get? ⟨1⟩ = some t ∧
      t.commentList.Perm [⟨5, 1, .line, "first", some ⟨1⟩⟩, ⟨5, 1, .line, "second", some ⟨1⟩⟩,
        ⟨1, 4, .html, "<!--", some ⟨1⟩⟩] ∧
      t.checkComments = .ok () := by
  refine ⟨_, rfl, ?_⟩
  obtain ⟨a, ha, -, hperm, -, -, -, hcheck, -⟩ := comments_collected borrowing ⟨1⟩ _ rfl
  cases ha
  exact ⟨hperm, hcheck⟩

end SourceTree

end ScriptMachine
