import Mathlib.Data.List.Induction
import Mathlib.Order.Lattice.Nat
import ScriptMachine.Proofs.Scope.Erased
import ScriptMachine.Proofs.Scope.Names

/-!
# Scopes as layered environments

A scope is a layer of bindings over its parent: what it does not bind is looked up there. Every
operation rebinds at most one name in one scope of the whole forest, and the scopes that notice are
those that look through to this binding first (`Scopes.Rebinds`, `Scopes.Sees`). Deleting a binding
shows what is beneath it again.

The bound names stand in the order in which they were first bound since they were last deleted.
Which operation that was is read off the history alone (`Scopes.definitions`).
-/

namespace ScriptMachine

variable {n x : String}

/-! ## One scope -/

namespace Scope

variable (s : Scope) (v : Value)

theorem lookup_assign_self (bindings : List (String × Value)) :
    (assign n v bindings).lookup n = some v := by
  induction bindings with
  | nil => simp [assign]
  | cons b rest ih =>
    rw [assign]
    split
    · simp
    · next hb =>
      have hne : (n == b.1) = false := by
        rw [beq_eq_false_iff_ne]
        exact fun h => hb (beq_iff_eq.mpr h.symm)
      rw [List.lookup_cons, hne]
      exact ih

theorem find?_define : (s.define n v).find? x = if x = n then some v else s.find? x := by
  split
  · next h =>
    subst h
    exact lookup_assign_self v s.bindings
  · next h => exact find?_define_of_ne s (Ne.symm h) v

theorem find?_delete : (s.delete n).find? x = if x = n then none else s.find? x := by
  split
  · next h =>
    subst h
    exact find?_delete_self s
  · next h => exact find?_delete_of_ne s h

theorem has_eq_isSome : s.has n = (s.find? n).isSome := by
  rw [has, find?]
  induction s.bindings with
  | nil => rfl
  | cons b rest ih =>
    rw [List.any_cons, List.lookup_cons, ih, Bool.beq_comm]
    cases n == b.1 <;> rfl

/-- A name is bound in its old place, or at the end if it has none. -/
theorem map_fst_assign (bindings : List (String × Value)) :
    (assign n v bindings).map Prod.fst =
      if n ∈ bindings.map Prod.fst then bindings.map Prod.fst
      else bindings.map Prod.fst ++ [n] := by
  induction bindings with
  | nil => simp [assign]
  | cons b rest ih =>
    rw [assign]
    split
    · next hb =>
      have hname : b.1 = n := beq_iff_eq.mp hb
      simp [hname]
    · next hb =>
      have hname : n ≠ b.1 := fun h => hb (beq_iff_eq.mpr h.symm)
      rw [List.map_cons, ih, List.map_cons]
      simp only [List.mem_cons, hname, false_or]
      split <;> rfl

theorem names_define :
    (s.define n v).names = if n ∈ s.names then s.names else s.names ++ [n] :=
  map_fst_assign v s.bindings

theorem names_delete : (s.delete n).names = s.names.filter (· ≠ n) := by
  simp only [delete, names, List.filter_map]
  congr 2
  funext b
  exact (decide_not (p := b.1 = n)).symm

end Scope

namespace ScopeQuery

/-- The scope that is asked, or that is to be the parent of a new one. -/
def scope? : ScopeQuery → Option (Id .scope)
  | create parent => parent
  | state s | find s _ | has s _ | put s _ _ | define s _ _ | delete s _ => some s

end ScopeQuery

namespace Scopes

variable {t t' : Scopes} {s r o p : Id .scope} {v : Value} {v? : Option Value} {q : ScopeQuery}
  {h h' : List ScopeQuery}

instance : Decidable (t.Knows s) := inferInstanceAs (Decidable (_ = true))

/-! ## Layers -/

/-- What the parent chain of a scope gives for a name. -/
def above? (t : Scopes) (s : Id .scope) (n : String) : Option Value :=
  (t.get s).parent?.bind fun p => t.find? p n

/-- A scope looks for a name in another one before it finds it: in itself, or through its parent
if it does not bind the name. -/
inductive Sees (t : Scopes) (n : String) (o : Id .scope) : Id .scope → Prop where
  | here : Sees t n o o
  | above {s p : Id .scope} (hs : (t.get s).find? n = none) (hp : (t.get s).parent? = some p)
      (h : Sees t n o p) : Sees t n o s

/-- The scope in which an assignment binds a name: the nearest that has it, and the assigning scope
itself if none has. -/
def IsTarget (t : Scopes) (s : Id .scope) (n : String) (o : Id .scope) : Prop :=
  (t.Sees n o s ∧ ((t.get o).find? n).isSome) ∨
    (o = s ∧ ∀ p, t.Sees n p s → (t.get p).find? n = none)

/-- The scopes differ in one binding, and the second ones have the given value for it. -/
structure Rebinds (t t' : Scopes) (o : Id .scope) (n : String) (v? : Option Value) : Prop where
  find : ∀ p x, (t'.get p).find? x = if p = o ∧ x = n then v? else (t.get p).find? x
  ancestors : ∀ p, (t'.get p).ancestors = (t.get p).ancestors

/-- A parent is older than its child, and the child's ancestors are the parent and those of the
parent. -/
structure Layered (t : Scopes) : Prop where
  older : ∀ s p, (t.get s).parent? = some p → p.index < s.index
  chained : ∀ s p, (t.get s).parent? = some p → (t.get s).ancestors = t.chain p

namespace Layered

/-- Parents first. -/
theorem induct (ht : t.Layered) {motive : Id .scope → Prop}
    (step : ∀ s, (∀ p, (t.get s).parent? = some p → motive p) → motive s) (s : Id .scope) :
    motive s := by
  obtain ⟨i, rfl⟩ : ∃ i : Nat, s = ⟨i⟩ := ⟨s.index, rfl⟩
  induction i using Nat.strong_induction_on with
  | _ i ih => exact step ⟨i⟩ fun p hp => ih p.index (ht.older _ p hp)

theorem chain_eq (ht : t.Layered) (s : Id .scope) :
    t.chain s = s :: (t.get s).parent?.elim [] t.chain := by
  rw [chain]
  cases hp : (t.get s).parent? with
  | none => rw [List.head?_eq_none_iff.mp hp, Option.elim_none]
  | some p => rw [ht.chained s p hp, Option.elim_some]

/-- A lookup goes through the layers. -/
theorem find?_eq (ht : t.Layered) (s : Id .scope) (n : String) :
    t.find? s n = ((t.get s).find? n).or (t.above? s n) := by
  rw [find?, ht.chain_eq, List.findSome?_cons, above?]
  cases (t.get s).find? n with
  | some v => rfl
  | none => cases (t.get s).parent? <;> rfl

theorem owner?_eq (ht : t.Layered) (s : Id .scope) (n : String) :
    t.owner? s n = if (t.get s).has n then some s
      else (t.get s).parent?.bind fun p => t.owner? p n := by
  rw [owner?, ht.chain_eq, List.find?_cons]
  cases (t.get s).has n with
  | true => rfl
  | false => cases (t.get s).parent? <;> rfl

/-- Looking upwards leads to older scopes only. -/
theorem le_of_sees (ht : t.Layered) (h : t.Sees n o s) : o.index ≤ s.index := by
  induction h with
  | here => exact Nat.le_refl _
  | above hs hp _ ih => exact Nat.le_of_lt (Nat.lt_of_le_of_lt ih (ht.older _ _ hp))

theorem not_sees_parent (ht : t.Layered) (hp : (t.get o).parent? = some p) :
    ¬ t.Sees n o p :=
  fun h => absurd (ht.older o p hp) (Nat.not_lt.mpr (ht.le_of_sees h))

/-- An owner is the nearest scope that has the name. -/
theorem sees_of_owner (ht : t.Layered) (h : t.owner? s n = some o) :
    t.Sees n o s ∧ ((t.get o).find? n).isSome := by
  induction s using ht.induct with
  | step s ih =>
    rw [ht.owner?_eq] at h
    split at h
    · next hhas =>
      cases h
      exact ⟨.here, by rwa [← Scope.has_eq_isSome]⟩
    · next hhas =>
      obtain ⟨p, hp, howner⟩ := Option.bind_eq_some_iff.mp h
      obtain ⟨hsees, hbound⟩ := ih p hp howner
      have hs : (t.get s).find? n = none := by
        rwa [Scope.has_eq_isSome, Option.not_isSome_iff_eq_none] at hhas
      exact ⟨.above hs hp hsees, hbound⟩

/-- Without an owner, nobody on the way up has the name. -/
theorem unbound_of_no_owner (ht : t.Layered) (h : t.owner? s n = none) (hsees : t.Sees n p s) :
    (t.get p).find? n = none := by
  induction hsees with
  | here =>
    rw [ht.owner?_eq] at h
    split at h
    · cases h
    · next hhas => rwa [Scope.has_eq_isSome, Option.not_isSome_iff_eq_none] at hhas
  | @above s r hs hp _ ih =>
    refine ih ?_
    rw [ht.owner?_eq, if_neg (by rw [Scope.has_eq_isSome, hs]; exact Bool.false_ne_true), hp] at h
    exact h

/-- Along the chain, a name is there exactly if a lookup gives a value. -/
theorem has_eq_isSome_find? (ht : t.Layered) (s : Id .scope) (n : String) :
    t.has s n = (t.find? s n).isSome := by
  induction s using ht.induct with
  | step s ih =>
    rw [has, ht.owner?_eq, ht.find?_eq, Option.isSome_or, Scope.has_eq_isSome]
    cases hown : ((t.get s).find? n).isSome with
    | true => rfl
    | false =>
      rw [Bool.false_or, above?, if_neg Bool.false_ne_true]
      cases hp : (t.get s).parent? with
      | none => rfl
      | some p => exact ih p hp

/-! ## One binding changes -/

theorem of_ancestors_eq (ht : t.Layered) (h : ∀ s, (t'.get s).ancestors = (t.get s).ancestors) :
    t'.Layered where
  older s p hp := ht.older s p (by rwa [Scope.parent?, h] at hp)
  chained s p hp := by
    rw [chain, h, h]
    exact ht.chained s p (by rwa [Scope.parent?, h] at hp)

end Layered

namespace Rebinds

theorem parent?_eq (hr : t.Rebinds t' o n v?) (s : Id .scope) :
    (t'.get s).parent? = (t.get s).parent? := by
  rw [Scope.parent?, Scope.parent?, hr.ancestors]

theorem layered (hr : t.Rebinds t' o n v?) (ht : t.Layered) : t'.Layered :=
  ht.of_ancestors_eq hr.ancestors

/-- Who does not see the binding, and who looks for another name, finds what it found before. -/
theorem find?_of_not_sees (hr : t.Rebinds t' o n v?) (ht : t.Layered)
    (hsees : x = n → ¬ t.Sees n o r) : t'.find? r x = t.find? r x := by
  induction r using ht.induct with
  | step r ih =>
    have hown : (t'.get r).find? x = (t.get r).find? x := by
      rw [hr.find, if_neg]
      rintro ⟨rfl, rfl⟩
      exact hsees rfl .here
    rw [(hr.layered ht).find?_eq, ht.find?_eq, hown]
    cases hbound : (t.get r).find? x with
    | some v => rfl
    | none =>
      rw [above?, above?, hr.parent?_eq]
      cases hp : (t.get r).parent? with
      | none => rfl
      | some p =>
        -- The scope is looked through, so it sees whatever its parent sees.
        refine ih p hp ?_
        rintro rfl hp'
        exact hsees rfl (.above hbound hp hp')

/-- The scope itself finds the new value, and without one what its parent chain gives. -/
theorem find?_self (hr : t.Rebinds t' o n v?) (ht : t.Layered) :
    t'.find? o n = v?.or (t.above? o n) := by
  rw [(hr.layered ht).find?_eq, hr.find, if_pos ⟨rfl, rfl⟩, above?, above?, hr.parent?_eq]
  cases hp : (t.get o).parent? with
  | none => rfl
  | some p =>
    rw [Option.bind_some, Option.bind_some,
      hr.find?_of_not_sees ht fun _ => ht.not_sees_parent hp]

/-- Who sees the binding finds what the scope itself finds. -/
theorem find?_of_sees (hr : t.Rebinds t' o n v?) (ht : t.Layered) (hsees : t.Sees n o r) :
    t'.find? r n = t'.find? o n := by
  induction hsees with
  | here => rfl
  | @above s p hs hp hsees ih =>
    have hne : s ≠ o := by
      rintro rfl
      exact ht.not_sees_parent hp hsees
    rw [(hr.layered ht).find?_eq, hr.find, if_neg fun heq => hne heq.1, hs, Option.none_or, above?,
      hr.parent?_eq, hp]
    exact ih

end Rebinds

theorem rebinds_define (hs : t.Knows s) (n : String) (v : Value) :
    t.Rebinds (t.define s n v) s n (some v) where
  find p x := by
    rw [define, get_modify hs]
    by_cases hp : p = s
    · rw [if_pos hp, Scope.find?_define]
      simp [hp]
    · rw [if_neg hp, if_neg fun heq => hp heq.1]
  ancestors p := by
    rw [define, get_modify hs]
    split <;> rfl

theorem rebinds_delete (hs : t.Knows s) (n : String) :
    t.Rebinds (t.delete s n).2 s n none where
  find p x := by
    rw [delete, get_modify hs]
    by_cases hp : p = s
    · rw [if_pos hp, Scope.find?_delete]
      simp [hp]
    · rw [if_neg hp, if_neg fun heq => hp heq.1]
  ancestors p := by
    rw [delete, get_modify hs]
    split <;> rfl

theorem knows_of_find? (h : ((t.get o).find? n).isSome) : t.Knows o :=
  knows_of_mem_names ((Scope.has_iff_mem_names _).mp (by rwa [Scope.has_eq_isSome]))

theorem isTarget_getD_owner? (ht : t.Layered) (s : Id .scope) (n : String) :
    t.IsTarget s n ((t.owner? s n).getD s) := by
  cases howner : t.owner? s n with
  | some o => exact .inl (ht.sees_of_owner howner)
  | none => exact .inr ⟨rfl, fun p => ht.unbound_of_no_owner howner⟩

namespace IsTarget

theorem knows (h : t.IsTarget s n o) (hs : t.Knows s) : t.Knows o := by
  rcases h with ⟨-, hbound⟩ | ⟨rfl, -⟩
  · exact knows_of_find? hbound
  · exact hs

theorem sees (h : t.IsTarget s n o) : t.Sees n o s := by
  rcases h with ⟨hsees, -⟩ | ⟨rfl, -⟩
  · exact hsees
  · exact .here

/-- There is one scope only that an assignment can be for. -/
theorem unique (h : t.IsTarget s n o) (h' : t.IsTarget s n p) : o = p := by
  rcases h with ⟨hsees, hbound⟩ | ⟨rfl, hnone⟩
  · rcases h' with ⟨hsees', hbound'⟩ | ⟨rfl, hnone'⟩
    · induction hsees with
      | here =>
        cases hsees' with
        | here => rfl
        | above hs => simp [hs] at hbound
      | above hs hp _ ih =>
        cases hsees' with
        | here => simp [hs] at hbound'
        | above _ hp' hsees' =>
          cases hp.symm.trans hp'
          exact ih hsees'
    · simp [hnone' o hsees] at hbound
  · rcases h' with ⟨hsees', hbound'⟩ | ⟨rfl, -⟩
    · simp [hnone p hsees'] at hbound'
    · rfl

end IsTarget

/-- An assignment changes one binding, in the nearest scope that has the name. -/
theorem rebinds_put (ht : t.Layered) (hs : t.Knows s) (n : String) (v : Value) :
    ∃ o, t.IsTarget s n o ∧ t.Rebinds (t.put s n v) o n (some v) := by
  have htarget := isTarget_getD_owner? ht s n
  exact ⟨_, htarget, rebinds_define (htarget.knows hs) n v⟩

/-! ## Histories -/

/-- The scopes after some operations. -/
def after (t : Scopes) (h : List ScopeQuery) : Scopes :=
  h.foldl (fun t q => (q.perform t).2) t

/-- Every operation is about a scope that exists by then. -/
def Admits : Scopes → List ScopeQuery → Prop
  | _, [] => True
  | t, q :: h => (∀ s ∈ q.scope?, t.Knows s) ∧ Admits (q.perform t).2 h

instance Admits.decide : (t : Scopes) → (h : List ScopeQuery) → Decidable (t.Admits h)
  | _, [] => isTrue trivial
  | t, q :: h =>
    have := decide (q.perform t).2 h
    inferInstanceAs (Decidable (_ ∧ _))

@[simp]
theorem after_append (t : Scopes) (h h' : List ScopeQuery) :
    t.after (h ++ h') = (t.after h).after h' := by
  simp [after]

@[simp]
theorem after_singleton (t : Scopes) (q : ScopeQuery) : t.after [q] = (q.perform t).2 := rfl

theorem admits_append : t.Admits (h ++ h') ↔ t.Admits h ∧ (t.after h).Admits h' := by
  induction h generalizing t with
  | nil => simp [Admits, after]
  | cons q h ih => simp [Admits, ih, after, and_assoc]

theorem get_of_not_knows (hs : ¬ t.Knows s) : t.get s = {} := by
  rw [Table.get, Option.not_isSome_iff_eq_none.mp hs]
  rfl

theorem knows_iff : t.Knows s ↔ s.index < t.entries.size := by
  rw [Knows, Table.get?, isSome_getElem?]

theorem get_create (parent : Option (Id .scope)) :
    (t.create parent).2.get s =
      if s = t.next then { ancestors := parent.elim [] t.chain } else t.get s := by
  simp only [create, Table.get, Table.get?_insert]
  split
  · cases parent <;> rfl
  · rfl

theorem get_create_of_knows (parent : Option (Id .scope)) (hs : t.Knows s) :
    (t.create parent).2.get s = t.get s := by
  rw [get_create, if_neg]
  rintro rfl
  exact Nat.lt_irrefl _ (knows_iff.mp hs)

namespace Layered

theorem empty : Layered {} := by
  have hget : ∀ s, Table.get ({} : Scopes) s = {} :=
    fun s => get_of_not_knows fun h => Nat.not_lt_zero _ (knows_iff.mp h)
  constructor <;> intro s p hp <;> rw [hget] at hp <;> cases hp

theorem create (ht : t.Layered) {parent : Option (Id .scope)}
    (hparent : ∀ p ∈ parent, t.Knows p) : (t.create parent).2.Layered := by
  -- The parent of a scope was there before the new scope, whichever scope it is the parent of.
  have hknown : ∀ s p, ((t.create parent).2.get s).parent? = some p →
      t.Knows p ∧ p.index < s.index ∧ ((t.create parent).2.get s).ancestors = t.chain p := by
    intro s p hp
    rw [get_create] at hp ⊢
    split at hp
    · next heq =>
      subst heq
      cases parent with
      | none => cases hp
      | some parent =>
        cases hp
        have hparent := hparent p rfl
        exact ⟨hparent, knows_iff.mp hparent, by rw [if_pos rfl, Option.elim_some]⟩
    · next hne =>
      have hold := ht.older s p hp
      have hs : t.Knows s := by
        by_contra hs
        rw [get_of_not_knows hs] at hp
        cases hp
      rw [if_neg hne]
      exact ⟨knows_iff.mpr (Nat.lt_trans hold (knows_iff.mp hs)), hold, ht.chained s p hp⟩
  constructor
  · intro s p hp
    exact (hknown s p hp).2.1
  · intro s p hp
    obtain ⟨hp', -, hancestors⟩ := hknown s p hp
    rw [hancestors, chain, chain, get_create_of_knows parent hp']

theorem perform (ht : t.Layered) (hq : ∀ s ∈ q.scope?, t.Knows s) :
    Layered (q.perform t).2 := by
  cases q with
  | create parent => exact ht.create hq
  | state | find | has => exact ht
  | put s n v =>
    obtain ⟨o, -, hr⟩ := rebinds_put ht (hq s rfl) n v
    exact hr.layered ht
  | define s n v => exact (rebinds_define (hq s rfl) n v).layered ht
  | delete s n => exact (rebinds_delete (hq s rfl) n).layered ht

theorem after (ht : t.Layered) (hh : t.Admits h) : (t.after h).Layered := by
  induction h generalizing t with
  | nil => exact ht
  | cons q h ih => exact ih (ht.perform hh.1) hh.2

end Layered

/-! ## The order of the names -/

end Scopes

/-- The operation binds a name in a scope. -/
def ScopeQuery.Binds (t : Scopes) (s : Id .scope) (x : String) : ScopeQuery → Prop
  | define r n _ => r = s ∧ n = x
  | put r n _ => t.IsTarget r n s ∧ n = x
  | _ => False

namespace Scopes

variable {t t' : Scopes} {s r o p : Id .scope} {v : Value} {q : ScopeQuery}
  {h h' : List ScopeQuery} {i j : Nat}

/-- The places of a history at which a name is bound in a scope without being deleted from it
later. -/
def definitions (h : List ScopeQuery) (s : Id .scope) (x : String) : Set Nat :=
  {i | ∃ pre q post, h = pre ++ q :: post ∧ pre.length = i ∧ q.Binds (after {} pre) s x ∧
    .delete s x ∉ post}

/-- Since they were last deleted, the one name was bound in the scope before the other. -/
def Earlier (h : List ScopeQuery) (s : Id .scope) (x y : String) : Prop :=
  ∃ i j, IsLeast (definitions h s x) i ∧ IsLeast (definitions h s y) j ∧ i < j

theorem definitions_nil : definitions [] s x = ∅ := by
  refine Set.eq_empty_of_forall_notMem ?_
  rintro i ⟨pre, q, post, hsplit, -⟩
  cases pre <;> cases hsplit

/-- The last operation is the last place, and a deletion makes the earlier places void. -/
theorem mem_definitions_append :
    i ∈ definitions (h ++ [q]) s x ↔
      (i ∈ definitions h s x ∧ q ≠ .delete s x) ∨ (i = h.length ∧ q.Binds (after {} h) s x) := by
  constructor
  · rintro ⟨pre, r, post, hsplit, rfl, hbinds, hpost⟩
    rcases List.eq_nil_or_concat post with rfl | ⟨post, last, rfl⟩
    · obtain ⟨rfl, ⟨⟩⟩ := List.append_inj' hsplit rfl
      exact .inr ⟨rfl, hbinds⟩
    · rw [List.concat_eq_append, ← List.cons_append, ← List.append_assoc] at hsplit
      obtain ⟨rfl, ⟨⟩⟩ := List.append_inj' hsplit rfl
      simp only [List.concat_eq_append, List.mem_append, List.mem_singleton, not_or] at hpost
      exact .inl ⟨⟨pre, r, post, rfl, rfl, hbinds, hpost.1⟩, Ne.symm hpost.2⟩
  · rintro (⟨⟨pre, r, post, rfl, rfl, hbinds, hpost⟩, hq⟩ | ⟨rfl, hbinds⟩)
    · refine ⟨pre, r, post ++ [q], by simp, rfl, hbinds, ?_⟩
      simpa [hpost] using Ne.symm hq
    · exact ⟨h, q, [], rfl, rfl, hbinds, List.not_mem_nil⟩

theorem lt_of_mem_definitions (hi : i ∈ definitions h s x) : i < h.length := by
  obtain ⟨pre, q, post, rfl, rfl, -⟩ := hi
  simp

/-- The first place stays the first one until the name is deleted. -/
theorem isLeast_append (hi : IsLeast (definitions h s x) i) (hq : q ≠ .delete s x) :
    IsLeast (definitions (h ++ [q]) s x) i := by
  refine ⟨mem_definitions_append.mpr (.inl ⟨hi.1, hq⟩), fun j hj => ?_⟩
  rcases mem_definitions_append.mp hj with ⟨hj, -⟩ | ⟨rfl, -⟩
  · exact hi.2 hj
  · exact Nat.le_of_lt (lt_of_mem_definitions hi.1)

/-- A name that is not bound gets its first place by being bound. -/
theorem isLeast_length (hx : definitions h s x = ∅) (hq : q.Binds (after {} h) s x) :
    IsLeast (definitions (h ++ [q]) s x) h.length := by
  refine ⟨mem_definitions_append.mpr (.inr ⟨rfl, hq⟩), fun j hj => ?_⟩
  rcases mem_definitions_append.mp hj with ⟨hj, -⟩ | ⟨rfl, -⟩
  · rw [hx] at hj
    exact hj.elim
  · exact Nat.le_refl _

theorem Earlier.append {y : String} (hxy : Earlier h s x y) (hx : q ≠ .delete s x)
    (hy : q ≠ .delete s y) : Earlier (h ++ [q]) s x y := by
  obtain ⟨i, j, hi, hj, hlt⟩ := hxy
  exact ⟨i, j, isLeast_append hi hx, isLeast_append hj hy, hlt⟩

theorem Earlier.ne {y : String} (hxy : Earlier h s x y) : x ≠ y := by
  rintro rfl
  obtain ⟨i, j, hi, hj, hlt⟩ := hxy
  exact Nat.lt_irrefl i (hi.unique hj ▸ hlt)

theorem definitions_append (hbinds : ¬ q.Binds (after {} h) s x) (hdelete : q ≠ .delete s x) :
    definitions (h ++ [q]) s x = definitions h s x := by
  ext i
  simp only [mem_definitions_append, hbinds, hdelete, and_false, or_false, ne_eq,
    not_false_eq_true, and_true]

theorem definitions_delete : definitions (h ++ [.delete s x]) s x = ∅ := by
  ext i
  simp [mem_definitions_append, ScopeQuery.Binds]

/-- The names are those that were bound in the scope and not deleted since, in the order in which
they were bound. -/
structure InOrder (h : List ScopeQuery) (s : Id .scope) (names : List String) : Prop where
  mem_iff : ∀ x, x ∈ names ↔ (definitions h s x).Nonempty
  sorted : names.Pairwise (Earlier h s)

namespace InOrder

variable {names : List String}

theorem nodup (ho : InOrder h s names) : names.Nodup := ho.sorted.imp Earlier.ne

theorem kept (ho : InOrder h s names) (hbinds : ∀ x, ¬ q.Binds (after {} h) s x)
    (hdelete : ∀ x, q ≠ .delete s x) : InOrder (h ++ [q]) s names where
  mem_iff x := by rw [definitions_append (hbinds x) (hdelete x), ho.mem_iff]
  sorted := ho.sorted.imp fun hxy => hxy.append (hdelete _) (hdelete _)

theorem bound (ho : InOrder h s names) (hbinds : ∀ y, q.Binds (after {} h) s y ↔ y = x)
    (hdelete : ∀ y, q ≠ .delete s y) :
    InOrder (h ++ [q]) s (if x ∈ names then names else names ++ [x]) where
  mem_iff y := by
    have hmem : y ∈ (if x ∈ names then names else names ++ [x]) ↔ y ∈ names ∨ y = x := by
      split
      · next hx =>
        refine ⟨.inl, fun hy => hy.elim id ?_⟩
        rintro rfl
        exact hx
      · rw [List.mem_append, List.mem_singleton]
    rw [hmem, ho.mem_iff]
    by_cases hy : y = x
    · have hlast : h.length ∈ definitions (h ++ [q]) s y :=
        mem_definitions_append.mpr (.inr ⟨rfl, (hbinds y).mpr hy⟩)
      exact ⟨fun _ => ⟨_, hlast⟩, fun _ => .inr hy⟩
    · rw [definitions_append (fun hb => hy ((hbinds y).mp hb)) (hdelete y)]
      exact or_iff_left hy
  sorted := by
    have hold : names.Pairwise (Earlier (h ++ [q]) s) :=
      ho.sorted.imp fun hxy => hxy.append (hdelete _) (hdelete _)
    split
    · exact hold
    · next hx =>
      have hnone : definitions h s x = ∅ :=
        Set.not_nonempty_iff_eq_empty.mp fun hne => hx ((ho.mem_iff x).mpr hne)
      rw [List.pairwise_append]
      refine ⟨hold, List.pairwise_singleton _ _, fun y hy z hz => ?_⟩
      obtain rfl := List.mem_singleton.mp hz
      -- Every place that was there before is before the last one.
      obtain ⟨i, hi⟩ : ∃ i, IsLeast (definitions h s y) i :=
        ⟨_, isLeast_csInf ((ho.mem_iff y).mp hy)⟩
      exact ⟨i, h.length, isLeast_append hi (hdelete y),
        isLeast_length hnone ((hbinds z).mpr rfl), lt_of_mem_definitions hi.1⟩

theorem deleted (ho : InOrder h s names) :
    InOrder (h ++ [.delete s x]) s (names.filter (· ≠ x)) where
  mem_iff y := by
    rw [List.mem_filter, decide_eq_true_iff, ho.mem_iff]
    by_cases hy : y = x
    · subst hy
      simp [definitions_delete]
    · have hne : ScopeQuery.delete s x ≠ .delete s y := fun heq => hy (by cases heq; rfl)
      rw [definitions_append id hne]
      exact and_iff_left hy
  sorted := by
    have hne : ∀ y ∈ names.filter (· ≠ x), ScopeQuery.delete s x ≠ .delete s y := by
      rintro y hy ⟨⟩
      simp at hy
    refine (ho.sorted.filter _).imp_of_mem fun ha hb hxy => hxy.append (hne _ ha) (hne _ hb)

end InOrder

theorem inOrder_define (ho : InOrder h s ((after {} h).get s).names) (hknown : (after {} h).Knows o)
    (hbinds : ∀ y, q.Binds (after {} h) s y ↔ s = o ∧ y = n) (hdelete : ∀ y, q ≠ .delete s y) :
    InOrder (h ++ [q]) s (((after {} h).define o n v).get s).names := by
  rw [define, get_modify hknown]
  split
  · next hs =>
    rw [Scope.names_define]
    exact ho.bound (fun y => (hbinds y).trans (and_iff_right hs)) hdelete
  · next hs => exact ho.kept (fun y hy => hs ((hbinds y).mp hy).1) hdelete

/-- The names of a scope stay in order. -/
theorem inOrder_perform (ht : (after {} h).Layered) (hq : ∀ r ∈ q.scope?, (after {} h).Knows r)
    (ho : InOrder h s ((after {} h).get s).names) :
    InOrder (h ++ [q]) s (Table.get (q.perform (after {} h)).2 s).names := by
  cases q with
  | create parent =>
    have hnames : (((after {} h).create parent).2.get s).names = ((after {} h).get s).names := by
      rw [get_create]
      split
      · next hs =>
        rw [get_of_not_knows fun hs' => Nat.lt_irrefl _ (hs ▸ knows_iff.mp hs')]
        rfl
      · rfl
    rw [ScopeQuery.perform, hnames]
    exact ho.kept (fun _ => id) fun _ hd => by cases hd
  | state | find | has => exact ho.kept (fun _ => id) fun _ hd => by cases hd
  | put r n v =>
    have htarget := isTarget_getD_owner? ht r n
    refine inOrder_define ho (htarget.knows (hq r rfl)) (fun y => ?_) fun _ hd => by cases hd
    constructor
    · rintro ⟨hs, rfl⟩
      exact ⟨hs.unique htarget, rfl⟩
    · rintro ⟨rfl, rfl⟩
      exact ⟨htarget, rfl⟩
  | define r n v =>
    refine inOrder_define ho (hq r rfl) (fun y => ?_) fun _ hd => by cases hd
    exact and_congr eq_comm eq_comm
  | delete r n =>
    simp only [ScopeQuery.perform, delete, get_modify (hq r rfl)]
    split
    · next hs =>
      subst hs
      rw [Scope.names_delete]
      exact ho.deleted
    · next hs =>
      refine ho.kept (fun _ => id) ?_
      rintro y ⟨⟩
      exact hs rfl

theorem inOrder_after (hh : Admits {} h) (s : Id .scope) :
    InOrder h s ((after {} h).get s).names := by
  induction h using List.reverseRecOn with
  | nil =>
    rw [get_of_not_knows (t := after {} []) fun hs => Nat.not_lt_zero _ (knows_iff.mp hs)]
    exact ⟨fun x => by simp [definitions_nil, Scope.names], List.Pairwise.nil⟩
  | append_singleton h q ih =>
    obtain ⟨hold, hq, -⟩ := admits_append.mp hh
    rw [after_append, after_singleton]
    exact inOrder_perform (Layered.empty.after hold) hq (ih hold)

/-- Scopes are layered environments. After any operations, a lookup goes through the layers; an
assignment binds the name in the nearest scope that has it, a definition and a deletion act on the
scope alone, and nothing else changes for anybody who does not see the binding first; and the names
of a scope stand once each in the order in which they were bound since they were last deleted. -/
theorem layered_environments (h : List ScopeQuery) (t : Scopes) (hh : Admits {} h)
    (ht : after {} h = t) :
    (∀ s n, t.find? s n = ((t.get s).find? n).or (t.above? s n) ∧
      t.has s n = (t.find? s n).isSome) ∧
    (∀ s n v, t.Knows s →
      (t.put s n v).find? s n = some v ∧
      ∃ o, t.IsTarget s n o ∧ t.Rebinds (t.put s n v) o n (some v)) ∧
    (∀ s n v, t.Knows s →
      (t.define s n v).find? s n = some v ∧ t.Rebinds (t.define s n v) s n (some v)) ∧
    (∀ s n, t.Knows s →
      (t.delete s n).1 = (t.get s).find? n ∧
      (t.delete s n).2.find? s n = t.above? s n ∧ t.Rebinds (t.delete s n).2 s n none) ∧
    (∀ t' o n v?, t.Rebinds t' o n v? → ∀ r x,
      (t.Sees n o r → t'.find? r n = v?.or (t.above? o n)) ∧
      ((x = n → ¬ t.Sees n o r) → t'.find? r x = t.find? r x)) ∧
    ∀ s, (t.get s).names.Nodup ∧ (∀ x, x ∈ (t.get s).names ↔ (definitions h s x).Nonempty) ∧
      (t.get s).names.Pairwise (Earlier h s) := by
  have hl : t.Layered := ht ▸ Layered.empty.after hh
  refine ⟨fun s n => ⟨hl.find?_eq s n, hl.has_eq_isSome_find? s n⟩, ?_, ?_, ?_, ?_, ?_⟩
  · intro s n v hs
    obtain ⟨o, htarget, hr⟩ := rebinds_put hl hs n v
    refine ⟨?_, o, htarget, hr⟩
    rw [hr.find?_of_sees hl htarget.sees, hr.find?_self hl, Option.some_or]
  · intro s n v hs
    have hr := rebinds_define hs n v
    refine ⟨?_, hr⟩
    rw [hr.find?_self hl, Option.some_or]
  · intro s n hs
    have hr := rebinds_delete hs n
    refine ⟨rfl, ?_, hr⟩
    rw [hr.find?_self hl, Option.none_or]
  · intro t' o n v? hr r x
    refine ⟨fun hsees => ?_, hr.find?_of_not_sees hl⟩
    rw [hr.find?_of_sees hl hsees, hr.find?_self hl]
  · intro s
    subst ht
    have ho := inOrder_after hh s
    exact ⟨ho.nodup, ho.mem_iff, ho.sorted⟩

/-- A child hides a name of its parent, and forgets another one of its own for a while. -/
def shadowing : List ScopeQuery :=
  [.create none, .create (some ⟨0⟩), .define ⟨0⟩ "x" .null, .put ⟨1⟩ "y" .null,
    .define ⟨1⟩ "x" (.bool true), .delete ⟨1⟩ "y", .put ⟨1⟩ "y" .undefined]

theorem layered_environments_shadowing :
    Admits {} shadowing ∧ (after {} shadowing).Knows ⟨1⟩ ∧
      (after {} shadowing).find? ⟨1⟩ "x" = some (.bool true) ∧
      ((after {} shadowing).delete ⟨1⟩ "x").2.find? ⟨1⟩ "x" = some .null ∧
      ((after {} shadowing).put ⟨1⟩ "y" .null).find? ⟨1⟩ "y" = some .null := by
  have hknown : (after {} shadowing).Knows ⟨1⟩ := by decide
  obtain ⟨-, hput, -, hdelete, -⟩ := layered_environments shadowing _ (by decide) rfl
  refine ⟨by decide, hknown, rfl, ?_, (hput ⟨1⟩ "y" .null hknown).1⟩
  exact (hdelete ⟨1⟩ "x" hknown).2.1

example : ((after {} shadowing).get ⟨1⟩).names = ["x", "y"] := rfl

end Scopes

end ScriptMachine
