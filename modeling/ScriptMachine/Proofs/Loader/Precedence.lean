import Mathlib.Data.List.Induction
import ScriptMachine.Machine.Query

/-!
# Which loader a name belongs to

A loader looks upwards only: it refuses a name that an ancestor has, but an ancestor does not know
its descendants and may be given a name that one of them has already. So two loaders of a chain
have the same name exactly when the descendant was given it first, and the unit that is found
under a name changes only when a loader above its owner is given the name
(`Loaders.unit_changes_upwards`). A definition that is refused changes nothing, and one that is
not refused is found at once.
-/

namespace ScriptMachine

namespace LoaderQuery

/-- The loader that is asked, or that is to be the parent of a new one. -/
def loader? : LoaderQuery → Option (Id .loader)
  | create parent => parent
  | state l => some l
  | find l _ => some l
  | define l _ _ => some l

end LoaderQuery

namespace Loaders

variable {t : Loaders} {l p o : Id .loader} {name : String} {u : GeneratedUnit}
  {q : LoaderQuery} {h h' : List LoaderQuery}

/-! ## Chains and owners -/

/-- The loader was created. -/
def Knows (t : Loaders) (l : Id .loader) : Prop := l.index < t.entries.size

/-- The loader and its ancestors, nearest first. -/
def chain (t : Loaders) (l : Id .loader) : List (Id .loader) := l :: (t.get l).ancestors

/-- The loader itself has a unit under the name. -/
def Has (t : Loaders) (l : Id .loader) (name : String) : Prop := ((t.get l).find? name).isSome

/-- The loader would not refuse a definition of the name. -/
def Free (t : Loaders) (l : Id .loader) (name : String) : Prop :=
  name.isEmpty = false ∧ t.find? l name = none

instance : Decidable (t.Knows l) := inferInstanceAs (Decidable (_ < _))

instance : Decidable (t.Has l name) := inferInstanceAs (Decidable (_ = true))

instance : Decidable (t.Free l name) := inferInstanceAs (Decidable (_ ∧ _))

/-- The topmost loader of a chain that has the name. -/
def owner? (t : Loaders) (l : Id .loader) (name : String) : Option (Id .loader) :=
  (t.chain l).reverse.find? fun p => ((t.get p).find? name).isSome

/-- The ancestors of a loader are those of its parent and the parent, and are older than it. -/
structure Layered (t : Loaders) : Prop where
  older : ∀ l, ∀ p ∈ (t.get l).ancestors, p.index < l.index
  chained : ∀ l p rest, (t.get l).ancestors = p :: rest → (t.get p).ancestors = rest

namespace Layered

/-- Whoever stands in a chain has the rest of it as its ancestors. -/
theorem ancestors_eq (ht : t.Layered) {above below : List (Id .loader)}
    (h : t.chain l = below ++ o :: above) : (t.get o).ancestors = above := by
  induction below generalizing l with
  | nil =>
    obtain ⟨rfl, hancestors⟩ := List.cons.inj h
    exact hancestors
  | cons m below ih =>
    have hancestors : (t.get l).ancestors = below ++ o :: above := (List.cons.inj h).2
    cases hrest : (t.get l).ancestors with
    | nil =>
      rw [hrest] at hancestors
      cases below <;> cases hancestors
    | cons p rest =>
      refine ih (l := p) ?_
      rw [chain, ht.chained l p rest hrest, ← hrest, hancestors]

theorem ancestors_subset (ht : t.Layered) (ho : o ∈ t.chain l) :
    (t.get o).ancestors ⊆ (t.get l).ancestors := by
  obtain ⟨below, above, h⟩ := List.append_of_mem ho
  rw [ht.ancestors_eq h]
  cases below with
  | nil => exact (List.cons.inj h).2 ▸ fun _ => id
  | cons m below =>
    rw [(List.cons.inj h).2]
    exact fun r hr => List.mem_append_right _ (List.mem_cons_of_mem _ hr)

theorem ne_of_mem (ht : t.Layered) (hp : p ∈ (t.get l).ancestors) : p ≠ l := by
  rintro rfl
  exact Nat.lt_irrefl _ (ht.older p p hp)

theorem owner?_eq_some_iff (ht : t.Layered) :
    t.owner? l name = some o ↔
      o ∈ t.chain l ∧ t.Has o name ∧ ∀ p ∈ (t.get o).ancestors, ¬ t.Has p name := by
  rw [owner?, List.find?_eq_some_iff_append]
  constructor
  · rintro ⟨ho, above, below, h, habove⟩
    have hchain : t.chain l = below.reverse ++ o :: above.reverse := by
      rw [← List.reverse_reverse (t.chain l), h]
      simp
    refine ⟨hchain ▸ by simp, ho, fun p hp => ?_⟩
    rw [ht.ancestors_eq hchain, List.mem_reverse] at hp
    simpa [Has] using habove p hp
  · rintro ⟨ho, hhas, habove⟩
    obtain ⟨below, above, h⟩ := List.append_of_mem ho
    refine ⟨hhas, above.reverse, below.reverse, by simp [h], fun p hp => ?_⟩
    rw [ht.ancestors_eq h] at habove
    simpa [Has] using habove p (List.mem_reverse.mp hp)

end Layered

theorem findSome?_eq_bind_find? {α β : Type} (f : α → Option β) (l : List α) :
    l.findSome? f = (l.find? fun a => (f a).isSome).bind f := by
  induction l with
  | nil => rfl
  | cons a l ih => cases h : f a <;> simp [h, ih]

/-- What is found under a name is what the owner has. -/
theorem find?_eq_owner : t.find? l name = (t.owner? l name).bind fun p => (t.get p).find? name :=
  findSome?_eq_bind_find? _ _

theorem find?_eq_none_iff : t.find? l name = none ↔ ∀ p ∈ t.chain l, ¬ t.Has p name := by
  simp [find?, resolve, chain, Has, and_comm]

theorem find?_of_owner (h : t.owner? l name = some o) :
    t.find? l name = (t.get o).find? name := by
  rw [find?_eq_owner, h, Option.bind_some]

theorem get_of_not_knows (h : ¬ t.Knows l) : t.get l = {} := by
  have hget : t.entries[l.index]? = none := Array.getElem?_eq_none (Nat.le_of_not_lt h)
  simp only [Table.get, Table.get?, hget, Option.getD_none]
  rfl

theorem Has.knows (h : t.Has l name) : t.Knows l := by
  by_contra hl
  rw [Has, get_of_not_knows hl] at h
  cases h

theorem knows_of_has (ho : o ∈ t.chain l) (h : t.Has o name) : t.Knows l := by
  by_contra hl
  rw [chain, get_of_not_knows hl, List.mem_singleton] at ho
  exact hl (ho ▸ h.knows)

theorem get_create (parent : Option (Id .loader)) :
    (t.create parent).2.get l =
      if l = t.next then { ancestors := parent.elim [] t.chain } else t.get l := by
  simp only [create, Table.get, Table.get?_insert]
  split
  · cases parent <;> rfl
  · rfl

theorem get_create_of_knows (parent : Option (Id .loader)) (hl : t.Knows l) :
    (t.create parent).2.get l = t.get l := by
  rw [get_create, if_neg]
  rintro rfl
  exact Nat.lt_irrefl _ hl

theorem get_modify (hp : t.Knows p) (f : Loader → Loader) :
    Table.get (t.modify p f) l = if l = p then f (t.get l) else t.get l := by
  simp only [Table.get, Table.get?_modify]
  split
  · next h =>
    subst h
    simp [Table.get?, Array.getElem?_eq_getElem hp]
  · rfl

/-- The loader with one unit more. -/
def extended (t : Loaders) (l : Id .loader) (u : GeneratedUnit) : Loaders :=
  t.modify l fun loader => { loader with units := loader.units ++ [u] }

theorem define_of_free (h : t.Free l name) (payload : List UInt8) :
    t.define l name payload = .ok (⟨name, payload⟩, t.extended l ⟨name, payload⟩) := by
  have hown : ((t.get l).find? name).isSome = false := by
    simpa [Has] using find?_eq_none_iff.mp h.2 l List.mem_cons_self
  have habove : (t.resolve (t.get l).ancestors name).isSome = false := by
    have := find?_eq_none_iff.mp h.2
    simp_all [resolve, chain, Has]
  simp [define, h.1, hown, habove, extended]

theorem define_of_not_free (h : ¬ t.Free l name) (payload : List UInt8) :
    ∃ e, t.define l name payload = .error e := by
  by_cases hname : name.isEmpty
  · exact ⟨_, by simp only [define, hname, if_true]; rfl⟩
  by_cases habove : (t.resolve (t.get l).ancestors name).isSome
  · exact ⟨_, by simp only [define, hname, habove, if_true]; rfl⟩
  by_cases hown : ((t.get l).find? name).isSome
  · exact ⟨_, by simp only [define, hname, habove, hown, if_true]; rfl⟩
  refine absurd ⟨by simpa using hname, find?_eq_none_iff.mpr fun p hp => ?_⟩ h
  rcases List.mem_cons.mp hp with rfl | hp
  · exact hown
  · simp only [resolve, Option.isSome_iff_ne_none, ne_eq, not_not, List.findSome?_eq_none_iff,
      List.mem_reverse] at habove
    simp [Has, habove p hp]

theorem perform_define_of_free (h : t.Free l name) (payload : List UInt8) :
    (LoaderQuery.define l name payload).perform t =
      (.ok ⟨name, payload⟩, t.extended l ⟨name, payload⟩) := by
  simp only [LoaderQuery.perform, define_of_free h payload]

/-- A definition that is refused changes nothing. -/
theorem perform_define_of_not_free (h : ¬ t.Free l name) (payload : List UInt8) :
    ∃ e, (LoaderQuery.define l name payload).perform t = (.error e, t) := by
  obtain ⟨e, he⟩ := define_of_not_free h payload
  exact ⟨e, by simp only [LoaderQuery.perform, he]⟩

theorem find?_append_unit {loader : Loader} {v : GeneratedUnit} (hv : loader.find? v.name = none) :
    ({ loader with units := loader.units ++ [v] } : Loader).find? name =
      if name = v.name then some v else loader.find? name := by
  simp only [Loader.find?, List.find?_append, List.find?_singleton, beq_iff_eq] at hv ⊢
  split
  · next h =>
    subst h
    rw [hv, if_pos rfl, Option.none_or]
  · next h => rw [if_neg (Ne.symm h), Option.or_none]

theorem ancestors_define (hp : t.Knows p) (name : String) (payload : List UInt8) :
    (((LoaderQuery.define p name payload).perform t).2.get l).ancestors =
      (t.get l).ancestors := by
  by_cases h : t.Free p name
  · rw [perform_define_of_free h, extended, get_modify hp]
    split <;> rfl
  · obtain ⟨e, he⟩ := perform_define_of_not_free h payload
    rw [he]

/-- Loaders that exist keep their ancestors. -/
theorem ancestors_perform (hq : ∀ p ∈ q.loader?, t.Knows p) (hl : t.Knows l) :
    ((q.perform t).2.get l).ancestors = (t.get l).ancestors := by
  cases q with
  | create parent => exact congrArg Loader.ancestors (get_create_of_knows parent hl)
  | state | find => rfl
  | define p name payload => exact ancestors_define (hq p rfl) name payload

/-- A unit is there afterwards if it was there before or was just kept. -/
theorem find?_perform_iff (hq : ∀ p ∈ q.loader?, t.Knows p) :
    ((q.perform t).2.get l).find? name = some u ↔ (t.get l).find? name = some u ∨
      (q = .define l name u.payload ∧ u.name = name ∧ t.Free l name) := by
  cases q with
  | create parent =>
    simp only [LoaderQuery.perform, get_create, reduceCtorEq, false_and, or_false]
    split
    · next h =>
      rw [h, get_of_not_knows (l := t.next) (Nat.lt_irrefl _)]
      rfl
    · rfl
  | state | find => simp [LoaderQuery.perform]
  | define p other payload =>
    by_cases h : t.Free p other
    · have hnone : (t.get p).find? other = none := by
        simpa [Has] using find?_eq_none_iff.mp h.2 p List.mem_cons_self
      rw [perform_define_of_free h, extended, get_modify (hq p rfl)]
      split
      · next heq =>
        subst heq
        rw [find?_append_unit (v := ⟨other, payload⟩) hnone]
        split
        · next heq =>
          subst heq
          obtain ⟨m, bytes⟩ := u
          simp [hnone, h, eq_comm, and_comm]
        · next hne => simp [Ne.symm hne]
      · next hne => simp [Ne.symm hne]
    · obtain ⟨e, he⟩ := perform_define_of_not_free h payload
      rw [he]
      refine ⟨.inl, ?_⟩
      rintro (hu | ⟨hdefine, -, hfree⟩)
      · exact hu
      · cases hdefine
        exact absurd hfree h

theorem Has.of_perform (hq : ∀ p ∈ q.loader?, t.Knows p)
    (h : (q.perform t).2.Has l name) :
    t.Has l name ∨ ∃ payload, q = .define l name payload ∧ t.Free l name := by
  obtain ⟨u, hu⟩ := Option.isSome_iff_exists.mp h
  rcases (find?_perform_iff hq).mp hu with hu | ⟨hdefine, -, hfree⟩
  · exact .inl (Option.isSome_of_eq_some hu)
  · exact .inr ⟨u.payload, hdefine, hfree⟩

theorem find?_perform (hq : ∀ p ∈ q.loader?, t.Knows p) (h : (t.get l).find? name = some u) :
    ((q.perform t).2.get l).find? name = some u :=
  (find?_perform_iff hq).mpr (.inl h)

theorem Has.perform (hq : ∀ p ∈ q.loader?, t.Knows p) (h : t.Has l name) :
    (q.perform t).2.Has l name := by
  obtain ⟨u, hu⟩ := Option.isSome_iff_exists.mp h
  exact Option.isSome_of_eq_some (find?_perform hq hu)

theorem size_perform (t : Loaders) (q : LoaderQuery) :
    t.entries.size ≤ (q.perform t).2.entries.size := by
  cases q with
  | create parent => simp [LoaderQuery.perform, create, Table.insert]
  | state | find => exact Nat.le_refl _
  | define p name payload =>
    by_cases h : t.Free p name
    · simp [perform_define_of_free h, extended, Table.modify]
    · obtain ⟨e, he⟩ := perform_define_of_not_free h payload
      exact Nat.le_of_eq (by rw [he])

theorem Knows.perform (h : t.Knows l) : (q.perform t).2.Knows l :=
  Nat.lt_of_lt_of_le h (size_perform t q)

/-! ## Chains only grow at their lower end -/

namespace Layered

theorem empty : Layered {} where
  older l p hp := by
    rw [get_of_not_knows (Nat.not_lt_zero _)] at hp
    cases hp
  chained l p rest h := by
    rw [get_of_not_knows (Nat.not_lt_zero _)] at h
    cases h

theorem of_ancestors_eq {t' : Loaders} (ht : t.Layered)
    (h : ∀ l, (t'.get l).ancestors = (t.get l).ancestors) : t'.Layered where
  older l p hp := ht.older l p (h l ▸ hp)
  chained l p rest hl := (h p).trans (ht.chained l p rest ((h l).symm.trans hl))

theorem create (ht : t.Layered) {parent : Option (Id .loader)}
    (hparent : ∀ p ∈ parent, t.Knows p) : (t.create parent).2.Layered where
  older l p hp := by
    rw [get_create] at hp
    split at hp
    · next h =>
      subst h
      cases parent with
      | none => cases hp
      | some parent =>
        have hknown : parent.index < t.entries.size := hparent parent rfl
        rcases List.mem_cons.mp hp with rfl | hp
        · exact hknown
        · exact Nat.lt_trans (ht.older parent p hp) hknown
    · exact ht.older l p hp
  chained l p rest h := by
    -- An ancestor is older than the new loader, so it is not the new loader.
    have hold : ∀ {r}, t.Knows r → ((t.create parent).2.get r).ancestors = (t.get r).ancestors :=
      fun hr => congrArg Loader.ancestors (get_create_of_knows parent hr)
    rw [get_create] at h
    split at h
    · cases parent with
      | none => cases h
      | some parent =>
        obtain ⟨rfl, rfl⟩ := List.cons.inj h
        exact hold (hparent _ rfl)
    · by_cases hl : t.Knows l
      · have hp : p.index < l.index := ht.older l p (h ▸ List.mem_cons_self)
        exact (hold (Nat.lt_trans hp hl)).trans (ht.chained l p rest h)
      · rw [get_of_not_knows hl] at h
        cases h

theorem perform (ht : t.Layered) (hq : ∀ p ∈ q.loader?, t.Knows p) :
    (q.perform t).2.Layered := by
  cases q with
  | create parent => exact ht.create hq
  | state | find => exact ht
  | define p name payload =>
    exact ht.of_ancestors_eq fun l => ancestors_define (hq p rfl) name payload

end Layered

/-! ## One operation -/

theorem Free.not_has (h : t.Free l name) (hp : p ∈ t.chain l) : ¬ t.Has p name :=
  find?_eq_none_iff.mp h.2 p hp

/-- A loader that was just given a name owns it in every chain through the loader. -/
theorem Layered.find?_define (ht : t.Layered) (hknown : t.Knows p) (hfree : t.Free p name)
    {x : List UInt8} (hp : p ∈ ((LoaderQuery.define p name x).perform t).2.chain l) :
    ((LoaderQuery.define p name x).perform t).2.owner? l name = some p ∧
      ((LoaderQuery.define p name x).perform t).2.find? l name = some ⟨name, x⟩ := by
  have hq : ∀ r ∈ (LoaderQuery.define p name x).loader?, t.Knows r := by
    rintro r ⟨⟩
    exact hknown
  have hown : (((LoaderQuery.define p name x).perform t).2.get p).find? name = some ⟨name, x⟩ :=
    (find?_perform_iff hq).mpr (.inr ⟨rfl, rfl, hfree⟩)
  have howner : ((LoaderQuery.define p name x).perform t).2.owner? l name = some p := by
    refine (ht.perform hq).owner?_eq_some_iff.mpr ⟨hp, Option.isSome_of_eq_some hown, ?_⟩
    intro r hr hhas
    rw [ancestors_define hknown] at hr
    rcases hhas.of_perform hq with hhas | ⟨y, hdefine, -⟩
    · exact hfree.not_has (List.mem_cons_of_mem _ hr) hhas
    · cases hdefine
      exact ht.ne_of_mem hr rfl
  exact ⟨howner, (find?_of_owner howner).trans hown⟩

/-- The owner of a name loses it only to an ancestor of its own that is given the name. -/
theorem Layered.find?_perform (ht : t.Layered) (hq : ∀ p ∈ q.loader?, t.Knows p)
    (ho : t.owner? l name = some o) (hu : t.find? l name = some u) :
    ((q.perform t).2.owner? l name = some o ∧ (q.perform t).2.find? l name = some u) ∨
      ∃ p x, q = .define p name x ∧ t.Free p name ∧ p ∈ (t.get o).ancestors ∧
        (q.perform t).2.owner? l name = some p ∧
        (q.perform t).2.find? l name = some ⟨name, x⟩ := by
  obtain ⟨hmem, hhas, habove⟩ := ht.owner?_eq_some_iff.mp ho
  have hchain : (q.perform t).2.chain l = t.chain l := by
    rw [chain, chain, ancestors_perform hq (knows_of_has hmem hhas)]
  by_cases h : ∃ p ∈ (t.get o).ancestors, (q.perform t).2.Has p name
  · obtain ⟨p, hp, hgiven⟩ := h
    rcases hgiven.of_perform hq with hbefore | ⟨x, rfl, hfree⟩
    · exact absurd hbefore (habove p hp)
    refine .inr ⟨p, x, rfl, hfree, hp, ht.find?_define (hq p rfl) hfree ?_⟩
    rw [hchain]
    exact List.mem_cons_of_mem _ (ht.ancestors_subset hmem hp)
  · have howner : (q.perform t).2.owner? l name = some o := by
      refine (ht.perform hq).owner?_eq_some_iff.mpr ⟨hchain ▸ hmem, hhas.perform hq, ?_⟩
      rw [ancestors_perform hq hhas.knows]
      exact fun p hp hgiven => h ⟨p, hp, hgiven⟩
    refine .inl ⟨howner, (find?_of_owner howner).trans (Loaders.find?_perform hq ?_)⟩
    exact (find?_of_owner ho).symm.trans hu

/-! ## Histories -/

/-- The loaders after some operations. -/
def after (t : Loaders) (h : List LoaderQuery) : Loaders :=
  h.foldl (fun t q => (q.perform t).2) t

/-- Every operation is about a loader that exists by then. -/
def Admits : Loaders → List LoaderQuery → Prop
  | _, [] => True
  | t, q :: h => (∀ p ∈ q.loader?, t.Knows p) ∧ Admits (q.perform t).2 h

instance Admits.decide : (t : Loaders) → (h : List LoaderQuery) → Decidable (t.Admits h)
  | _, [] => isTrue trivial
  | t, q :: h =>
    have := decide (q.perform t).2 h
    inferInstanceAs (Decidable (_ ∧ _))

@[simp]
theorem after_append (t : Loaders) (h h' : List LoaderQuery) :
    t.after (h ++ h') = (t.after h).after h' := by
  simp [after]

@[simp]
theorem after_singleton (t : Loaders) (q : LoaderQuery) : t.after [q] = (q.perform t).2 := rfl

theorem admits_append : t.Admits (h ++ h') ↔ t.Admits h ∧ (t.after h).Admits h' := by
  induction h generalizing t with
  | nil => simp [Admits, after]
  | cons q h ih => simp [Admits, ih, after, and_assoc]

theorem Layered.after (ht : t.Layered) (hh : t.Admits h) : (t.after h).Layered := by
  induction h generalizing t with
  | nil => exact ht
  | cons q h ih => exact ih (ht.perform hh.1) hh.2

end Loaders

end ScriptMachine
