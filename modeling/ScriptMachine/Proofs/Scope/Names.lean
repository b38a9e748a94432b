import ScriptMachine.Machine.Query

/-!
# Which names are bound

A definition binds its name and nothing else, an assignment to a name that is bound along the chain
binds nothing, and a name is unbound only by deleting it: `Scopes.mem_names_of_define`,
`Scopes.mem_names_of_put` and `ScopeQuery.mem_names_perform`.
-/

namespace ScriptMachine

variable {name x : String}

namespace Scope

theorem has_iff_mem_names (s : Scope) : s.has name = true ↔ name ∈ s.names := by
  simp [has, names]

theorem mem_names_define (s : Scope) (v : Value) :
    x ∈ (s.define name v).names ↔ x = name ∨ x ∈ s.names := by
  obtain ⟨bindings, ancestors⟩ := s
  simp only [define, names]
  induction bindings with
  | nil => simp [assign]
  | cons b rest ih =>
    rw [assign]
    split
    · next hb =>
      have hname : b.1 = name := by simpa using hb
      simp [hname]
    · rw [List.map_cons, List.mem_cons, ih, List.map_cons, List.mem_cons]
      exact or_left_comm

theorem mem_names_delete (s : Scope) :
    x ∈ (s.delete name).names ↔ x ∈ s.names ∧ x ≠ name := by
  simp only [delete, names, List.mem_map, List.mem_filter, bne_iff_ne]
  constructor
  · rintro ⟨b, ⟨hb, hne⟩, rfl⟩
    exact ⟨⟨b, hb, rfl⟩, hne⟩
  · rintro ⟨⟨b, hb, rfl⟩, hne⟩
    exact ⟨b, ⟨hb, hne⟩, rfl⟩

end Scope

namespace Scopes

/-- A scope was made. -/
def Knows (t : Scopes) (s : Id .scope) : Prop := (t.get? s).isSome = true

variable {t : Scopes} {s o : Id .scope}

/-- A scope that was not made binds nothing. -/
theorem knows_of_mem_names (h : x ∈ (t.get o).names) : t.Knows o := by
  cases ho : t.get? o with
  | none =>
    rw [Table.get, ho] at h
    cases h
  | some scope =>
    rw [Knows, ho]
    rfl

theorem get_modify (hs : t.Knows s) (f : Scope → Scope) :
    Table.get (t.modify s f) o = if o = s then f (t.get o) else t.get o := by
  simp only [Table.get, Table.get?_modify]
  split
  · next h =>
    subst h
    obtain ⟨scope, hscope⟩ := Option.isSome_iff_exists.mp hs
    rw [hscope]
    rfl
  · rfl

theorem modify_of_not_knows (hs : ¬ t.Knows s) (f : Scope → Scope) :
    Table.get (t.modify s f) o = t.get o := by
  simp only [Table.get, Table.get?_modify]
  split
  · next h =>
    subst h
    rw [Option.not_isSome_iff_eq_none.mp hs]
    rfl
  · rfl

theorem Knows.modify (h : t.Knows o) (s : Id .scope) (f : Scope → Scope) :
    Scopes.Knows (t.modify s f) o := by
  rw [Knows, Table.get?_modify]
  split
  · rw [Option.isSome_map]
    exact h
  · exact h

theorem Knows.define (h : t.Knows o) (v : Value) : (t.define s name v).Knows o := h.modify _ _

theorem Knows.put (h : t.Knows o) (v : Value) : (t.put s name v).Knows o := h.define v

/-- A definition binds its name, and nothing else, in its scope. -/
theorem mem_names_define (hs : t.Knows s) (v : Value) :
    x ∈ ((t.define s name v).get o).names ↔ x ∈ (t.get o).names ∨ o = s ∧ x = name := by
  rw [define, get_modify hs]
  split
  · next h =>
    rw [Scope.mem_names_define, or_comm]
    exact or_congr_right ⟨fun hx => ⟨h, hx⟩, fun hx => hx.2⟩
  · next h => exact ⟨.inl, fun hx => hx.resolve_right fun hx => h hx.1⟩

theorem mem_names_of_define {v : Value} (h : x ∈ ((t.define s name v).get o).names) :
    x ∈ (t.get o).names ∨ o = s ∧ x = name := by
  by_cases hs : t.Knows s
  · exact (mem_names_define hs v).mp h
  · rw [define, modify_of_not_knows hs] at h
    exact .inl h

theorem names_subset_define (v : Value) :
    (t.get o).names ⊆ ((t.define s name v).get o).names := by
  intro x hx
  by_cases hs : t.Knows s
  · exact (mem_names_define hs v).mpr (.inl hx)
  · rw [define, modify_of_not_knows hs]
    exact hx

theorem names_subset_put (v : Value) : (t.get o).names ⊆ ((t.put s name v).get o).names :=
  names_subset_define v

/-- An assignment to a name that is bound along the chain binds nothing. -/
theorem mem_names_of_put {v : Value} (hname : t.has s name = true)
    (h : x ∈ ((t.put s name v).get o).names) : x ∈ (t.get o).names := by
  obtain ⟨owner, howner⟩ := Option.isSome_iff_exists.mp hname
  rw [put, howner, Option.getD_some] at h
  rcases mem_names_of_define h with h | ⟨rfl, rfl⟩
  · exact h
  · have hbinds := List.find?_some (p := fun owner => (t.get owner).has x) howner
    exact (Scope.has_iff_mem_names _).mp hbinds

end Scopes

namespace ScopeQuery

variable {t : Scopes} {o : Id .scope}

/-- A host unbinds a name only by deleting it. -/
theorem mem_names_perform (q : ScopeQuery) (hx : x ∈ (t.get o).names) :
    x ∈ ((q.perform t).2.get o).names ∨ q = .delete o x := by
  cases q with
  | create parent =>
    have hne : o ≠ t.next := by
      rintro rfl
      have hknows := Scopes.knows_of_mem_names hx
      simp [Scopes.Knows, Table.get?, Table.next] at hknows
    refine .inl ?_
    simp only [perform, Scopes.create, Table.get, Table.get?_insert, if_neg hne]
    exact hx
  | state | find | has => exact .inl hx
  | put s name v => exact .inl (Scopes.names_subset_put v hx)
  | define s name v => exact .inl (Scopes.names_subset_define v hx)
  | delete s name =>
    simp only [perform, Scopes.delete]
    by_cases hs : t.Knows s
    · rw [Scopes.get_modify hs]
      split
      · next h =>
        subst h
        by_cases hname : x = name
        · subst hname
          exact .inr rfl
        · exact .inl ((Scope.mem_names_delete _).mpr ⟨hx, hname⟩)
      · exact .inl hx
    · rw [Scopes.modify_of_not_knows hs]
      exact .inl hx

/-- No scope is forgotten. -/
theorem knows_perform (q : ScopeQuery) (h : t.Knows o) : Scopes.Knows (q.perform t).2 o := by
  cases q with
  | create parent =>
    simp only [perform, Scopes.create, Scopes.Knows, Table.get?_insert]
    split
    · rfl
    · exact h
  | state | find | has => exact h
  | put s name v => exact h.put v
  | define s name v => exact h.define v
  | delete s name => exact h.modify _ _

end ScopeQuery

end ScriptMachine
