/-!
# Overrides

A map from names of features to the answers that replace the defaults. It is a list in ascending
order of names, so maps with the same answers are equal.
-/

namespace ScriptMachine

/-- Answers by feature name, in ascending order of names. -/
structure Overrides where
  entries : List (String × Bool)
  ascending : entries.Pairwise fun a b => a.1 < b.1
  deriving DecidableEq, Repr

namespace Overrides

/-- No answers. -/
def empty : Overrides := ⟨[], .nil⟩

instance : Inhabited Overrides := ⟨empty⟩

/-- Put an answer where its name belongs, in place of one with the same name. -/
def place (name : String) (answer : Bool) : List (String × Bool) → List (String × Bool)
  | [] => [(name, answer)]
  | entry :: rest =>
    if name < entry.1 then (name, answer) :: entry :: rest
    else if entry.1 = name then (name, answer) :: rest
    else entry :: place name answer rest

theorem name_of_mem_place {name : String} {answer : Bool} {entries : List (String × Bool)}
    {entry : String × Bool} (h : entry ∈ place name answer entries) :
    entry.1 = name ∨ entry ∈ entries := by
  induction entries with
  | nil => simp_all [place]
  | cons head rest ih =>
    unfold place at h
    split at h
    · rcases List.mem_cons.mp h with rfl | h
      · exact .inl rfl
      · exact .inr h
    · split at h
      · rcases List.mem_cons.mp h with rfl | h
        · exact .inl rfl
        · exact .inr (List.mem_cons_of_mem _ h)
      · rcases List.mem_cons.mp h with rfl | h
        · exact .inr List.mem_cons_self
        · exact (ih h).imp_right (List.mem_cons_of_mem _)

/-- A name that is neither before nor equal to another comes after it. -/
theorem lt_of_not_lt_of_ne {a b : String} (h : ¬ b < a) (hne : a ≠ b) : a < b := by
  by_cases hab : a < b
  · exact hab
  · exact absurd (String.le_antisymm (String.not_lt.mp h) (String.not_lt.mp hab)) hne

theorem ascending_place (name : String) (answer : Bool) {entries : List (String × Bool)}
    (h : entries.Pairwise fun a b => a.1 < b.1) :
    (place name answer entries).Pairwise fun a b => a.1 < b.1 := by
  induction entries with
  | nil => simp [place]
  | cons head rest ih =>
    obtain ⟨hhead, hrest⟩ := List.pairwise_cons.mp h
    unfold place
    split
    · rename_i hlt
      refine List.pairwise_cons.mpr ⟨?_, h⟩
      intro entry hmem
      rcases List.mem_cons.mp hmem with rfl | hmem
      · exact hlt
      · exact String.lt_trans hlt (hhead entry hmem)
    · split
      · rename_i heq
        exact List.pairwise_cons.mpr ⟨fun entry hmem => heq ▸ hhead entry hmem, hrest⟩
      · rename_i hlt hne
        refine List.pairwise_cons.mpr ⟨?_, ih hrest⟩
        intro entry hmem
        rcases name_of_mem_place hmem with heq | hmem
        · exact heq ▸ lt_of_not_lt_of_ne hlt hne
        · exact hhead entry hmem

/-- Answer for a name, in place of an earlier answer. -/
def set (o : Overrides) (name : String) (answer : Bool) : Overrides :=
  ⟨place name answer o.entries, ascending_place name answer o.ascending⟩

/-- Answers in any order; the last one for a name counts. -/
def ofList (answers : List (String × Bool)) : Overrides :=
  answers.foldl (fun o answer => o.set answer.1 answer.2) empty

end Overrides

end ScriptMachine
