import ScriptMachine.Proofs.Machine.World

/-!
# Scopes without a name

To erase a name is to take its bindings out of all scopes. A computation spares a name if it comes
to the same with the name erased and leaves every binding of the name as it is: it neither reads
nor writes one. `Activation.spares_perform` says that an instruction spares every name but the one
that it loads, stores or defines.
-/

namespace ScriptMachine

variable {σ α : Type} {x name : String}

/-! ## Scopes -/

namespace Scope

theorem lookup_filter_of_ne (h : name ≠ x) (bindings : List (String × Value)) :
    (bindings.filter (·.1 != x)).lookup name = bindings.lookup name := by
  induction bindings with
  | nil => rfl
  | cons b rest ih =>
    obtain ⟨key, v⟩ := b
    by_cases hkey : key = x
    · subst hkey
      simp only [List.filter_cons, bne_self_eq_false, Bool.false_eq_true, if_false, ih,
        List.lookup_cons, beq_false_of_ne h]
    · simp only [List.filter_cons, bne_iff_ne.mpr hkey, if_true, List.lookup_cons, ih]

theorem filter_assign_of_ne (h : name ≠ x) (v : Value) (bindings : List (String × Value)) :
    (assign name v bindings).filter (·.1 != x) = assign name v (bindings.filter (·.1 != x)) := by
  induction bindings with
  | nil => simp [assign, h]
  | cons b rest ih =>
    obtain ⟨key, w⟩ := b
    by_cases hname : key = name
    · subst hname
      simp [assign, h]
    · by_cases hkey : key = x
      · simp [assign, hkey, ih, Ne.symm h]
      · simp [assign, hname, hkey, ih]

theorem lookup_assign_of_ne (h : name ≠ x) (v : Value) (bindings : List (String × Value)) :
    (assign name v bindings).lookup x = bindings.lookup x := by
  induction bindings with
  | nil => simp [assign, List.lookup_cons, beq_false_of_ne (Ne.symm h)]
  | cons b rest ih =>
    obtain ⟨key, w⟩ := b
    by_cases hname : key = name
    · subst hname
      simp [assign, List.lookup_cons, beq_false_of_ne (Ne.symm h)]
    · simp [assign, hname, List.lookup_cons, ih]

variable (s : Scope)

theorem find?_delete_of_ne (h : name ≠ x) : (s.delete x).find? name = s.find? name :=
  lookup_filter_of_ne h s.bindings

theorem find?_delete_self : (s.delete x).find? x = none := by
  rw [find?, List.lookup_eq_none_iff]
  intro b hb
  have hkey := (List.mem_filter.mp hb).2
  exact bne_iff_ne.mpr (Ne.symm (bne_iff_ne.mp hkey))

theorem has_delete_of_ne (h : name ≠ x) : (s.delete x).has name = s.has name := by
  simp only [has, delete, List.any_filter]
  congr 1
  funext b
  by_cases hb : b.1 = name
  · simp [hb, h]
  · simp [hb]

theorem delete_define_of_ne (h : name ≠ x) (v : Value) :
    (s.define name v).delete x = (s.delete x).define name v := by
  simp only [define, delete, filter_assign_of_ne h]

theorem find?_define_of_ne (h : name ≠ x) (v : Value) :
    (s.define name v).find? x = s.find? x :=
  lookup_assign_of_ne h v s.bindings

end Scope

namespace Scopes

/-- The scopes without the bindings of a name. -/
def erase (t : Scopes) (x : String) : Scopes := ⟨t.entries.map (·.delete x)⟩

variable (t : Scopes)

theorem get_erase (s : Id .scope) : (t.erase x).get s = (t.get s).delete x := by
  simp only [Table.get, Table.get?, erase, Array.getElem?_map]
  cases t.entries[s.index]? <;> rfl

theorem chain_erase (s : Id .scope) : (t.erase x).chain s = t.chain s := by
  simp only [chain, get_erase, Scope.delete]

theorem find?_erase (h : name ≠ x) (s : Id .scope) : (t.erase x).find? s name = t.find? s name := by
  simp only [find?, chain_erase, get_erase, Scope.find?_delete_of_ne _ h]

theorem find?_erase_self (s : Id .scope) : (t.erase x).find? s x = none := by
  rw [find?, List.findSome?_eq_none_iff]
  intro owner _
  rw [get_erase, Scope.find?_delete_self]

theorem owner?_erase (h : name ≠ x) (s : Id .scope) :
    (t.erase x).owner? s name = t.owner? s name := by
  simp only [owner?, chain_erase, get_erase, Scope.has_delete_of_ne _ h]

theorem has_erase (h : name ≠ x) (s : Id .scope) : (t.erase x).has s name = t.has s name := by
  simp only [has, owner?_erase t h]

theorem erase_define (h : name ≠ x) (s : Id .scope) (v : Value) :
    (t.define s name v).erase x = (t.erase x).define s name v := by
  simp only [erase, define, Table.modify, Table.mk.injEq]
  ext i hi hi'
  · simp
  · simp only [Array.getElem_map, Array.getElem_modify]
    split
    · exact Scope.delete_define_of_ne _ h v
    · rfl

theorem erase_put (h : name ≠ x) (s : Id .scope) (v : Value) :
    (t.put s name v).erase x = (t.erase x).put s name v := by
  simp only [put, erase_define t h, owner?_erase t h]

theorem find?_get_define (h : name ≠ x) (s : Id .scope) (v : Value) (s' : Id .scope) :
    ((t.define s name v).get s').find? x = (t.get s').find? x := by
  simp only [define, Table.get, Table.get?_modify]
  split
  · cases t.get? s' with
    | none => rfl
    | some scope => exact Scope.find?_define_of_ne scope h v
  · rfl

end Scopes

/-! ## Computations -/

/-- The store without the bindings of a name. -/
def Store.erase (m : Store σ) (x : String) : Store σ := { m with scopes := m.scopes.erase x }

/-- A computation neither reads nor writes a binding of a name: it comes to the same with the name
erased, and the bindings of the name stay as they are. -/
def Spares (x : String) (c : Store σ → α × Store σ) : Prop :=
  ∀ m : Store σ, c (m.erase x) = ((c m).1, (c m).2.erase x) ∧
    ∀ s, ((c m).2.scopes.get s).find? x = (m.scopes.get s).find? x

/-- The name of the scope that an instruction is for. -/
def Instruction.scopeName? : Instruction → Option String
  | .loadName name | .storeName name | .defineName name => some name
  | _ => none

namespace Frame

/-- An instruction of one frame reads and writes no binding of a name but the one that it is
for. -/
theorem perform_erase (f : Frame) {i : Instruction} (h : i.scopeName? ≠ some x) (m : Store σ) :
    f.perform i (m.erase x) =
        ((f.perform i m).1, (f.perform i m).2.1, (f.perform i m).2.2.erase x) ∧
      ∀ s, ((f.perform i m).2.2.scopes.get s).find? x = (m.scopes.get s).find? x := by
  cases i with
  | loadName name =>
    have hname : name ≠ x := fun heq => h (congrArg some heq)
    simp only [perform, Store.erase, Scopes.find?_erase _ hname]
    cases m.scopes.find? f.scope name <;> exact ⟨rfl, fun _ => rfl⟩
  | storeName name =>
    have hname : name ≠ x := fun heq => h (congrArg some heq)
    simp only [perform, Store.erase, Scopes.has_erase _ hname]
    split
    · exact ⟨rfl, fun _ => rfl⟩
    · exact ⟨by rw [Scopes.erase_put _ hname], Scopes.find?_get_define _ hname _ _⟩
  | defineName name =>
    have hname : name ≠ x := fun heq => h (congrArg some heq)
    refine ⟨?_, Scopes.find?_get_define _ hname _ _⟩
    simp only [perform, Store.erase, Scopes.erase_define _ hname]
  | closure index =>
    have hfresh : (m.erase x).fresh .executable =
        ((m.fresh .executable).1, (m.fresh .executable).2.erase x) := rfl
    simp only [perform, hfresh]
    split <;> exact ⟨rfl, fun _ => rfl⟩
  | _ => exact ⟨rfl, fun _ => rfl⟩

end Frame

namespace Activation

variable (a : Activation)

theorem spares_fail {e : Abrupt} (he : ∀ p, e ≠ .suspended p) : Spares (σ := σ) x (a.fail e) := by
  intro m
  cases e with
  | suspended p => exact absurd rfl (he p)
  | _ => exact ⟨rfl, fun _ => rfl⟩

theorem spares_call (f : Frame) (callers : List Frame) (count : Nat) :
    Spares (σ := σ) x (a.call f callers count) := by
  intro m
  simp only [call]
  split
  · split
    · exact ⟨rfl, fun _ => rfl⟩
    · split <;> exact ⟨rfl, fun _ => rfl⟩
  · exact ⟨rfl, fun _ => rfl⟩
  · exact ⟨rfl, fun _ => rfl⟩

theorem spares_goOn (callers : List Frame) (f : Frame) {i : Instruction}
    (h : i.scopeName? ≠ some x) :
    Spares (σ := σ) x fun m => a.goOn callers (f.perform i m) := by
  intro m
  obtain ⟨herase, hfind⟩ := f.perform_erase h m
  obtain ⟨r, g, m', hperform⟩ : ∃ r g m', f.perform i m = (r, g, m') := ⟨_, _, _, rfl⟩
  rw [hperform] at herase hfind
  simp only [herase, hperform]
  cases r with
  | ok u => exact ⟨rfl, hfind⟩
  | error e =>
    obtain ⟨hfail, hkept⟩ := spares_fail (x := x) { a with frames := g :: callers }
      (Frame.perform_ne_suspended hperform) m'
    refine ⟨?_, fun s => (hkept s).trans (hfind s)⟩
    simp only [goOn, failed, hfail]

/-- An instruction spares every name but the one that it is for. -/
theorem spares_perform (f : Frame) (callers : List Frame) {i : Instruction}
    (h : i.scopeName? ≠ some x) : Spares (σ := σ) x (a.perform f callers i) := by
  cases i with
  | call count => exact a.spares_call f callers count.toNat
  | yield =>
    intro m
    simp only [perform]
    split <;> exact ⟨rfl, fun _ => rfl⟩
  | endFinally =>
    intro m
    simp only [perform]
    split <;> exact ⟨rfl, fun _ => rfl⟩
  | ret | throw => exact fun _ => ⟨rfl, fun _ => rfl⟩
  | _ => exact a.spares_goOn callers f h

end Activation

end ScriptMachine
