import ScriptMachine.Proofs.Machine.Scopes
import ScriptMachine.Proofs.Scope.Names
import ScriptMachine.Proofs.Tree.Execution
import ScriptMachine.Proofs.Tree.Frames

/-!
# The names that a strict script binds

A strict script binds the functions that it declares, in the scope it runs in, and nothing else: an
assignment to a name that is bound nowhere throws. `SourceTree.strict_binds_declared` says so of
every run and any host whose own code binds nothing along the chain of the scope.
-/

namespace ScriptMachine

open Compile

variable {σ : Type} {goal : Kind} {x : String} {o s : Id .scope}

/-! ## Instructions -/

namespace Frame

variable {f : Frame} {i : Instruction} {m : Store σ}

/-- An assignment and a definition write to the scopes, and no other instruction does. In strict
code an assignment writes to a name that is bound. -/
theorem scopes_perform_cases (f : Frame) (i : Instruction) (m : Store σ) :
    (f.perform i m).2.2.scopes = m.scopes ∨
    (∃ name v, i = .storeName name ∧
      (f.body.routine.isStrict = true → m.scopes.has f.scope name = true) ∧
      (f.perform i m).2.2.scopes = m.scopes.put f.scope name v) ∨
    ∃ name v, i = .defineName name ∧
      (f.perform i m).2.2.scopes = m.scopes.define f.scope name v := by
  cases i with
  | storeName name =>
    simp only [perform]
    split
    · exact .inl rfl
    · next h =>
      refine .inr (.inl ⟨name, _, rfl, fun hstrict => ?_, rfl⟩)
      simpa [pop, hstrict] using h
  | defineName name => exact .inr (.inr ⟨name, _, rfl, rfl⟩)
  | loadName name =>
    simp only [perform]
    split <;> exact .inl rfl
  | closure index =>
    simp only [perform]
    split <;> exact .inl rfl
  | _ => exact .inl rfl

/-- No instruction unbinds a name. -/
theorem names_subset_perform (f : Frame) (i : Instruction) (m : Store σ) :
    (m.scopes.get o).names ⊆ ((f.perform i m).2.2.scopes.get o).names := by
  rcases f.scopes_perform_cases i m with h | ⟨name, v, -, -, h⟩ | ⟨name, v, -, h⟩ <;> rw [h]
  · exact List.Subset.refl _
  · exact Scopes.names_subset_put v
  · exact Scopes.names_subset_define v

/-- Strict code binds a name by a definition only, in the scope of its frame. -/
theorem mem_names_of_perform (hstrict : f.body.routine.isStrict = true)
    (hx : x ∈ ((f.perform i m).2.2.scopes.get o).names) :
    x ∈ (m.scopes.get o).names ∨ i = .defineName x ∧ o = f.scope := by
  rcases f.scopes_perform_cases i m with h | ⟨name, v, -, hbound, h⟩ | ⟨name, v, hi, h⟩ <;>
    rw [h] at hx
  · exact .inl hx
  · exact .inl (Scopes.mem_names_of_put (hbound hstrict) hx)
  · rcases Scopes.mem_names_of_define hx with hx | ⟨rfl, rfl⟩
    · exact .inl hx
    · exact .inr ⟨hi, rfl⟩

theorem mem_names_perform_define (hs : m.scopes.Knows f.scope) :
    x ∈ ((f.perform (.defineName x) m).2.2.scopes.get f.scope).names :=
  (Scopes.mem_names_define hs _).mpr (.inr ⟨rfl, rfl⟩)

/-- In strict code an assignment to a name that is bound nowhere throws and assigns nothing. -/
theorem perform_storeName_of_unbound (hstrict : f.body.routine.isStrict = true)
    (hx : m.scopes.has f.scope x = false) :
    f.perform (.storeName x) m =
      (.error (.referenceError ("assignment to undeclared variable " ++ x)), f.pop.2, m) := by
  have hthrows : (f.pop.2.body.routine.isStrict && !m.scopes.has f.pop.2.scope x) = true := by
    simp [pop, hstrict, hx]
  simp only [perform, hthrows, if_true]

theorem knows_perform (f : Frame) (i : Instruction) (h : m.scopes.Knows o) :
    (f.perform i m).2.2.scopes.Knows o := by
  rcases f.scopes_perform_cases i m with heq | ⟨name, v, -, -, heq⟩ | ⟨name, v, -, heq⟩ <;> rw [heq]
  · exact h
  · exact h.put v
  · exact h.define v

end Frame

/-! ## Code of a strict tree -/

namespace Compile

variable {strict : Bool} {level : Level} {body : List Node} {r : Routine}

/-- Only a script has definitions, of the functions that are declared in it. -/
theorem IsBody.of_defineName (h : IsBody strict level body r) (hx : .defineName x ∈ r.code) :
    level = .script ∧ x ∈ declaredNames body := by
  have hemitted := h.isEmitted hx
  generalize hi : Instruction.defineName x = i at hemitted
  cases hemitted with
  | define hlevel hname =>
    cases hi
    exact ⟨hlevel, hname⟩
  | use u =>
    rw [Use.instruction] at hi
    split at hi <;> cases u <;> cases hi
  | _ => cases hi

theorem getElem?_bindings (locals : Locals) {names : List String} {index n : Nat}
    (hx : names[n]? = some x) (p : Nat) :
    ((bindings .script locals names index).layout p)[2 * n + 1]? = some (.defineName x) := by
  induction names generalizing n index p with
  | nil => cases hx
  | cons name rest ih =>
    cases n with
    | zero =>
      cases hx
      rfl
    | succ n => exact ih hx _

/-- The functions of a script are bound one after the other before all else. -/
theorem IsBody.getElem?_define (h : IsBody strict .script body r) {n : Nat}
    (hx : (declaredNames body)[n]? = some x) : r.code[2 * n + 1]? = some (.defineName x) := by
  obtain ⟨hn, -⟩ := List.getElem?_eq_some_iff.mp hx
  rw [← Array.getElem?_toList, h.code, List.toList_toArray, bodyStatement, Statement.layout,
    List.getElem?_append_left]
  · exact getElem?_bindings _ hx 0
  · rw [Statement.length_layout, size_bindings]
    omega

end Compile

/-! ## Steps -/

namespace Config

variable {host : Host σ} {thread : Id .thread} {X : Config σ goal}

/-- The next step is an instruction of a script in a scope, or of a function of the script. -/
def RunsPart (script : Routine) (s : Id .scope) (X : Config σ goal) : Prop :=
  ∃ a f callers i, X.IsAbout a f callers i ∧
    (f.body.routine = script ∧ f.scope = s ∨ script.Encloses f.body.routine)

/-- In the next step a host deletes a name from a scope. -/
def Deletes (o : Id .scope) (x : String) (X : Config σ goal) : Prop :=
  ∃ (κ : Kind) (k : Option Value → Program σ κ) (r : Stack σ κ goal),
    X.state = .running (.ask (.scope (.delete o x)) k) r

/-- A name is unbound only by a host that deletes it. -/
theorem mem_names_step (hx : x ∈ (X.store.scopes.get o).names) :
    x ∈ ((X.step host thread).store.scopes.get o).names ∨ X.Deletes o x := by
  cases X.scopes_step host thread with
  | same h =>
    rw [h]
    exact .inl hx
  | asked q k r hstate h =>
    rw [h]
    rcases q.mem_names_perform hx with hx | rfl
    · exact .inl hx
    · exact .inr ⟨_, k, r, hstate⟩
  | performed a f callers i habout h =>
    rw [h]
    exact .inl (Frame.names_subset_perform _ i X.store hx)

theorem knows_step (h : X.store.scopes.Knows o) :
    (X.step host thread).store.scopes.Knows o := by
  cases X.scopes_step host thread with
  | same heq => exact heq ▸ h
  | asked q k r hstate heq => exact heq ▸ q.knows_perform h
  | performed a f callers i habout heq => exact heq ▸ Frame.knows_perform _ i h

/-- Names that are bound stay bound until a host deletes them. -/
theorem mem_names_run {k n : Nat} (hk : k ≤ n)
    (hx : x ∈ ((X.run host thread k).store.scopes.get o).names) :
    x ∈ ((X.run host thread n).store.scopes.get o).names ∨
      ∃ j < n, (X.run host thread j).Deletes o x := by
  induction hk with
  | refl => exact .inl hx
  | @step n hn ih =>
    rcases ih with hx | ⟨j, hj, hdeletes⟩
    · rw [run_succ]
      rcases mem_names_step hx with hx | hdeletes
      · exact .inl hx
      · exact .inr ⟨n, Nat.lt_succ_self n, hdeletes⟩
    · exact .inr ⟨j, Nat.lt_succ_of_lt hj, hdeletes⟩

end Config

section

variable {t : SourceTree} {script : Routine} {host : Host σ} {thread : Id .thread}
  {X : Config σ goal}

/-- The code of a strict tree binds a name only where the script declares a function of this
name. -/
theorem Config.RunsPart.mem_names (hcompiled : t.compile true = .ok script)
    (hX : X.RunsPart script s) (hx : x ∈ ((X.step host thread).store.scopes.get o).names) :
    x ∈ (X.store.scopes.get o).names ∨ o = s ∧ x ∈ declaredNames t.statements.toList := by
  obtain ⟨a, f, callers, i, habout, hpart⟩ := hX
  have hi : i ∈ f.body.routine.code := by
    obtain ⟨-, g, -, -, hfetch⟩ := habout
    obtain ⟨hi, rfl⟩ := Frame.fetch?_eq_some_iff.mp hfetch
    exact Array.mem_of_getElem? hi
  rw [habout.scopes_step] at hx
  rcases hpart with ⟨rfl, rfl⟩ | hpart
  · have hbody := (isBody_compile hcompiled).1
    rcases Frame.mem_names_of_perform (f := { f with position := f.position + 1 })
      hbody.isStrict hx with hx | ⟨rfl, rfl⟩
    · exact .inl hx
    · exact .inr ⟨rfl, (hbody.of_defineName hi).2⟩
  · obtain ⟨⟨position, length, kind, children⟩, -, hfunction⟩ :=
      exists_declares_of_encloses hcompiled hpart
    cases kind with
    | function name params =>
      have hbody := isBody_function hfunction
      rcases Frame.mem_names_of_perform (f := { f with position := f.position + 1 })
        hbody.isStrict hx with hx | ⟨rfl, -⟩
      · exact .inl hx
      · cases (hbody.of_defineName hi).1
    | _ => cases hfunction

/-- All steps of a run but those of a script in a scope and of its functions bind no name along the
chain. -/
def Config.Abides (host : Host σ) (thread : Id .thread) (script : Routine) (s : Id .scope)
    (X : Config σ goal) (n : Nat) : Prop :=
  ∀ k < n, ¬ (X.run host thread k).RunsPart script s → ∀ o ∈ X.store.scopes.chain s,
    ((X.run host thread (k + 1)).store.scopes.get o).names ⊆
      ((X.run host thread k).store.scopes.get o).names

/-- In a run that abides no names are bound along the chain but those that were bound before, and
those of the functions that the script declares. -/
theorem Config.Abides.mem_names (hcompiled : t.compile true = .ok script) {n : Nat}
    (habides : X.Abides host thread script s n) (ho : o ∈ X.store.scopes.chain s)
    (hx : x ∈ ((X.run host thread n).store.scopes.get o).names) :
    x ∈ (X.store.scopes.get o).names ∨ o = s ∧ x ∈ declaredNames t.statements.toList := by
  induction n with
  | zero => exact .inl hx
  | succ n ih =>
    -- the step is one of the script, which binds what is declared, or one that binds nothing
    have hbefore : x ∈ ((X.run host thread n).store.scopes.get o).names →
        x ∈ (X.store.scopes.get o).names ∨ o = s ∧ x ∈ declaredNames t.statements.toList :=
      ih fun k hk => habides k (Nat.lt_succ_of_lt hk)
    by_cases hpart : (X.run host thread n).RunsPart script s
    · rw [run_succ] at hx
      rcases hpart.mem_names hcompiled hx with hx | hx
      · exact hbefore hx
      · exact .inr hx
    · exact hbefore (habides n (Nat.lt_succ_self n) hpart o ho hx)

end

/-! ## The functions of the script -/

/-- In a frame of a scope each declared function that comes before the position was bound. -/
def Frame.HasDeclared (s : Id .scope) (declared : List String) (bound : String → Prop)
    (f : Frame) : Prop :=
  f.scope = s → ∀ n x, declared[n]? = some x → 2 * n + 2 ≤ f.position → bound x

theorem Frame.hasDeclared_enter {declared : List String} {bound : String → Prop} (e : Executable)
    (scope : Id .scope) (receiver : Value) (args : List Value) :
    (Frame.enter e scope receiver args).HasDeclared s declared bound := by
  intro _ n x _ hle
  exact absurd hle (Nat.not_succ_le_zero _)

namespace Compile

variable {strict : Bool} {body : List Node} {script : Routine}

/-- Frames that run a script in a scope have bound the functions that come before their
positions. -/
def declarationRule (h : IsBody strict .script body script) (s : Id .scope)
    (bound : String → Prop) : FrameRule :=
  codeRule (· = script) (fun _ heq => ⟨strict, .script, body, heq ▸ h⟩)
    (Frame.HasDeclared s (declaredNames body) bound)
    (Frame.HasDeclared s (declaredNames body) bound) Frame.hasDeclared_enter fun _ hf _ => hf

theorem declarationRule_mono (h : IsBody strict .script body script) {bound bound' : String → Prop}
    (hle : ∀ x, bound x → bound' x) {X : Config σ goal}
    (hX : X.Obeys (declarationRule h s bound)) : X.Obeys (declarationRule h s bound') := by
  have hlater {f : Frame} (hf : f.HasDeclared s (declaredNames body) bound) :
      f.HasDeclared s (declaredNames body) bound' :=
    fun hscope n x hx hn => hle x (hf hscope n x hx hn)
  apply hX.mono
  · exact fun f hf hroutine => ⟨(hf hroutine).1, hlater (hf hroutine).2⟩
  · exact fun f hf hroutine => ⟨(hf hroutine).1, hlater (hf hroutine).2⟩

/-- An instruction of the script keeps the rule if a name that it binds counts as bound. -/
theorem allows_declarationRule (h : IsBody strict .script body script) {bound : String → Prop}
    {m : Store σ} {f : Frame} {i : Instruction} (hready : (declarationRule h s bound).ready f)
    (hi : f.body.routine.code[f.position]? = some i)
    (hbinds : ∀ x, f.scope = s → i = .defineName x → bound x) :
    (declarationRule h s bound).Allows m { f with position := f.position + 1 } i := by
  -- behind the instruction the rule asks for one more name at most, the one that it binds
  have hnext (hroutine : f.body.routine = script)
      (hf : f.HasDeclared s (declaredNames body) bound) (hscope : f.scope = s) (n : Nat)
      (x : String) (hx : (declaredNames body)[n]? = some x) (hn : 2 * n + 2 ≤ f.position + 1) :
      bound x := by
    by_cases hbefore : 2 * n + 2 ≤ f.position
    · exact hf hscope n x hx hbefore
    · have hposition : f.position = 2 * n + 1 := by omega
      rw [hroutine, hposition, h.getElem?_define hx] at hi
      exact hbinds x hscope (Option.some.inj hi).symm
  apply allows_codeRule hready hi
  · rintro hroutine hf hstraight g rfl -
    obtain ⟨operands, locals, heq⟩ :=
      Frame.exists_perform_eq { f with position := f.position + 1 } hstraight m
    rw [heq]
    exact hnext hroutine hf
  · intro hroutine hf count _
    exact hnext hroutine hf

end Compile

/-- A run of a script may begin: its scope was made, and no frame of the script is held yet. -/
structure Config.IsFreshFor (script : Routine) (s : Id .scope) (X : Config σ goal) : Prop where
  sound : X.Sound (fun _ => True) fun _ => True
  knows : X.store.scopes.Knows s
  fresh : ∀ f, X.HasFrame f → f.body.routine ≠ script

/-- In a run that begins with none of its frames, a frame of the script has bound the functions that
come before its position. -/
theorem Config.IsFreshFor.obeys_run {strict : Bool} {body : List Node} {script : Routine}
    {X : Config σ goal} (hX : X.IsFreshFor script s) (h : IsBody strict .script body script)
    (host : Host σ) (thread : Id .thread) (n : Nat) :
    (X.run host thread n).Obeys (declarationRule h s fun x =>
      ∃ k ≤ n, x ∈ ((X.run host thread k).store.scopes.get s).names) ∧
    (X.run host thread n).Sound (fun _ => True) (fun _ => True) ∧
    (X.run host thread n).store.scopes.Knows s := by
  induction n with
  | zero =>
    refine ⟨Config.obeys_of_forall fun f hf => ?_, hX.sound, hX.knows⟩
    have hroutine := hX.fresh f hf
    exact ⟨fun heq => absurd heq hroutine, fun heq => absurd heq hroutine⟩
  | succ n ih =>
    obtain ⟨hobeys, hsound, hknows⟩ := ih
    -- names are bound by step `n + 1` at the latest if they are by step `n`
    have hlater : (X.run host thread n).Obeys (declarationRule h s fun x =>
        ∃ k ≤ n + 1, x ∈ ((X.run host thread k).store.scopes.get s).names) := by
      refine declarationRule_mono h ?_ hobeys
      rintro x ⟨k, hk, hx⟩
      exact ⟨k, Nat.le_succ_of_le hk, hx⟩
    rw [Config.run_succ]
    refine ⟨?_, hsound.step host.over_true fun _ _ => trivial, Config.knows_step hknows⟩
    apply hlater.step hsound.store.hasGenerators
    intro a f callers i habout
    obtain ⟨hready, hi⟩ := hlater.ready habout
    apply allows_declarationRule h hready hi
    -- what the instruction binds is bound after the step
    rintro x rfl rfl
    refine ⟨n + 1, Nat.le_refl _, ?_⟩
    rw [Config.run_succ, habout.scopes_step]
    exact Frame.mem_names_perform_define (f := { f with position := f.position + 1 }) hknows

/-- An assignment of a strict tree to a name that is bound nowhere along the chain throws, and no
scope is changed. -/
theorem Config.IsAbout.throws_of_unbound {X : Config σ goal} {a : Activation} {f : Frame}
    {callers : List Frame} (habout : X.IsAbout a f callers (.storeName x))
    (hstrict : f.body.routine.isStrict = true) (hx : X.store.scopes.has f.scope x = false)
    (host : Host σ) (thread : Id .thread) :
    (∃ g, a.execute X.store = (.flow ({ a with frames := g :: callers }.throw
      (.text ("ReferenceError: " ++ ("assignment to undeclared variable " ++ x)))), X.store)) ∧
    (X.step host thread).store.scopes = X.store.scopes := by
  have hperform := Frame.perform_storeName_of_unbound
    (f := { f with position := f.position + 1 }) hstrict hx
  refine ⟨⟨(Frame.pop { f with position := f.position + 1 }).2, ?_⟩, ?_⟩
  · obtain ⟨r, g, -, hframes, hfetch⟩ := habout
    obtain ⟨-, rfl⟩ := Frame.fetch?_eq_some_iff.mp hfetch
    simp only [Activation.execute, hframes, hfetch]
    rw [Activation.perform_of_isOwn a callers rfl, hperform]
    rfl
  · rw [habout.scopes_step, hperform]

/-- Take a tree that compiles as strict, and a run in which all code but the script in a scope and
the functions of the script binds no name along the chain of the scope. Then every routine of the
tree is strict, and after any number of steps:

* Along the chain no names are bound but those that were bound before and, in the scope itself,
  those of the functions that the script declares.
* A name that was bound still is, unless a host has deleted it.
* If the run began without a frame of the script, then once the script is past its declarations
  its functions are bound, unless a host has deleted them.
* If an assignment to a name that is bound nowhere along the chain is next, it throws, and no scope
  is changed. -/
theorem SourceTree.strict_binds_declared {t : SourceTree} {script : Routine}
    (hcompiled : t.compile true = .ok script) (host : Host σ) (thread : Id .thread)
    (X : Config σ goal) (s : Id .scope) (n : Nat) (habides : X.Abides host thread script s n) :
    (∀ r, script.IsPart r → r.isStrict = true) ∧
    (∀ o ∈ X.store.scopes.chain s, ∀ x ∈ ((X.run host thread n).store.scopes.get o).names,
      x ∈ (X.store.scopes.get o).names ∨ o = s ∧ x ∈ declaredNames t.statements.toList) ∧
    (∀ o, ∀ x ∈ (X.store.scopes.get o).names,
      x ∈ ((X.run host thread n).store.scopes.get o).names ∨
        ∃ j < n, (X.run host thread j).Deletes o x) ∧
    (X.IsFreshFor script s → ∀ k ≤ n, ∀ a f callers, (X.run host thread k).state.Executes a →
      a.frames = f :: callers → f.body.routine = script → f.scope = s →
      2 * (declaredNames t.statements.toList).length ≤ f.position →
      ∀ x ∈ declaredNames t.statements.toList,
        x ∈ ((X.run host thread n).store.scopes.get s).names ∨
          ∃ j < n, (X.run host thread j).Deletes s x) ∧
    ∀ a f callers x, (X.run host thread n).IsAbout a f callers (.storeName x) →
      script.IsPart f.body.routine → (X.run host thread n).store.scopes.has f.scope x = false →
      (∃ g, a.execute (X.run host thread n).store =
        (.flow ({ a with frames := g :: callers }.throw
          (.text ("ReferenceError: " ++ ("assignment to undeclared variable " ++ x)))),
          (X.run host thread n).store)) ∧
      (X.run host thread (n + 1)).store.scopes = (X.run host thread n).store.scopes := by
  have hstrict : ∀ r, script.IsPart r → r.isStrict = true := by
    intro r hr
    obtain ⟨level, body, -, hbody⟩ := exists_isBody hcompiled hr
    exact hbody.isStrict
  refine ⟨hstrict, ?_, ?_, ?_, ?_⟩
  · intro o ho x hx
    exact habides.mem_names hcompiled ho hx
  · intro o x hx
    exact Config.mem_names_run (X := X) (Nat.zero_le n) hx
  · intro hX k hk a f callers ha hframes hroutine hscope hposition x hx
    obtain ⟨hobeys, -, -⟩ := hX.obeys_run (isBody_compile hcompiled).1 host thread k
    have hready := hobeys.state.ready ha
    rw [hframes] at hready
    have hdeclared := (hready.1 hroutine).2 hscope
    obtain ⟨i, hi, hx⟩ := List.mem_iff_getElem.mp hx
    obtain ⟨j, hj, hbound⟩ :=
      hdeclared i x (List.getElem?_eq_some_iff.mpr ⟨hi, hx⟩) (by omega)
    exact Config.mem_names_run (Nat.le_trans hj hk) hbound
  · intro a f callers x habout hpart hx
    rw [Config.run_succ]
    exact habout.throws_of_unbound (hstrict _ hpart) hx host thread

/-! ## A host that deletes a name -/

/-- Host functions delete a name from the scope they are called in, and give back their first
argument. -/
def deletingHost : Host Unit :=
  Config.uniformHost fun site =>
    .ask (.scope (.delete site.scope "x")) fun _ =>
      .finish (κ := .completion) (.ok (site.args.headD .undefined))

/-- A store with one context, and a scope that binds a host function and one more name. -/
def boundScope : Store Unit :=
  { Config.oneContext with
    scopes := ⟨#[{ bindings := [("id", .hostFunction ⟨⟨0⟩, "id"⟩), ("x", .null)] }]⟩ }

/-- The script that compares what the host function gives is executed in the scope. -/
def Config.comparing : Config Unit .completion :=
  start boundScope (.act (.execute comparingScript ⟨0⟩ ⟨0⟩) .finish)

theorem Config.isFreshFor_comparing : Config.comparing.IsFreshFor comparingRoutine ⟨0⟩ where
  sound := by
    have hgoal : Kind.completion ≠ .exit := nofun
    have hm : (Store.initial ()).Sound (fun _ => True) fun _ => True := Store.sound_initial trivial
    exact ⟨⟨fun _ _ _ _ _ => Value.over_true _, hm.generators, hm.continuations, hm.resumptions,
      hm.host⟩, hgoal, Program.over_true hgoal _, trivial⟩
  knows := rfl
  fresh := by
    intro f hf
    cases hf with
    | activation a ha => exact absurd ha id
    | generator g s hs =>
      simp [comparing, start, boundScope, oneContext, Store.initial, Table.get?] at hs
    | continuation k frames hk =>
      simp [comparing, start, boundScope, oneContext, Store.initial, Table.get?] at hk

/-- The only step that binds a name is the definition in the script. -/
theorem Config.abides_comparing :
    Config.comparing.Abides deletingHost ⟨0⟩ comparingRoutine ⟨0⟩ 40 := by
  have hnames : ∀ k < 40, k = 6 ∨ ∀ o ∈ Config.comparing.store.scopes.chain ⟨0⟩,
      ((Config.comparing.run deletingHost ⟨0⟩ (k + 1)).store.scopes.get o).names ⊆
        ((Config.comparing.run deletingHost ⟨0⟩ k).store.scopes.get o).names := by
    decide +kernel
  intro k hk hpart
  rcases hnames k hk with rfl | hnames
  · exact absurd ⟨_, _, _, _, ⟨_, _, rfl, rfl, rfl⟩, .inl ⟨rfl, rfl⟩⟩ hpart
  · exact hnames

/-- The tree is strict, all code but that of the script binds nothing, and the run ends normally;
but a name that was bound before is bound no more, because the host function deleted it. -/
theorem SourceTree.deleted_by_host :
    SourceTree.comparing.compile true = .ok comparingRoutine ∧
    Config.comparing.Abides deletingHost ⟨0⟩ comparingRoutine ⟨0⟩ 40 ∧
    (Config.comparing.run deletingHost ⟨0⟩ 40).ending? = some (.result (.ok (.bool true))) ∧
    "x" ∈ (Config.comparing.store.scopes.get ⟨0⟩).names ∧
    "x" ∉ ((Config.comparing.run deletingHost ⟨0⟩ 40).store.scopes.get ⟨0⟩).names :=
  ⟨compile_comparing, Config.abides_comparing, rfl, by decide, by decide +kernel⟩

/-- In this run the names are those from before and the function of the script, or were deleted. -/
theorem SourceTree.strict_binds_comparing :
    Config.comparing.Abides deletingHost ⟨0⟩ comparingRoutine ⟨0⟩ 40 ∧
    (∀ x ∈ ((Config.comparing.run deletingHost ⟨0⟩ 40).store.scopes.get ⟨0⟩).names,
      x ∈ ["id", "x"] ∨ x ∈ ["same"]) ∧
    (∃ j < 40, (Config.comparing.run deletingHost ⟨0⟩ j).Deletes ⟨0⟩ "x") ∧
    ("same" ∈ ((Config.comparing.run deletingHost ⟨0⟩ 40).store.scopes.get ⟨0⟩).names ∨
      ∃ j < 40, (Config.comparing.run deletingHost ⟨0⟩ j).Deletes ⟨0⟩ "same") := by
  obtain ⟨-, hnames, hkept, hdeclared, -⟩ := strict_binds_declared compile_comparing deletingHost
    ⟨0⟩ Config.comparing ⟨0⟩ 40 Config.abides_comparing
  refine ⟨Config.abides_comparing, ?_, ?_, ?_⟩
  · intro x hx
    rcases hnames ⟨0⟩ (List.mem_singleton_self _) x hx with hx | ⟨-, hx⟩
    · exact .inl hx
    · exact .inr hx
  · rcases hkept ⟨0⟩ "x" (by decide) with hx | hdeleted
    · exact absurd hx (by decide +kernel)
    · exact hdeleted
  · exact hdeclared Config.isFreshFor_comparing 8 (by decide) _ _ _ (.executing _) rfl rfl rfl
      (by decide) "same" (by decide)

end ScriptMachine
