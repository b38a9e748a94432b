import ScriptMachine.Machine.Step

/-!
# The world of interpreted code

Interpreted code works on the scopes, on the texts of flattened ropes, on generators and on the
supply of identities. `Activation.execute_eq` says that an instruction depends on nothing else
and changes nothing else, and `Activation.execute_moved` that it does not matter on which
context it is carried out.
-/

namespace ScriptMachine

variable {σ : Type}

/-- The part of the store that interpreted code works on. -/
structure World where
  scopes : Scopes := {}
  texts : FlatTexts := {}
  generators : Table .generator GeneratorState := {}
  supply : Nat := 0

/-- The world of a store. -/
def Store.world (m : Store σ) : World := ⟨m.scopes, m.texts, m.generators, m.supply⟩

/-- A store with another world in it. -/
def Store.setWorld (m : Store σ) (w : World) : Store σ :=
  { m with scopes := w.scopes, texts := w.texts, generators := w.generators, supply := w.supply }

/-- A store with a world and nothing else. -/
def World.bare (w : World) : Store Unit := (Store.initial ()).setWorld w

@[simp] theorem Store.world_setWorld (m : Store σ) (w : World) : (m.setWorld w).world = w := rfl

@[simp] theorem Store.setWorld_world (m : Store σ) : m.setWorld m.world = m := rfl

@[simp] theorem Store.setWorld_setWorld (m : Store σ) (w w' : World) :
    (m.setWorld w).setWorld w' = m.setWorld w' := rfl

@[simp] theorem Store.contexts_setWorld (m : Store σ) (w : World) :
    (m.setWorld w).contexts = m.contexts := rfl

@[simp] theorem Store.continuations_setWorld (m : Store σ) (w : World) :
    (m.setWorld w).continuations = m.continuations := rfl

@[simp] theorem Store.context_setWorld (m : Store σ) (w : World) (c : Id .context) :
    (m.setWorld w).context c = m.context c := rfl

@[simp] theorem World.world_bare (w : World) : w.bare.world = w := rfl

@[simp] theorem World.scopes_bare (w : World) : w.bare.scopes = w.scopes := rfl

@[simp] theorem Store.scopes_world (m : Store σ) : m.world.scopes = m.scopes := rfl

/-! ## Instructions of one frame -/

theorem Frame.perform_eq (f : Frame) (i : Instruction) (m : Store σ) :
    f.perform i m =
      ((f.perform i m.world.bare).1, (f.perform i m.world.bare).2.1,
        m.setWorld (f.perform i m.world.bare).2.2.world) := by
  cases i with
  | loadName name =>
    simp only [Frame.perform, World.scopes_bare, Store.scopes_world]
    split <;> rfl
  | storeName name =>
    simp only [Frame.perform, World.scopes_bare, Store.scopes_world]
    by_cases h : (f.pop.2.body.routine.isStrict && !m.scopes.has f.pop.2.scope name) = true
    · simp only [h, if_true]
      rfl
    · simp only [h]
      rfl
  | closure index =>
    have hid : (m.world.bare.fresh .executable).1 = (m.fresh .executable).1 := rfl
    simp only [Frame.perform, hid]
    split <;> rfl
  | _ => rfl

/-- Whether an instruction touches no frame but its own. -/
def Instruction.isOwn : Instruction → Bool
  | .call _ | .ret | .yield | .endFinally | .throw => false
  | _ => true

/-- What an activation does once an instruction of its innermost frame alone was carried out. -/
def Activation.goOn (a : Activation) (callers : List Frame) :
    Except Abrupt Unit × Frame × Store σ → Move × Store σ
  | (.ok (), f, m) => (.flow (.next { a with frames := f :: callers }), m)
  | (.error e, f, m) => failed ({ a with frames := f :: callers }.fail e m)

theorem Activation.perform_of_isOwn (a : Activation) {f : Frame} (callers : List Frame)
    {i : Instruction} (h : i.isOwn) (m : Store σ) :
    a.perform f callers i m = a.goOn callers (f.perform i m) := by
  cases i <;> first | rfl | simp [Instruction.isOwn] at h

/-- The errors of instructions are thrown or faults. -/
theorem Frame.perform_ne_suspended {f g : Frame} {i : Instruction} {m m' : Store σ} {e : Abrupt}
    (h : f.perform i m = (.error e, g, m')) (p : Pending) : e ≠ .suspended p := by
  rintro rfl
  cases i with
  | loadName name =>
    simp only [Frame.perform] at h
    split at h <;> simp [Abrupt.referenceError, Abrupt.error] at h
  | storeName name =>
    simp only [Frame.perform] at h
    split at h <;> simp [Abrupt.referenceError, Abrupt.error] at h
  | closure index =>
    simp only [Frame.perform] at h
    split at h <;> simp at h
  | _ => simp [Frame.perform] at h

/-! ## Instructions of an activation -/

/-- The same activation on another context. -/
def Activation.moved (c : Id .context) (a : Activation) : Activation := { a with context := c }

/-- How an activation on another context goes on. -/
def Flow.moved (c : Id .context) : Flow → Flow
  | .next a => .next (a.moved c)
  | .leave e => .leave e

/-- What an activation on another context does after an instruction. -/
def Move.moved (c : Id .context) : Move → Move
  | .flow f => .flow (f.moved c)
  | .call a f site => .call (a.moved c) f { site with context := c }

namespace Activation

variable (a : Activation) (m : Store σ)

@[simp] theorem moved_frames (c : Id .context) : (a.moved c).frames = a.frames := rfl

@[simp] theorem moved_context (c : Id .context) : (a.moved c).context = c := rfl

@[simp] theorem moved_limit (c : Id .context) : (a.moved c).limit = a.limit := rfl

@[simp] theorem moved_isGenerator (c : Id .context) : (a.moved c).isGenerator = a.isGenerator :=
  rfl

theorem throw_moved (c : Id .context) (v : Value) : (a.moved c).throw v = (a.throw v).moved c := by
  simp only [throw, moved_frames]
  cases unwind v a.frames <;> rfl

theorem complete_moved (c : Id .context) (callers : List Frame) (v : Value) :
    (a.moved c).complete callers v = (a.complete callers v).moved c := by
  cases callers <;> rfl

theorem returnValue_moved (c : Id .context) (v : Value) :
    (a.moved c).returnValue v = (a.returnValue v).moved c := by
  simp only [returnValue, moved_frames]
  split
  · rfl
  · split
    · rfl
    · exact complete_moved _ _ _ _

theorem deliver_moved (c : Id .context) (v : Value) :
    (a.moved c).deliver v = (a.deliver v).moved c := by
  simp only [deliver, moved_frames]
  split <;> rfl

theorem fail_moved (c : Id .context) {e : Abrupt} (he : ∀ p, e ≠ .suspended p) :
    (a.moved c).fail e m = (((a.fail e m).1).moved c, (a.fail e m).2) := by
  cases e with
  | thrown v => simp only [fail, throw_moved]
  | suspended p => exact absurd rfl (he p)
  | aborted reason => rfl
  | fault f => rfl

theorem fail_eq {e : Abrupt} (he : ∀ p, e ≠ .suspended p) :
    a.fail e m = ((a.fail e m.world.bare).1, m) := by
  cases e with
  | suspended p => exact absurd rfl (he p)
  | _ => rfl

theorem typeError_ne_suspended (text : String) (p : Pending) :
    Abrupt.typeError text ≠ .suspended p := by
  simp [Abrupt.typeError, Abrupt.error]

theorem call_eq (f : Frame) (callers : List Frame) (count : Nat) :
    a.call f callers count m =
      ((a.call f callers count m.world.bare).1,
        m.setWorld (a.call f callers count m.world.bare).2.world) := by
  simp only [call]
  split
  · split
    · rfl
    · split <;> rfl
  · rfl
  · dsimp only [failed]
    rw [fail_eq _ _ (typeError_ne_suspended _), fail_eq _ _ (typeError_ne_suspended _)]
    rfl

theorem failed_moved (c : Id .context) {e : Abrupt} (he : ∀ p, e ≠ .suspended p) :
    failed ((a.moved c).fail e m) =
      ((failed (a.fail e m)).1.moved c, (failed (a.fail e m)).2) := by
  rw [fail_moved _ _ _ he]
  rfl

theorem call_moved (c : Id .context) (f : Frame) (callers : List Frame) (count : Nat) :
    (a.moved c).call f callers count m =
      (((a.call f callers count m).1).moved c, (a.call f callers count m).2) := by
  simp only [call, moved_limit]
  split
  · split
    · rfl
    · split
      · next h => exact if_pos h
      · next h => exact if_neg h
  · rfl
  · exact failed_moved { a with frames := _ :: callers } _ c (typeError_ne_suspended _)

theorem own_eq (callers : List Frame) {f : Frame} {i : Instruction} (h : i.isOwn) :
    a.perform f callers i m =
      ((a.perform f callers i m.world.bare).1,
        m.setWorld (a.perform f callers i m.world.bare).2.world) := by
  rw [perform_of_isOwn _ _ h, perform_of_isOwn _ _ h, Frame.perform_eq f i m]
  obtain ⟨r, g, m', hr⟩ : ∃ r g m', f.perform i m.world.bare = (r, g, m') := ⟨_, _, _, rfl⟩
  rw [hr]
  cases r with
  | ok u => rfl
  | error e =>
    have he := Frame.perform_ne_suspended hr
    dsimp only [goOn, failed]
    rw [fail_eq _ (m.setWorld _) he, fail_eq _ m' he]
    rfl

theorem own_moved (c : Id .context) (callers : List Frame) {f : Frame} {i : Instruction}
    (h : i.isOwn) :
    (a.moved c).perform f callers i m =
      ((a.perform f callers i m).1.moved c, (a.perform f callers i m).2) := by
  rw [perform_of_isOwn _ _ h, perform_of_isOwn _ _ h]
  obtain ⟨r, g, m', hr⟩ : ∃ r g m', f.perform i m = (r, g, m') := ⟨_, _, _, rfl⟩
  rw [hr]
  cases r with
  | ok u => rfl
  | error e =>
    exact failed_moved { a with frames := g :: callers } m' c (Frame.perform_ne_suspended hr)

theorem perform_eq (f : Frame) (callers : List Frame) (i : Instruction) :
    a.perform f callers i m =
      ((a.perform f callers i m.world.bare).1,
        m.setWorld (a.perform f callers i m.world.bare).2.world) := by
  cases i with
  | call count => exact call_eq _ _ _ _ _
  | ret | throw => rfl
  | yield =>
    simp only [perform]
    split <;> rfl
  | endFinally =>
    simp only [perform]
    split <;> rfl
  | _ => exact own_eq _ _ _ rfl

theorem perform_moved (c : Id .context) (f : Frame) (callers : List Frame) (i : Instruction) :
    (a.moved c).perform f callers i m =
      ((a.perform f callers i m).1.moved c, (a.perform f callers i m).2) := by
  cases i with
  | call count => exact call_moved _ _ _ _ _ _
  | ret => exact congrArg (fun flow => (Move.flow flow, m)) (returnValue_moved { a with frames := _ } c _)
  | throw => exact congrArg (fun flow => (Move.flow flow, m)) (throw_moved { a with frames := _ } c _)
  | yield =>
    simp only [perform, moved_isGenerator]
    split
    · next h =>
      exact (if_pos h).trans
        (failed_moved { a with frames := f :: callers } m c (typeError_ne_suspended _))
    · next h => exact if_neg h
  | endFinally =>
    simp only [perform]
    split
    · rfl
    · exact congrArg (fun flow => (Move.flow flow, m)) (throw_moved { a with frames := _ } c _)
    · exact congrArg (fun flow => (Move.flow flow, m)) (returnValue_moved { a with frames := _ } c _)
  | _ => exact own_moved _ _ c _ rfl

/-- An instruction depends on the world alone and changes nothing else. -/
theorem execute_eq :
    a.execute m =
      ((a.execute m.world.bare).1, m.setWorld (a.execute m.world.bare).2.world) := by
  simp only [execute]
  split
  · rfl
  · split
    · rfl
    · exact perform_eq _ _ _ _ _

/-- An instruction does the same on every context. -/
theorem execute_moved (c : Id .context) :
    (a.moved c).execute m = ((a.execute m).1.moved c, (a.execute m).2) := by
  simp only [execute, moved_frames]
  split
  · rfl
  · split
    · exact congrArg (fun flow => (Move.flow flow, m)) (complete_moved a c _ _)
    · exact perform_moved _ _ _ _ _ _

end Activation

end ScriptMachine
