import ScriptMachine.Proofs.Returns.Store

/-!
# Activations over code with explicit returns

An instruction does the same whatever code it finds in values and frames:
`Activation.execute_explicit`. The exception is the end of the code of a unit. There the one side
completes the call, and the other pushes undefined and returns it, which comes to the same unless
a finally block is in the way: `Activation.returnValue_of_no_finally`.
-/

namespace ScriptMachine

variable (U : Units)

/-! ## What activations do -/

/-- The end with explicit returns in the code that it holds. -/
def explicitEnd {α : Type} (f : α → α) : Except Abrupt α → Except Abrupt α
  | .ok a => .ok (f a)
  | .error e => .error (e.explicit U)

/-- What is called, with explicit returns. -/
def Callable.explicit : Callable → Callable
  | .executable e => .executable (e.explicit U)
  | .hostFunction f => .hostFunction f
  | .resumption r g op => .resumption r (g.explicit U) op
  | .continuation k v => .continuation k (v.explicit U)

/-- The circumstances of a call, with explicit returns in the code that is handed over. -/
def CallSite.explicit (site : CallSite) : CallSite where
  context := site.context
  scope := site.scope
  receiver := site.receiver.explicit U
  args := site.args.map (Value.explicit U)

/-- The exit with explicit returns in the code that is handed out. -/
def Exit.explicit : Exit → Exit
  | .returned v => .returned (v.explicit U)
  | .yielded v f => .yielded (v.explicit U) (f.explicit U)

/-- The activation with explicit returns in its frames. -/
def Activation.explicit (a : Activation) : Activation where
  context := a.context
  frames := a.frames.map (Frame.explicit U)
  limit := a.limit
  isGenerator := a.isGenerator

/-- How an activation with explicit returns goes on. -/
def Flow.explicit : Flow → Flow
  | .next a => .next (a.explicit U)
  | .leave e => .leave (explicitEnd U (Exit.explicit U) e)

/-- What an activation with explicit returns does after an instruction. -/
def Move.explicit : Move → Move
  | .flow f => .flow (f.explicit U)
  | .call a f site => .call (a.explicit U) (f.explicit U) (site.explicit U)

variable {σ : Type}

/-- The store with explicit returns in its world. -/
def Store.explicit (m : Store σ) : Store σ := m.setWorld (m.world.explicit U)

theorem World.bare_explicit (w : World) : (w.explicit U).bare = w.bare.explicit U := rfl

@[simp] theorem Store.scopes_explicit (m : Store σ) :
    (m.explicit U).scopes = m.scopes.explicit U := rfl

@[simp] theorem Store.flattening_explicit (m : Store σ) {α : Type} (c : Flattening α) :
    (m.explicit U).flattening c = ((m.flattening c).1, (m.flattening c).2.explicit U) := rfl

/-! ## Instructions of one frame -/

theorem Frame.perform_explicit (f : Frame) (i : Instruction) (m : Store σ) :
    (f.explicit U).perform i (m.explicit U) =
      (explicitEnd U id (f.perform i m).1, (f.perform i m).2.1.explicit U,
        (f.perform i m).2.2.explicit U) := by
  cases i with
  | loadName name =>
    simp only [perform, scope_explicit, Store.scopes_explicit, Scopes.find?_explicit]
    cases m.scopes.find? f.scope name <;> rfl
  | storeName name =>
    simp only [perform, pop_explicit, scope_explicit, body_explicit, Store.scopes_explicit,
      Executable.routine_explicit, Routine.isStrict_explicit, Scopes.has_explicit,
      Scopes.put_explicit]
    split <;> rfl
  | defineName name =>
    simp only [perform, pop_explicit, scope_explicit, Store.scopes_explicit,
      Scopes.define_explicit]
    rfl
  | loadLocal slot =>
    simp only [perform, getLocal_explicit, push_explicit]
    rfl
  | storeLocal slot =>
    simp only [perform, pop_explicit, setLocal_explicit]
    rfl
  | pop =>
    simp only [perform, pop_explicit]
    rfl
  | dup =>
    simp only [perform, top?_explicit, push_explicit]
    rfl
  | binary op =>
    have hresult := Value.explicit_applyBinary U f.pop.2.pop.1 f.pop.1 op m.texts
    simp only [perform, applyBinary, pop_explicit, Store.flattening_explicit,
      Value.applyBinary_explicit]
    exact congrArg (fun v => (Except.ok (), (f.pop.2.pop.2.explicit U).push v, _)) hresult.symm
  | not =>
    simp only [perform, pop_explicit, Value.isTruthy_explicit]
    rfl
  | jumpIfFalse target =>
    simp only [perform, pop_explicit, Value.isTruthy_explicit, goto_explicit]
    split <;> rfl
  | closure index =>
    have hfresh : (m.explicit U).fresh .executable =
        ((m.fresh .executable).1, (m.fresh .executable).2.explicit U) := rfl
    simp only [perform, hfresh, body_explicit, Executable.nested?_explicit]
    cases f.body.nested? (m.fresh .executable).1 index.toNat <;> rfl
  | enterTry catchAt finallyAt =>
    simp only [perform, pushHandler_explicit]
    rfl
  | exitTry =>
    simp only [perform, popHandler_explicit]
    rfl
  | undefined | null | bool | number | text | loadThis | jump => rfl
  | call | ret | yield | endFinally | throw => rfl

/-! ## Activations -/

namespace Activation

variable (a : Activation) (v : Value) (m : Store σ)

@[simp] theorem context_explicit : (a.explicit U).context = a.context := rfl

@[simp] theorem frames_explicit : (a.explicit U).frames = a.frames.map (Frame.explicit U) := rfl

@[simp] theorem limit_explicit : (a.explicit U).limit = a.limit := rfl

@[simp] theorem isGenerator_explicit : (a.explicit U).isGenerator = a.isGenerator := rfl

/-- The same frames are passed. The induction is on the frames, innermost first. -/
theorem unwind_explicit (frames : List Frame) :
    unwind (v.explicit U) (frames.map (Frame.explicit U)) =
      (unwind v frames).map (Frame.explicit U) := by
  induction frames with
  | nil => rfl
  | cons f callers ih =>
    rw [List.map_cons, unwind, unwind, Frame.routeThrow_explicit]
    obtain ⟨isHandled, g⟩ := f.routeThrow v
    cases isHandled with
    | true => rfl
    | false => exact ih

theorem throw_explicit : (a.explicit U).throw (v.explicit U) = (a.throw v).explicit U := by
  rw [throw, frames_explicit, unwind_explicit, throw]
  cases unwind v a.frames <;> rfl

theorem complete_explicit (callers : List Frame) :
    (a.explicit U).complete (callers.map (Frame.explicit U)) (v.explicit U) =
      (a.complete callers v).explicit U := by
  cases callers <;> rfl

theorem returnValue_explicit :
    (a.explicit U).returnValue (v.explicit U) = (a.returnValue v).explicit U := by
  rw [returnValue, frames_explicit, returnValue]
  cases a.frames with
  | nil => rfl
  | cons f callers =>
    rw [List.map_cons]
    dsimp only
    rw [Frame.routeReturn_explicit]
    obtain ⟨goesOn, g⟩ := f.routeReturn v
    cases goesOn with
    | true => rfl
    | false => exact a.complete_explicit U v callers

theorem deliver_explicit :
    (a.explicit U).deliver (v.explicit U) = (a.deliver v).explicit U := by
  rw [deliver, frames_explicit, deliver]
  cases a.frames <;> rfl

/-- An error other than a capture. -/
theorem fail_explicit {e : Abrupt} (he : ∀ p, e ≠ .suspended p) :
    (a.explicit U).fail (e.explicit U) (m.explicit U) =
      ((a.fail e m).1.explicit U, (a.fail e m).2.explicit U) := by
  cases e with
  | thrown v => exact congrArg (·, m.explicit U) (a.throw_explicit U v)
  | suspended p => exact absurd rfl (he p)
  | aborted | fault => rfl

theorem failed_explicit {e : Abrupt} (he : ∀ p, e ≠ .suspended p) :
    failed ((a.explicit U).fail (e.explicit U) (m.explicit U)) =
      ((failed (a.fail e m)).1.explicit U, (failed (a.fail e m)).2.explicit U) := by
  rw [fail_explicit U a m he]
  rfl

theorem call_explicit (f : Frame) (callers : List Frame) (count : Nat) :
    (a.explicit U).call (f.explicit U) (callers.map (Frame.explicit U)) count (m.explicit U) =
      ((a.call f callers count m).1.explicit U, (a.call f callers count m).2.explicit U) := by
  simp only [call, Frame.popMany_explicit, Frame.pop_explicit]
  generalize (f.popMany count).1 = args, (f.popMany count).2.pop.1 = receiver,
    (f.popMany count).2.pop.2.pop.1 = callee, (f.popMany count).2.pop.2.pop.2 = g
  cases callee with
  | executable e =>
    simp only [Value.explicit_executable, Executable.routine_explicit, Routine.isGenerator_explicit,
      limit_explicit, List.length_cons, List.length_map, Frame.scope_explicit,
      ← Frame.explicit_enter]
    split
    · rfl
    · split <;> rfl
  | hostFunction k => rfl
  | undefined | null | bool | number | string | object | generator =>
    simp only [Value.explicit, Store.flattening_explicit]
    exact failed_explicit U { a with frames := g :: callers } _ (typeError_ne_suspended _)

/-- An instruction of the innermost frame alone. -/
theorem goOn_explicit (callers : List Frame) (f : Frame) (i : Instruction) :
    (a.explicit U).goOn (callers.map (Frame.explicit U))
        ((f.explicit U).perform i (m.explicit U)) =
      ((a.goOn callers (f.perform i m)).1.explicit U,
        (a.goOn callers (f.perform i m)).2.explicit U) := by
  rw [Frame.perform_explicit]
  rcases hperform : f.perform i m with ⟨r, g, n⟩
  cases r with
  | ok u => rfl
  | error e =>
    exact failed_explicit U { a with frames := g :: callers } n
      (Frame.perform_ne_suspended hperform)

theorem perform_explicit (f : Frame) (callers : List Frame) (i : Instruction) :
    (a.explicit U).perform (f.explicit U) (callers.map (Frame.explicit U)) i (m.explicit U) =
      ((a.perform f callers i m).1.explicit U, (a.perform f callers i m).2.explicit U) := by
  let within (g : Frame) : Activation := { a with frames := g :: callers }
  have hwithin : ∀ g : Frame, { a.explicit U with
      frames := g.explicit U :: callers.map (Frame.explicit U) } = (within g).explicit U :=
    fun _ => rfl
  by_cases hown : i.isOwn = true
  · rw [perform_of_isOwn _ _ hown, perform_of_isOwn _ _ hown]
    exact a.goOn_explicit U m callers f i
  cases i with
  | call count => exact a.call_explicit U m f callers _
  | ret =>
    simp only [perform, Frame.pop_explicit, hwithin, returnValue_explicit]
    rfl
  | throw =>
    simp only [perform, Frame.pop_explicit, hwithin, throw_explicit]
    rfl
  | yield =>
    simp only [perform, Frame.pop_explicit, isGenerator_explicit, List.isEmpty_map]
    split
    · exact failed_explicit U (within f) m (typeError_ne_suspended _)
    · rfl
  | endFinally =>
    simp only [perform, Frame.endCleanup_explicit]
    obtain ⟨c, g⟩ := f.endCleanup
    cases c with
    | normal => rfl
    | throw v =>
      exact congrArg (fun flow => (Move.flow flow, m.explicit U)) ((within g).throw_explicit U v)
    | «return» v =>
      exact congrArg (fun flow => (Move.flow flow, m.explicit U))
        ((within g).returnValue_explicit U v)
  | _ => exact absurd rfl hown

/-- The innermost frame has come to the end of the code of a unit. -/
def AtEnd : Prop :=
  ∃ f callers, a.frames = f :: callers ∧ f.fetch? = none ∧ U.has f.body.routine = true

/-- An instruction of code with explicit returns, before the end of the code. -/
theorem execute_explicit (h : ¬ a.AtEnd U) :
    (a.explicit U).execute (m.explicit U) =
      ((a.execute m).1.explicit U, (a.execute m).2.explicit U) := by
  unfold execute
  rw [frames_explicit]
  cases hframes : a.frames with
  | nil => rfl
  | cons f callers =>
    rw [List.map_cons]
    dsimp only
    cases hfetch : f.fetch? with
    | some x =>
      obtain ⟨i, g⟩ := x
      rw [Frame.fetch?_explicit_of_some U hfetch]
      exact a.perform_explicit U m g callers i
    | none =>
      have hhas : U.has f.body.routine = false :=
        Bool.eq_false_iff.mpr fun hhas => h ⟨f, callers, hframes, hfetch, hhas⟩
      rw [Frame.fetch?_explicit_of_none U hfetch hhas]
      exact congrArg (fun flow => (Move.flow flow, m.explicit U))
        (a.complete_explicit U .undefined callers)

/-! ## The end of the code -/

variable {U a} {f : Frame} {callers : List Frame}

/-- Without a finally block in the way, a return completes the call. -/
theorem returnValue_of_no_finally (hframes : a.frames = f :: callers)
    (h : ∀ h ∈ f.handlers, h.finallyAt = none) (v : Value) :
    a.returnValue v = a.complete callers v := by
  have hroute := Frame.routeReturn_of_no_finally h v
  unfold returnValue
  rw [hframes]
  revert hroute
  dsimp only
  generalize f.routeReturn v = x
  obtain ⟨goesOn, g⟩ := x
  rintro rfl
  rfl

/-- At the end of the code of a unit the call is completed. -/
theorem execute_of_end (hframes : a.frames = f :: callers) (hfetch : f.fetch? = none)
    (m : Store σ) : a.execute m = (.flow (a.complete callers .undefined), m) := by
  simp only [execute, hframes, hfetch]

/-- With an explicit return undefined is pushed there, and its return completes the call. -/
theorem execute_explicit_of_end (hframes : a.frames = f :: callers)
    (hend : f.position = f.body.routine.code.size) (hhas : U.has f.body.routine = true)
    (hfinally : ∀ h ∈ f.handlers, h.finallyAt = none) :
    ∃ b : Activation, b.context = a.context ∧
      (∀ m : Store σ, (a.explicit U).execute m = (.flow (.next b), m)) ∧
      ∀ m : Store σ, b.execute m = (.flow ((a.complete callers .undefined).explicit U), m) := by
  let pushed : Frame := ((f.explicit U).goto (f.position + 1)).push .undefined
  let popped : Frame := (f.explicit U).goto (f.position + 2)
  refine ⟨{ a.explicit U with frames := pushed :: callers.map (Frame.explicit U) }, rfl,
    fun m => ?_, fun m => ?_⟩
  · simp only [execute, frames_explicit, hframes, List.map_cons,
      Frame.fetch?_explicit_of_end U hend hhas]
    rfl
  · have hreturn : Activation.returnValue
        { a.explicit U with frames := popped :: callers.map (Frame.explicit U) } .undefined =
          (a.complete callers .undefined).explicit U := by
      rw [returnValue_of_no_finally (f := popped) rfl hfinally]
      exact a.complete_explicit U .undefined callers
    simp only [execute, pushed, Frame.fetch?_explicit_behind U hend hhas]
    exact congrArg (fun flow => (Move.flow flow, m)) hreturn

end Activation

/-! ## Activations on stores -/

namespace Store.Matches

variable {U} {S : σ → σ → Prop} {m m' : Store σ}

/-- An instruction before the end of the code. -/
theorem execute (h : m.Matches U S m') {a : Activation} (hend : ¬ a.AtEnd U) :
    ((a.explicit U).execute m').1 = (a.execute m).1.explicit U ∧
      (a.execute m).2.Matches U S ((a.explicit U).execute m').2 := by
  have hbare := a.execute_explicit U m.world.bare hend
  rw [Activation.execute_eq a m, Activation.execute_eq (a.explicit U) m', h.world,
    World.bare_explicit, hbare]
  exact ⟨rfl, h.setWorld _⟩

theorem capture (h : m.Matches U S m') (a : Activation) (p : Pending) :
    ((a.explicit U).capture p m').1 = (a.capture p m).1.explicit U ∧
      (a.capture p m).2.Matches U S ((a.explicit U).capture p m').2 := by
  unfold Activation.capture
  rw [a.isGenerator_explicit, a.context_explicit, h.depth, h.continuation,
    CaptureState.isCaptured_explicit]
  split
  · exact ⟨rfl, h⟩
  · split
    · exact ⟨rfl, h⟩
    · refine ⟨rfl, ?_⟩
      dsimp only
      split
      · exact h
      · exact h.setContinuation p.continuation (.captured a.frames)

theorem fail (h : m.Matches U S m') (a : Activation) (e : Abrupt) :
    ((a.explicit U).fail (e.explicit U) m').1 = (a.fail e m).1.explicit U ∧
      (a.fail e m).2.Matches U S ((a.explicit U).fail (e.explicit U) m').2 := by
  cases e with
  | thrown v => exact ⟨a.throw_explicit U v, h⟩
  | suspended p => exact h.capture a p
  | aborted | fault => exact ⟨rfl, h⟩

end Store.Matches

end ScriptMachine
