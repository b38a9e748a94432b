import ScriptMachine.Proofs.Machine.World

/-!
# What an instruction can lead to

After an instruction an activation is the same one with other frames, waits for a callee, or is
left. `Activation.execute_continues` says so once for all instructions; the context, the limit
and the kind of an activation never change.
-/

namespace ScriptMachine

variable {σ : Type}

/-- The same activation with other frames, at least one. -/
def Activation.Continues (a b : Activation) : Prop :=
  ∃ f callers, b = { a with frames := f :: callers }

/-- A callee that an activation waits for: a generator function, which only makes a generator,
or a host function. -/
def Callable.IsAwaited : Callable → Prop
  | .executable e => e.routine.isGenerator = true
  | .hostFunction _ => True
  | .resumption _ _ _ | .continuation _ _ => False

/-- An activation goes on as the same one, or is left. -/
def Flow.Continues (a : Activation) : Flow → Prop
  | .next b => a.Continues b
  | .leave _ => True

/-- An activation goes on as the same one, waits as the same one or is left. -/
def Move.Continues (a : Activation) : Move → Prop
  | .flow f => f.Continues a
  | .call b callee site => a.Continues b ∧ site.context = a.context ∧ callee.IsAwaited

namespace Activation

variable (a : Activation) (m : Store σ)

theorem Continues.context {a b : Activation} (h : a.Continues b) : b.context = a.context := by
  obtain ⟨f, callers, rfl⟩ := h
  rfl

theorem Continues.limit {a b : Activation} (h : a.Continues b) : b.limit = a.limit := by
  obtain ⟨f, callers, rfl⟩ := h
  rfl

theorem Continues.isGenerator {a b : Activation} (h : a.Continues b) :
    b.isGenerator = a.isGenerator := by
  obtain ⟨f, callers, rfl⟩ := h
  rfl

theorem throw_continues (v : Value) : (a.throw v).Continues a := by
  simp only [throw]
  cases unwind v a.frames with
  | nil => trivial
  | cons f callers => exact ⟨f, callers, rfl⟩

theorem complete_continues (callers : List Frame) (v : Value) :
    (a.complete callers v).Continues a := by
  cases callers with
  | nil => trivial
  | cons f rest => exact ⟨f.push v, rest, rfl⟩

theorem returnValue_continues (v : Value) : (a.returnValue v).Continues a := by
  unfold returnValue
  split
  · trivial
  · split
    · exact ⟨_, _, rfl⟩
    · exact complete_continues _ _ _

theorem deliver_continues (v : Value) : (a.deliver v).Continues a := by
  unfold deliver
  split
  · trivial
  · exact ⟨_, _, rfl⟩

theorem capture_continues (p : Pending) : (a.capture p m).1.Continues a := by
  unfold capture
  split
  · trivial
  · split <;> trivial

theorem fail_continues (e : Abrupt) : (a.fail e m).1.Continues a := by
  cases e with
  | thrown v => exact throw_continues _ _
  | suspended p => exact capture_continues _ _ _
  | aborted reason => trivial
  | fault f => trivial

/-- An abrupt end touches nothing but the continuations. -/
theorem fail_frame (e : Abrupt) :
    ∃ continuations, (a.fail e m).2 = { m with continuations } := by
  cases e with
  | suspended p =>
    simp only [fail, capture]
    split
    · exact ⟨m.continuations, rfl⟩
    · split
      · exact ⟨m.continuations, rfl⟩
      · dsimp only
        split
        · exact ⟨m.continuations, rfl⟩
        · exact ⟨_, rfl⟩
  | thrown | aborted | fault => exact ⟨m.continuations, rfl⟩

theorem contexts_fail (e : Abrupt) : (a.fail e m).2.contexts = m.contexts := by
  obtain ⟨continuations, h⟩ := a.fail_frame m e
  rw [h]

theorem call_continues (f : Frame) (callers : List Frame) (count : Nat) :
    (a.call f callers count m).1.Continues a := by
  simp only [call]
  split
  · split
    · next hgen => exact ⟨⟨_, _, rfl⟩, rfl, hgen⟩
    · split
      · trivial
      · exact ⟨_, _, rfl⟩
  · exact ⟨⟨_, _, rfl⟩, rfl, trivial⟩
  · exact fail_continues _ _ _

theorem perform_continues (f : Frame) (callers : List Frame) (i : Instruction) :
    (a.perform f callers i m).1.Continues a := by
  unfold perform
  split
  · exact call_continues _ _ _ _ _
  · exact returnValue_continues _ _
  · dsimp only
    split
    · exact fail_continues _ _ _
    · trivial
  · dsimp only
    split
    · exact ⟨_, _, rfl⟩
    · exact throw_continues _ _
    · exact returnValue_continues _ _
  · exact throw_continues _ _
  · dsimp only
    split
    · exact ⟨_, _, rfl⟩
    · exact fail_continues _ _ _

theorem execute_continues : (a.execute m).1.Continues a := by
  unfold execute
  split
  · trivial
  · split
    · exact complete_continues _ _ _
    · exact perform_continues _ _ _ _ _

/-- An instruction changes no context, and no continuation either. -/
theorem execute_frame :
    (a.execute m).2.contexts = m.contexts ∧ (a.execute m).2.continuations = m.continuations := by
  rw [execute_eq]
  exact ⟨rfl, rfl⟩

end Activation

/-! ## Frames and queries -/

/-- Frames that are taken leave everything else where it is. -/
theorem Store.takeFrames_frame {m m' : Store σ} {k : Id .continuation} {frames : List Frame}
    (h : m.takeFrames k = .ok (frames, m')) : ∃ continuations, m' = { m with continuations } := by
  unfold takeFrames at h
  split at h
  · cases h
    exact ⟨_, rfl⟩
  · cases h
  · cases h

/-- A continuation that is given out leaves everything else where it is. -/
theorem Store.requestCapture_frame {m m' : Store σ} {c : Id .context} {p : Pending}
    (h : m.requestCapture c = .ok (p, m')) : ∃ continuations, m' = { m with continuations } := by
  unfold requestCapture at h
  dsimp only at h
  split at h
  · cases h
  · split at h
    · cases h
    · split at h
      · cases h
      · cases h
        exact ⟨_, rfl⟩

/-- No query changes a generator or a resumption. -/
theorem Query.perform_frame (host : Host σ) (thread : Id .thread) (m : Store σ) (q : Query σ) :
    (q.perform host thread m).2.generators = m.generators ∧
      (q.perform host thread m).2.resumptions = m.resumptions := by
  cases q with
  | context q =>
    cases q with
    | setController c controller =>
      simp only [Query.perform, ContextQuery.perform]
      split <;> exact ⟨rfl, rfl⟩
    | requestCapture c =>
      simp only [Query.perform, ContextQuery.perform]
      split
      · next heq =>
        obtain ⟨continuations, rfl⟩ := Store.requestCapture_frame heq
        exact ⟨rfl, rfl⟩
      · exact ⟨rfl, rfl⟩
    | _ => exact ⟨rfl, rfl⟩
  | code q =>
    cases q with
    | create kind r domain =>
      simp only [Query.perform, CodeQuery.perform, Store.createExecutable]
      split
      · exact ⟨rfl, rfl⟩
      · split
        · exact ⟨rfl, rfl⟩
        · split
          · exact ⟨rfl, rfl⟩
          · split
            · exact ⟨rfl, rfl⟩
            · split <;> exact ⟨rfl, rfl⟩
    | nested e index =>
      simp only [Query.perform, CodeQuery.perform]
      split <;> exact ⟨rfl, rfl⟩
    | share r => exact ⟨rfl, rfl⟩
  | _ => exact ⟨rfl, rfl⟩

/-! ## Instructions that are not observed -/

theorem Table.modify_get {noun : Noun} {α : Type} [Inhabited α] (t : Table noun α) (id : Id noun) :
    (t.modify id fun _ => t.get id) = t := by
  obtain ⟨entries⟩ := t
  simp only [modify, get, get?, mk.injEq]
  ext1
  · exact Array.size_modify
  · next i hi hi' =>
    rw [Array.getElem_modify]
    split
    · next h =>
      subst h
      rw [Array.getElem?_eq_getElem hi', Option.getD_some]
    · rfl

namespace Config

variable {goal : Kind} (host : Host σ) (thread : Id .thread) {m : Store σ} {a : Activation}

/-- Without an observer an instruction is only carried out. -/
theorem count_unobserved (h : (m.context a.context).observerThreshold = 0)
    (s : Stack σ .exit goal) : count host m a s = ⟨m, .executing a s⟩ := by
  have hnone : (m.context a.context).countInstruction = (none, m.context a.context) := if_pos h
  have hsame : (m.modifyContext a.context fun _ => m.context a.context) = m := by
    rw [Store.modifyContext, Store.context, Table.modify_get]
  simp only [count, hnone, hsame]

theorem run_counting (h : (m.context a.context).observerThreshold = 0) (s : Stack σ .exit goal) :
    run host thread 2 ⟨m, .counting a s⟩ = execute m a s := by
  have hcount : step host thread ⟨m, .counting a s⟩ = ⟨m, .executing a s⟩ :=
    count_unobserved host h s
  rw [run, hcount]
  rfl

end Config

end ScriptMachine
