import ScriptMachine.Proofs.Machine.Moves
import ScriptMachine.Proofs.Machine.Nesting

/-!
# Resumptions are remembered

A resumption of a generator that is the outermost call of its context keeps its value and whether
the generator was done in a table of the store. An entry of that table may be changed, but no
step of the machine takes one away.
-/

namespace ScriptMachine

variable {σ : Type} {goal : Kind}

/-- The resumption was made. -/
def Store.Recalls (m : Store σ) (r : Id .resumption) : Prop := (m.resumptions.get? r).isSome

namespace Store.Recalls

variable {m m' : Store σ} {r : Id .resumption}

theorem of_eq (h : m.Recalls r) (hm : m'.resumptions = m.resumptions) : m'.Recalls r := by
  rw [Store.Recalls, hm]
  exact h

theorem insert (h : m.Recalls r) (x : Resumption) :
    ({ m with resumptions := (m.resumptions.insert x).2 } : Store σ).Recalls r := by
  simp only [Store.Recalls, Table.get?_insert]
  split
  · rfl
  · exact h

theorem modify (h : m.Recalls r) (other : Id .resumption) (f : Resumption → Resumption) :
    ({ m with resumptions := m.resumptions.modify other f } : Store σ).Recalls r := by
  simp only [Store.Recalls, Table.get?_modify]
  split
  · rw [Option.isSome_map]
    exact h
  · exact h

end Store.Recalls

theorem Activation.resumptions_fail (a : Activation) (m : Store σ) (e : Abrupt) :
    (a.fail e m).2.resumptions = m.resumptions := by
  obtain ⟨continuations, h⟩ := a.fail_frame m e
  rw [h]

theorem Activation.resumptions_execute (a : Activation) (m : Store σ) :
    (a.execute m).2.resumptions = m.resumptions := by
  rw [execute_eq]
  rfl

namespace Config

variable (host : Host σ) (thread : Id .thread) (m : Store σ) {r : Id .resumption}

/-! ## The beginnings of activities -/

theorem resumptions_follow (c : Id .context) (flow : Flow) (s : Stack σ .exit goal) :
    (follow m c flow s).store.resumptions = m.resumptions := by
  cases flow <;> rfl

theorem resumptions_execute (a : Activation) (s : Stack σ .exit goal) :
    (execute m a s).store.resumptions = m.resumptions := by
  have hm := a.resumptions_execute m
  unfold execute
  split
  · next heq =>
    rw [heq] at hm
    rw [resumptions_follow]
    exact hm
  · next heq =>
    rw [heq] at hm
    exact hm

theorem resumptions_interpret (e : Executable) (site : CallSite) (s : Stack σ .completion goal) :
    (interpret m e site s).store.resumptions = m.resumptions := by
  unfold interpret
  dsimp only
  split <;> rfl

theorem resumptions_beginOutermost (f : Callable) (site : CallSite) (isStrict : Bool)
    (s : Stack σ .completion goal) :
    (beginOutermost host m f site isStrict s).store.resumptions = m.resumptions := by
  unfold beginOutermost
  split
  · rfl
  · dsimp only
    split <;> rfl

theorem resumptions_beginCapturing (f : Callable) (c : Id .context) (scope : Id .scope)
    (args : List Value) (isStrict : Bool) (s : Stack σ .completion goal) :
    (beginCapturing host m f c scope args isStrict s).store.resumptions = m.resumptions :=
  resumptions_beginOutermost host _ _ _ _ _

theorem resumptions_beginStep (g : Generator) (op : GeneratorOp) (c : Id .context) (v : Value)
    (s : Stack σ .step goal) :
    (beginStep m g op c v s).store.resumptions = m.resumptions := by
  unfold beginStep
  dsimp only
  split
  · cases op <;> rfl
  · split
    · rfl
    · split
      · cases op with
        | next => rfl
        | throw =>
          dsimp only
          split <;> rfl
        | «return» =>
          dsimp only
          split <;> rfl
      · cases op <;> rfl

variable {m}

theorem recalls_beginResumption (h : m.Recalls r) (via : Executable) (g : Generator)
    (op : GeneratorOp) (c : Id .context) (scope : Id .scope) (v : Value) (s : Stack σ .step goal) :
    (beginResumption host m via g op c scope v s).store.Recalls r := by
  unfold beginResumption
  split
  · exact h
  · split
    · exact h.of_eq (resumptions_beginStep m _ _ _ _ _)
    · exact (h.insert { value := some v }).of_eq (resumptions_beginOutermost host _ _ _ _ _)

theorem resumptions_beginContinuation (k : Id .continuation) (v : Value) (c : Id .context)
    (s : Stack σ .completion goal) :
    (beginContinuation m k v c s).store.resumptions = m.resumptions := by
  unfold beginContinuation
  split
  · rfl
  · next heq =>
    obtain ⟨continuations, rfl⟩ := Store.takeFrames_frame heq
    rfl
  · next heq =>
    obtain ⟨continuations, rfl⟩ := Store.takeFrames_frame heq
    rfl

theorem recalls_beginCall (h : m.Recalls r) (f : Callable) (site : CallSite)
    (s : Stack σ .completion goal) : (beginCall host m f site s).store.Recalls r := by
  cases f with
  | executable e =>
    simp only [beginCall]
    split
    · exact h.of_eq (resumptions_interpret m _ _ _)
    · exact h.of_eq (resumptions_beginOutermost host m _ _ _ _)
  | hostFunction f => exact h
  | resumption other g op =>
    exact (h.modify other fun x => { x with value := none }).of_eq (resumptions_beginStep _ _ _ _ _ _)
  | continuation k v => exact h.of_eq (resumptions_beginContinuation _ _ _ _)

variable (m)

theorem resumptions_beginMake (f : Id .factory) (s : Stack σ .made goal) :
    (beginMake host m f s).store.resumptions = m.resumptions := by
  unfold beginMake
  split <;> rfl

theorem resumptions_beginBind (c : Id .context) (s : Stack σ .entered goal) :
    (beginBind thread m c s).store.resumptions = m.resumptions := by
  unfold beginBind
  split <;> rfl

theorem resumptions_beginEnter (f : Id .factory) (requested : Option (Id .context))
    (s : Stack σ .entered goal) :
    (beginEnter host thread m f requested s).store.resumptions = m.resumptions := by
  unfold beginEnter
  split
  · rfl
  · split
    · exact resumptions_beginBind _ _ _ _
    · exact resumptions_beginMake _ _ _ _

theorem resumptions_beginExit (s : Stack σ .left goal) :
    (beginExit thread m s).store.resumptions = m.resumptions := by
  unfold beginExit
  split
  · rfl
  · split <;> rfl

theorem resumptions_beginCapturingCall (e : Executable) (c : Id .context) (scope : Id .scope)
    (args : List Value) (s : Stack σ .completion goal) :
    (beginAction.beginCapturingCall host m e c scope args s).store.resumptions =
      m.resumptions := by
  unfold beginAction.beginCapturingCall
  split
  · rfl
  · exact resumptions_beginCapturing host m _ _ _ _ _ _

variable {m}

theorem recalls_beginAction (h : m.Recalls r) (a : Action) (s : Stack σ a.kind goal) :
    (beginAction host thread m a s).store.Recalls r := by
  cases a with
  | call f site => exact h
  | callOutermost f site isStrict =>
    exact h.of_eq (resumptions_beginOutermost host m _ _ _ _)
  | execute e c scope =>
    simp only [beginAction]
    split <;> exact h
  | executeCapturing e c scope =>
    simp only [beginAction]
    split
    · exact h
    · exact h.of_eq (resumptions_beginCapturingCall host m _ _ _ _ _)
  | callCapturing e c scope args =>
    exact h.of_eq (resumptions_beginCapturingCall host m _ _ _ _ _)
  | resume k c scope v =>
    simp only [beginAction]
    split
    · exact h
    · split
      · exact h
      · exact h.of_eq (resumptions_beginCapturing host m _ _ _ _ _ _)
  | step via g op c scope v => exact recalls_beginResumption host h _ _ _ _ _ _ _
  | enter f requested => exact h.of_eq (resumptions_beginEnter host thread m _ _ _)
  | exit => exact h.of_eq (resumptions_beginExit thread m _)
  | makeContext f => exact h.of_eq (resumptions_beginMake host m _ _)

/-! ## Results, panics and steps -/

theorem recalls_take {α β : Kind} (h : m.Recalls r) (t : Task σ α β) (x : α.Result)
    (s : Stack σ β goal) : (take host thread m t x s).store.Recalls r := by
  cases t with
  | bodyEnd g =>
    simp only [take, endBody]
    split <;> exact h
  | called a =>
    cases x with
    | ok v => exact h.of_eq (resumptions_follow _ _ _ _)
    | error e => exact h.of_eq ((resumptions_follow _ _ _ _).trans (a.resumptions_fail m e))
  | observed a => cases x <;> exact h
  | bindMade =>
    simp only [take]
    split
    · exact h
    · exact h.of_eq (resumptions_beginBind thread m _ _)
  | release => exact h.of_eq (resumptions_beginExit thread m _)
  | callEnd =>
    cases x with
    | ok exit => cases exit <;> exact h
    | error e => exact h
  | recordStep other =>
    cases x with
    | ok step => exact h.modify other fun c => { c with done := some step.done }
    | error e => exact h
  | flattenResult | reportStep | bracketBody => cases x <;> exact h
  | notifying event c rest => cases rest <;> exact h
  | program | clearTopCall | restoreCaptures | entered | left | released | repanic | guarded =>
    exact h

theorem recalls_passPanic {α β : Kind} (h : m.Recalls r) (t : Task σ α β) (s : Stack σ β goal) :
    (passPanic thread m t s).store.Recalls r := by
  cases t with
  | release => exact h.of_eq (resumptions_beginExit thread m _)
  | _ => exact h

theorem recalls_runProgram {κ : Kind} (h : m.Recalls r) (p : Program σ κ) (s : Stack σ κ goal) :
    (runProgram host thread m p s).store.Recalls r := by
  cases p with
  | ask q k => exact h.of_eq (q.perform_frame host thread m).2
  | act a k => exact recalls_beginAction host thread h a _
  | bracket f body k => exact h.of_eq (resumptions_beginEnter host thread m _ _ _)
  | finish | panic | guard => exact h

theorem step_recalls {X : Config σ goal} (h : X.store.Recalls r) :
    (X.step host thread).store.Recalls r := by
  obtain ⟨m, state⟩ := X
  cases state with
  | running p s => exact recalls_runProgram host thread h p s
  | calling f site s => exact recalls_beginCall host h f site s
  | counting a s =>
    simp only [step, count]
    split <;> exact h
  | executing a s => exact h.of_eq (resumptions_execute m a s)
  | returning x s =>
    cases s with
    | nil => exact h
    | cons t s => exact recalls_take host thread h t x s
  | panicking s =>
    cases s with
    | nil => exact h
    | cons t s => exact recalls_passPanic thread h t s
  | crashed => exact h

/-- A resumption that was made is remembered. -/
theorem run_recalls {X : Config σ goal} (h : X.store.Recalls r) (n : Nat) :
    (X.run host thread n).store.Recalls r := by
  induction n generalizing X with
  | zero => exact h
  | succ n ih => exact ih (step_recalls host thread h)

end Config

end ScriptMachine
