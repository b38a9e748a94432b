import ScriptMachine.Proofs.Machine.Moves
import ScriptMachine.Proofs.Safety.Run

/-!
# What a step does to the scopes

A host program changes the scopes by a query about them, and an activation by an instruction of its
innermost frame. No other step touches them: `Config.scopes_step`.
-/

namespace ScriptMachine

variable {σ : Type} {goal : Kind}

/-! ## Instructions -/

namespace Activation

variable (a : Activation) (m : Store σ)

theorem scopes_fail (e : Abrupt) : (a.fail e m).2.scopes = m.scopes := by
  obtain ⟨continuations, h⟩ := a.fail_frame m e
  rw [h]

theorem scopes_call (f : Frame) (callers : List Frame) (count : Nat) :
    (a.call f callers count m).2.scopes = m.scopes := by
  unfold call
  dsimp only
  split
  · split
    · rfl
    · split <;> rfl
  · rfl
  · exact scopes_fail _ _ _

/-- The scopes after an instruction are those that its frame leaves. -/
theorem scopes_perform (f : Frame) (callers : List Frame) (i : Instruction) :
    (a.perform f callers i m).2.scopes = (f.perform i m).2.2.scopes := by
  by_cases hown : i.isOwn
  · rw [perform_of_isOwn a callers hown]
    obtain ⟨r, g, m', hr⟩ : ∃ r g m', f.perform i m = (r, g, m') := ⟨_, _, _, rfl⟩
    rw [hr]
    cases r with
    | ok u => rfl
    | error e => exact scopes_fail _ _ _
  · cases i with
    | call count => exact scopes_call _ _ _ _ _
    | ret | throw => rfl
    | yield =>
      simp only [perform]
      split
      · exact scopes_fail _ _ _
      · rfl
    | endFinally =>
      simp only [perform]
      split <;> rfl
    | _ => exact absurd rfl hown

end Activation

/-! ## The beginnings of activities -/

namespace Config

variable {host : Host σ} {thread : Id .thread} {m : Store σ}

theorem scopes_follow (c : Id .context) (flow : Flow) (s : Stack σ .exit goal) :
    (follow m c flow s).store.scopes = m.scopes := by
  cases flow <;> rfl

theorem scopes_interpret (e : Executable) (site : CallSite) (s : Stack σ .completion goal) :
    (interpret m e site s).store.scopes = m.scopes := by
  unfold interpret
  dsimp only
  split <;> rfl

theorem scopes_beginOutermost (f : Callable) (site : CallSite) (isStrict : Bool)
    (s : Stack σ .completion goal) :
    (beginOutermost host m f site isStrict s).store.scopes = m.scopes := by
  unfold beginOutermost
  split
  · rfl
  · dsimp only
    split <;> rfl

theorem scopes_beginCapturing (f : Callable) (c : Id .context) (scope : Id .scope)
    (args : List Value) (isStrict : Bool) (s : Stack σ .completion goal) :
    (beginCapturing host m f c scope args isStrict s).store.scopes = m.scopes :=
  scopes_beginOutermost _ _ _ _

theorem scopes_beginStep (g : Generator) (op : GeneratorOp) (c : Id .context) (v : Value)
    (s : Stack σ .step goal) : (beginStep m g op c v s).store.scopes = m.scopes := by
  unfold beginStep
  dsimp only
  split
  · cases op <;> rfl
  · split
    · rfl
    · split
      · cases op with
        | next => rfl
        | throw | «return» =>
          dsimp only
          split <;> rfl
      · cases op <;> rfl

theorem scopes_beginResumption (via : Executable) (g : Generator) (op : GeneratorOp)
    (c : Id .context) (scope : Id .scope) (v : Value) (s : Stack σ .step goal) :
    (beginResumption host m via g op c scope v s).store.scopes = m.scopes := by
  unfold beginResumption
  split
  · rfl
  · split
    · exact scopes_beginStep _ _ _ _ _
    · exact scopes_beginOutermost _ _ _ _

theorem scopes_beginContinuation (k : Id .continuation) (v : Value) (c : Id .context)
    (s : Stack σ .completion goal) :
    (beginContinuation m k v c s).store.scopes = m.scopes := by
  unfold beginContinuation
  split
  · rfl
  · next heq =>
    obtain ⟨continuations, rfl⟩ := Store.takeFrames_frame heq
    rfl
  · next heq =>
    obtain ⟨continuations, rfl⟩ := Store.takeFrames_frame heq
    rfl

theorem scopes_beginCall (f : Callable) (site : CallSite) (s : Stack σ .completion goal) :
    (beginCall host m f site s).store.scopes = m.scopes := by
  cases f with
  | executable e =>
    simp only [beginCall]
    split
    · exact scopes_interpret _ _ _
    · exact scopes_beginOutermost _ _ _ _
  | hostFunction f => rfl
  | resumption r g op => exact scopes_beginStep _ _ _ _ _
  | continuation k v => exact scopes_beginContinuation _ _ _ _

theorem scopes_beginMake (f : Id .factory) (s : Stack σ .made goal) :
    (beginMake host m f s).store.scopes = m.scopes := by
  unfold beginMake
  split <;> rfl

theorem scopes_beginBind (c : Id .context) (s : Stack σ .entered goal) :
    (beginBind thread m c s).store.scopes = m.scopes := by
  unfold beginBind
  split <;> rfl

theorem scopes_beginEnter (f : Id .factory) (requested : Option (Id .context))
    (s : Stack σ .entered goal) :
    (beginEnter host thread m f requested s).store.scopes = m.scopes := by
  unfold beginEnter
  split
  · rfl
  · split
    · exact scopes_beginBind _ _
    · exact scopes_beginMake _ _

theorem scopes_beginExit (s : Stack σ .left goal) :
    (beginExit thread m s).store.scopes = m.scopes := by
  unfold beginExit
  split
  · rfl
  · split <;> rfl

theorem scopes_beginCapturingCall (e : Executable) (c : Id .context) (scope : Id .scope)
    (args : List Value) (s : Stack σ .completion goal) :
    (beginAction.beginCapturingCall host m e c scope args s).store.scopes = m.scopes := by
  unfold beginAction.beginCapturingCall
  split
  · rfl
  · exact scopes_beginCapturing _ _ _ _ _ _

theorem scopes_beginAction (a : Action) (s : Stack σ a.kind goal) :
    (beginAction host thread m a s).store.scopes = m.scopes := by
  cases a with
  | call f site => rfl
  | callOutermost f site isStrict => exact scopes_beginOutermost _ _ _ _
  | execute e c scope =>
    simp only [beginAction]
    split <;> rfl
  | executeCapturing e c scope =>
    simp only [beginAction]
    split
    · rfl
    · exact scopes_beginCapturingCall _ _ _ _ _
  | callCapturing e c scope args => exact scopes_beginCapturingCall _ _ _ _ _
  | resume k c scope v =>
    simp only [beginAction]
    split
    · rfl
    · split
      · rfl
      · exact scopes_beginCapturing _ _ _ _ _ _
  | step via g op c scope v => exact scopes_beginResumption _ _ _ _ _ _ _
  | enter f requested => exact scopes_beginEnter _ _ _
  | exit => exact scopes_beginExit _
  | makeContext f => exact scopes_beginMake _ _

theorem scopes_take {α β : Kind} (t : Task σ α β) (x : α.Result) (s : Stack σ β goal) :
    (take host thread m t x s).store.scopes = m.scopes := by
  cases t with
  | called a =>
    cases x with
    | ok v => exact scopes_follow _ _ _
    | error e => exact (scopes_follow _ _ _).trans (Activation.scopes_fail _ _ _)
  | observed a =>
    cases x with
    | ok u => rfl
    | error reason => exact scopes_follow _ _ _
  | flattenResult | recordStep | reportStep | bracketBody => cases x <;> rfl
  | callEnd =>
    cases x with
    | ok exit => cases exit <;> rfl
    | error e => rfl
  | bodyEnd g =>
    simp only [take, endBody]
    split <;> rfl
  | bindMade =>
    simp only [take]
    split
    · rfl
    · exact scopes_beginBind _ _
  | notifying event c rest => cases rest <;> rfl
  | release => exact scopes_beginExit _
  | _ => rfl

theorem scopes_passPanic {α β : Kind} (t : Task σ α β) (s : Stack σ β goal) :
    (passPanic thread m t s).store.scopes = m.scopes := by
  cases t with
  | release => exact scopes_beginExit _
  | _ => rfl

/-! ## Steps -/

/-- What a step may do to the scopes. -/
inductive Rescopes (X : Config σ goal) (t : Scopes) : Prop
  | same (h : t = X.store.scopes)
  | asked {κ : Kind} (q : ScopeQuery) (k : q.Reply → Program σ κ) (s : Stack σ κ goal)
      (hstate : X.state = .running (.ask (.scope q) k) s)
      (h : t = (q.perform X.store.scopes).2)
  | performed (a : Activation) (f : Frame) (callers : List Frame) (i : Instruction)
      (habout : X.IsAbout a f callers i)
      (h : t = (Frame.perform { f with position := f.position + 1 } i X.store).2.2.scopes)

theorem scopes_ask (host : Host σ) (thread : Id .thread) (m : Store σ) {q : Query σ}
    (hq : ∀ q', q ≠ .scope q') : (q.perform host thread m).2.scopes = m.scopes := by
  cases q with
  | scope q => exact absurd rfl (hq q)
  | context q =>
    cases q with
    | setController c controller =>
      simp only [Query.perform, ContextQuery.perform]
      split <;> rfl
    | requestCapture c =>
      simp only [Query.perform, ContextQuery.perform]
      split
      · next p m' hp =>
        obtain ⟨continuations, rfl⟩ := Store.requestCapture_frame hp
        rfl
      · rfl
    | _ => rfl
  | code q =>
    cases q with
    | create kind r domain =>
      simp only [Query.perform, CodeQuery.perform, Store.createExecutable]
      split
      · rfl
      · split
        · rfl
        · split
          · rfl
          · split
            · rfl
            · split <;> rfl
    | nested e index =>
      simp only [Query.perform, CodeQuery.perform]
      split <;> rfl
    | share r => rfl
  | _ => rfl

theorem scopes_runProgram {κ : Kind} (p : Program σ κ) (s : Stack σ κ goal) :
    Rescopes ⟨m, .running p s⟩ (runProgram host thread m p s).store.scopes := by
  cases p with
  | finish | panic | guard => exact .same rfl
  | ask q k =>
    -- of all that a host can ask only one kind is about scopes
    by_cases hq : ∃ q', q = .scope q'
    · obtain ⟨q', rfl⟩ := hq
      exact .asked q' k s rfl rfl
    · have hsame : (q.perform host thread m).2.scopes = m.scopes :=
        scopes_ask host thread m fun q' h => hq ⟨q', h⟩
      exact .same hsame
  | act a k => exact .same (scopes_beginAction a _)
  | bracket f body k => exact .same (scopes_beginEnter _ _ _)

theorem scopes_count (a : Activation) (s : Stack σ .exit goal) :
    (count host m a s).store.scopes = m.scopes := by
  unfold count
  dsimp only
  split <;> rfl

theorem scopes_execute (a : Activation) (s : Stack σ .exit goal) :
    (execute m a s).store.scopes = (a.execute m).2.scopes := by
  unfold execute
  split
  · next heq =>
    rw [heq]
    exact scopes_follow _ _ _
  · next heq => rw [heq]

/-- The scopes after an instruction are those that its frame leaves. -/
theorem IsAbout.scopes_step {X : Config σ goal} {a : Activation} {f : Frame}
    {callers : List Frame} {i : Instruction} (h : X.IsAbout a f callers i) :
    (X.step host thread).store.scopes =
      (Frame.perform { f with position := f.position + 1 } i X.store).2.2.scopes := by
  obtain ⟨m, state⟩ := X
  obtain ⟨s, g, rfl, hframes, hfetch⟩ := h
  obtain ⟨-, rfl⟩ := Frame.fetch?_eq_some_iff.mp hfetch
  refine (scopes_execute a s).trans ?_
  simp only [Activation.execute, hframes, hfetch]
  exact Activation.scopes_perform _ _ _ _ _

theorem scopes_step (host : Host σ) (thread : Id .thread) (X : Config σ goal) :
    X.Rescopes (X.step host thread).store.scopes := by
  obtain ⟨m, state⟩ := X
  cases state with
  | running p s => exact scopes_runProgram p s
  | calling f site s => exact .same (scopes_beginCall f site s)
  | counting a s => exact .same (scopes_count a s)
  | executing a s =>
    cases hframes : a.frames with
    | nil =>
      refine .same ((scopes_execute a s).trans ?_)
      rw [Activation.execute, hframes]
    | cons f callers =>
      cases hfetch : f.fetch? with
      | none =>
        refine .same ((scopes_execute a s).trans ?_)
        simp only [Activation.execute, hframes, hfetch]
      | some next =>
        have habout : IsAbout ⟨m, .executing a s⟩ a f callers next.1 :=
          ⟨s, next.2, rfl, hframes, hfetch⟩
        exact .performed a f callers next.1 habout habout.scopes_step
  | returning x s =>
    cases s with
    | nil => exact .same rfl
    | cons t s => exact .same (scopes_take t x s)
  | panicking s =>
    cases s with
    | nil => exact .same rfl
    | cons t s => exact .same (scopes_passPanic t s)
  | crashed => exact .same rfl

end Config

end ScriptMachine
