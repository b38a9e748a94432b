import Mathlib.Logic.Relation
import ScriptMachine.Proofs.Capture.Gates
import ScriptMachine.Proofs.Threads.System

/-!
# A continuation runs at most once

Threads may ask for continuations, resume them and run whatever they like, in any order. A
continuation only goes forward, from pending to captured to resumed: `CaptureState.Advances` lists
the moves, and no schedule makes others. Since its frames come to run in the very step that makes
it resumed, they come to run at most once. An attempt that comes too early, too late or at the
wrong time is refused and changes nothing.
-/

namespace ScriptMachine

variable {σ : Type} {goal : Kind}

/-- A continuation is asked for, takes frames or gives them away. -/
inductive CaptureState.Advances : Option CaptureState → Option CaptureState → Prop
  | requested : Advances none (some .pending)
  | captured (frames : List Frame) : Advances (some .pending) (some (.captured frames))
  | resumed (frames : List Frame) : Advances (some (.captured frames)) (some .resumed)

/-- There is nothing after the end. -/
theorem CaptureState.eq_of_resumed {after : Option CaptureState}
    (h : Relation.ReflTransGen Advances (some .resumed) after) : after = some .resumed := by
  induction h with
  | refl => rfl
  | tail _ hlast ih =>
    subst ih
    cases hlast

namespace Config

variable (host : Host σ) (thread : Id .thread)

/-- A step moves a continuation forward once, if at all. -/
theorem advances_step (k : Id .continuation) (X : Config σ goal) :
    Relation.ReflTransGen CaptureState.Advances (X.store.continuations.get? k)
      ((X.step host thread).store.continuations.get? k) := by
  have hmove := step_handles host thread k X
  generalize X.store.continuations.get? k = before at hmove
  generalize (X.step host thread).store.continuations.get? k = after at hmove
  cases hmove with
  | stays => exact .refl
  | requested => exact .single .requested
  | captured => exact .single (.captured _)
  | resumed frames => exact .single (.resumed frames)

/-- The continuation whose frames come to run in the next step. -/
def reruns? (X : Config σ goal) : Option (Id .continuation) :=
  match X.state with
  | .calling (.continuation k _) _ _ =>
    match X.store.continuations.get k with
    | .captured (_ :: _) => some k
    | _ => none
  | _ => none

/-- An activation begins with the frames that the continuation held, and the continuation has
given them away. -/
theorem step_of_reruns {X : Config σ goal} {k : Id .continuation} (h : X.reruns? = some k) :
    ∃ (frame : Frame) (callers : List Frame) (v : Value) (site : CallSite)
      (s : Stack σ .completion goal) (m : Store σ),
      X.state = .calling (.continuation k v) site s ∧
      X.store.continuations.get? k = some (.captured (frame :: callers)) ∧
      m.continuations.get? k = some .resumed ∧
      X.step host thread =
        beginActivation m site.context (frame.push v :: callers) false (.cons .callEnd s) := by
  obtain ⟨m, state⟩ := X
  cases state with
  | calling f site s =>
    cases f with
    | continuation k' v =>
      simp only [reruns?] at h
      split at h
      · next frame callers hget =>
        cases h
        have hknown := CaptureState.get?_of_get hget nofun
        refine ⟨frame, callers, v, site, s,
          { m with continuations := m.continuations.set k .resumed }, rfl, hknown, ?_, ?_⟩
        · exact (get?_set hknown).trans (if_pos rfl)
        · simp only [step, beginCall, beginContinuation, Store.takeFrames, hget]
      · cases h
    | executable | hostFunction | resumption => cases h
  | running | counting | executing | returning | panicking | crashed => cases h

/-- An attempt to run frames that a continuation does not hold is refused. -/
theorem beginContinuation_of_not_captured {m : Store σ} {k : Id .continuation}
    (h : ∀ frames, m.continuations.get? k ≠ some (.captured frames)) (v : Value)
    (c : Id .context) (s : Stack σ .completion goal) :
    ∃ cause, beginContinuation m k v c s = failCall m (.illegalState cause) s := by
  cases hget : m.continuations.get k with
  | captured frames => exact absurd (CaptureState.get?_of_get hget fun h => by cases h) (h frames)
  | pending => exact ⟨.neverCaptured, by simp only [beginContinuation, Store.takeFrames, hget]⟩
  | resumed => exact ⟨.alreadyResumed, by simp only [beginContinuation, Store.takeFrames, hget]⟩

/-- An attempt to resume a continuation within a top call, or one that holds no frames, is
refused. -/
theorem beginAction_resume_refused {m : Store σ} {k : Id .continuation} {c : Id .context}
    (h : (m.context c).topCall.isSome ∨
      ∀ frames, m.continuations.get? k ≠ some (.captured frames))
    (scope : Id .scope) (v : Value) (s : Stack σ .completion goal) :
    ∃ cause, beginAction host thread m (.resume k c scope v) s =
      failCall m (.illegalState cause) s := by
  by_cases htop : (m.context c).topCall.isSome
  · exact ⟨.resumeDuringTopCall, by simp only [beginAction, htop, if_true]⟩
  · have hresumable : (m.continuations.get k).isResumable = false := by
      cases hget : m.continuations.get k with
      | captured frames =>
        exact absurd (CaptureState.get?_of_get hget fun h => by cases h) (h.resolve_left htop frames)
      | pending | resumed => rfl
    refine ⟨.notResumable, ?_⟩
    simp only [beginAction, htop, hresumable, Bool.not_false, if_true, if_false,
      Bool.false_eq_true]

end Config

namespace System

variable (host : Host σ)

/-- The continuation whose frames come to run by an event. -/
def reruns? (S : System σ) : Event σ → Option (Id .continuation)
  | .begins _ _ => none
  | .steps thread => (S.jobs thread).bind fun job => Config.reruns? ⟨S.store, job.state⟩

/-- How often the frames of a continuation come to run. -/
def reruns (k : Id .continuation) : System σ → List (Event σ) → Nat
  | _, [] => 0
  | S, e :: events =>
    (if S.reruns? e = some k then 1 else 0) + reruns k (S.play host e) events

variable {k : Id .continuation}

/-- An event moves a continuation forward once, if at all. -/
theorem advances_play (k : Id .continuation) (S : System σ) (e : Event σ) :
    Relation.ReflTransGen CaptureState.Advances (S.store.continuations.get? k)
      ((S.play host e).store.continuations.get? k) := by
  rcases S.play_cases host e with hstore | ⟨thread, job, -, -, hstore⟩
  · rw [hstore]
  · rw [hstore]
    exact Config.advances_step host thread k ⟨S.store, job.state⟩

theorem advances_run (k : Id .continuation) (S : System σ) (events : List (Event σ)) :
    Relation.ReflTransGen CaptureState.Advances (S.store.continuations.get? k)
      ((S.run host events).store.continuations.get? k) := by
  induction events generalizing S with
  | nil => exact .refl
  | cons e events ih => exact (advances_play host k S e).trans (ih (S.play host e))

/-- Frames that come to run are given away by the same event, and the continuation held them
before. -/
theorem resumed_of_reruns {S : System σ} {e : Event σ} (h : S.reruns? e = some k) :
    (∃ frames, S.store.continuations.get? k = some (.captured frames)) ∧
      (S.play host e).store.continuations.get? k = some .resumed := by
  cases e with
  | begins thread p => cases h
  | steps thread =>
    obtain ⟨job, hjob, hreruns⟩ := Option.bind_eq_some_iff.mp h
    obtain ⟨frame, callers, v, site, s, m, -, hget, hm, hstep⟩ :=
      Config.step_of_reruns host thread hreruns
    refine ⟨⟨_, hget⟩, ?_⟩
    rw [play_steps host hjob, hstep]
    exact hm

/-- A continuation that was resumed never runs again. -/
theorem reruns_eq_zero {S : System σ} (h : S.store.continuations.get? k = some .resumed)
    (events : List (Event σ)) : S.reruns host k events = 0 := by
  induction events generalizing S with
  | nil => rfl
  | cons e events ih =>
    have hnot : S.reruns? e ≠ some k := by
      intro hreruns
      obtain ⟨⟨frames, hframes⟩, -⟩ := resumed_of_reruns host hreruns
      rw [h] at hframes
      cases hframes
    have hnext : (S.play host e).store.continuations.get? k = some .resumed := by
      have hadvances := advances_play host k S e
      rw [h] at hadvances
      exact CaptureState.eq_of_resumed hadvances
    rw [reruns, if_neg hnot, ih hnext]

theorem reruns_le_one (k : Id .continuation) (S : System σ) (events : List (Event σ)) :
    S.reruns host k events ≤ 1 := by
  induction events generalizing S with
  | nil => exact Nat.zero_le 1
  | cons e events ih =>
    rw [reruns]
    split
    · next hreruns =>
      have hrest := reruns_eq_zero host (resumed_of_reruns host hreruns).2 events
      exact Nat.le_of_eq (congrArg (1 + ·) hrest)
    · rw [Nat.zero_add]
      exact ih (S.play host e)

/-- Take any threads on any store, and any schedule of what they begin and of their steps.

A continuation goes from pending to captured to resumed and in no other way, and its frames come
to run at most once in the whole history. At every moment of it, an attempt to resume a
continuation that holds no frames, or to resume one on a context with a top call, is refused with
an illegal state and leaves the store as it is, with every continuation and every context; so is
an attempt that passed this check and finds, when it comes to take the frames, that they are
gone. -/
theorem continuation_runs_once (k : Id .continuation) (S₀ : System σ) (events : List (Event σ))
    {S : System σ} (hS : S₀.run host events = S) :
    Relation.ReflTransGen CaptureState.Advances (S₀.store.continuations.get? k)
      (S.store.continuations.get? k) ∧
    S₀.reruns host k events ≤ 1 ∧
    (∀ (thread : Id .thread) (goal κ : Kind) (c : Id .context) (scope : Id .scope) (v : Value)
      (next : Outcome → Program σ κ) (s : Stack σ κ goal),
      S.jobs thread = some ⟨.running (.act (.resume k c scope v) next) s⟩ →
      (S.store.context c).topCall.isSome ∨
        (∀ frames, S.store.continuations.get? k ≠ some (.captured frames)) →
      ∃ cause, S.play host (.steps thread) = S.put thread S.store
        (.returning (κ := .completion) (.error (.illegalState cause)) (.cons (.program next) s))) ∧
    ∀ (thread : Id .thread) (goal : Kind) (v : Value) (site : CallSite)
      (s : Stack σ .completion goal),
      S.jobs thread = some ⟨.calling (.continuation k v) site s⟩ →
      (∀ frames, S.store.continuations.get? k ≠ some (.captured frames)) →
      ∃ cause, S.play host (.steps thread) = S.put thread S.store
        (.returning (κ := .completion) (.error (.illegalState cause)) s) := by
  subst hS
  refine ⟨advances_run host k S₀ events, reruns_le_one host k S₀ events, ?_, ?_⟩
  · intro thread goal κ c scope v next s hjob hrefused
    obtain ⟨cause, hstep⟩ := Config.beginAction_resume_refused host thread hrefused scope v
      (.cons (.program next) s)
    refine ⟨cause, ?_⟩
    have hsteps := play_steps host hjob
    simp only [Config.step, Config.runProgram] at hsteps
    rw [hsteps, hstep]
  · intro thread goal v site s hjob hgone
    obtain ⟨cause, hstep⟩ := Config.beginContinuation_of_not_captured hgone v site.context s
    refine ⟨cause, ?_⟩
    have hsteps := play_steps host hjob
    simp only [Config.step, Config.beginCall] at hsteps
    rw [hsteps, hstep]

/-! ## Two threads that resume the same continuation -/

/-- Two idle contexts, and a continuation that holds a frame. -/
def contestedStore : Store Unit :=
  { Store.initial () with
    contexts := ⟨#[{ factory := ⟨0⟩ }, { factory := ⟨0⟩ }]⟩
    continuations := ⟨#[.captured [Config.frameAt 3 []]]⟩ }

/-- Resume the continuation on a context. -/
def resumeOn (c : Id .context) : Program Unit .completion :=
  .act (.resume ⟨0⟩ c ⟨0⟩ (.bool true)) (.finish (κ := .completion))

/-- Both threads find the continuation captured, and the first one takes its frames. -/
def contest : List (Event Unit) :=
  [.begins ⟨0⟩ (resumeOn ⟨0⟩), .begins ⟨1⟩ (resumeOn ⟨1⟩), .steps ⟨0⟩, .steps ⟨1⟩, .steps ⟨0⟩]

/-- What is under way beneath a thread's attempt. -/
def beneathAttempt (c : Id .context) : Stack Unit .completion .completion :=
  .cons .flattenResult (.cons (.clearTopCall c) (.cons (.restoreCaptures c false)
    (.cons (.program (.finish (κ := .completion))) .nil)))

/-- The second thread comes too late: the frames have come to run once, and its attempt is refused
and leaves the store alone. -/
theorem refused_contest :
    (idle contestedStore).reruns Config.capturingHost ⟨0⟩ contest = 1 ∧
      ∃ cause, ((idle contestedStore).run Config.capturingHost contest).play Config.capturingHost
          (.steps ⟨1⟩) =
        ((idle contestedStore).run Config.capturingHost contest).put ⟨1⟩
          ((idle contestedStore).run Config.capturingHost contest).store
          (.returning (κ := .completion) (.error (.illegalState cause)) (beneathAttempt ⟨1⟩)) := by
  obtain ⟨-, hatmost, -, hgone⟩ :=
    continuation_runs_once Config.capturingHost ⟨0⟩ (idle contestedStore) contest rfl
  refine ⟨?_, ?_⟩
  · refine Nat.le_antisymm hatmost ?_
    decide
  · refine hgone ⟨1⟩ .completion (.bool true)
      ⟨⟨1⟩, ⟨0⟩, .object ⟨0⟩, []⟩ (beneathAttempt ⟨1⟩) rfl ?_
    intro frames
    have hresumed : ((idle contestedStore).run Config.capturingHost contest).store.continuations.get?
        ⟨0⟩ = some .resumed := rfl
    rw [hresumed]
    nofun

end System

end ScriptMachine
