import ScriptMachine.Proofs.Capture.Gates

/-!
# What an activation offers to a continuation

Instructions never raise a continuation, so an activation is left with one only because a host
function has just answered it with one. `Config.Houses` follows an activation on its own, whatever
runs above it; `Config.Offers` is the moment of the answer, beneath which the rest of the stack
stands as it stood when the activation began.
-/

namespace ScriptMachine

variable {σ : Type} {α β goal : Kind}

/-- What a continuation is once it was offered frames: it takes them unless it holds or held
some. -/
def CaptureState.offered (frames : List Frame) (state : CaptureState) : CaptureState :=
  if state.isCaptured then state else .captured frames

/-- Code that the interpreter runs. -/
def Callable.IsInterpreted : Callable → Prop
  | .executable _ | .continuation _ _ => True
  | .hostFunction _ | .resumption _ _ _ => False

/-! ## Instructions -/

namespace Activation

variable (a : Activation) (m : Store σ) (p : Pending)

theorem throw_ne_suspended (v : Value) : a.throw v ≠ .leave (.error (.suspended p)) := by
  unfold throw
  split <;> nofun

theorem complete_ne_suspended (callers : List Frame) (v : Value) :
    a.complete callers v ≠ .leave (.error (.suspended p)) := by
  cases callers <;> nofun

theorem returnValue_ne_suspended (v : Value) :
    a.returnValue v ≠ .leave (.error (.suspended p)) := by
  unfold returnValue
  split
  · nofun
  · split
    · nofun
    · exact complete_ne_suspended _ _ _ _

theorem deliver_ne_suspended (v : Value) : a.deliver v ≠ .leave (.error (.suspended p)) := by
  unfold deliver
  split <;> nofun

theorem eq_suspended_of_fail {e : Abrupt}
    (h : (a.fail e m).1 = .leave (.error (.suspended p))) : e = .suspended p := by
  cases e with
  | thrown v => exact absurd h (throw_ne_suspended _ _ _)
  | suspended q =>
    simp only [fail, capture] at h
    split at h
    · cases h
    · split at h
      · cases h
      · cases h
        rfl
  | aborted | fault => cases h

/-- No instruction leaves an activation with a continuation. -/
theorem execute_ne_suspended : (a.execute m).1 ≠ .flow (.leave (.error (.suspended p))) := by
  have hflow {x y : Flow} (h : x ≠ y) : Move.flow x ≠ .flow y := fun h' => h (Move.flow.inj h')
  have hfail {b : Activation} {m : Store σ} {e : Abrupt} (he : ∀ p, e ≠ .suspended p) :
      (failed (b.fail e m)).1 ≠ .flow (.leave (.error (.suspended p))) :=
    hflow fun h => he p (eq_suspended_of_fail _ _ _ h)
  have hcall (f : Frame) (callers : List Frame) (count : Nat) :
      (a.call f callers count m).1 ≠ .flow (.leave (.error (.suspended p))) := by
    simp only [call]
    split
    · split
      · rintro ⟨⟩
      · split <;> rintro ⟨⟩
    · rintro ⟨⟩
    · exact hfail (typeError_ne_suspended _)
  unfold execute
  split
  · rintro ⟨⟩
  · split
    · exact hflow (complete_ne_suspended _ _ _ _)
    · unfold perform
      split
      · exact hcall _ _ _
      · exact hflow (returnValue_ne_suspended _ _ _)
      · dsimp only
        split
        · exact hfail (typeError_ne_suspended _)
        · rintro ⟨⟩
      · dsimp only
        split
        · rintro ⟨⟩
        · exact hflow (throw_ne_suspended _ _ _)
        · exact hflow (returnValue_ne_suspended _ _ _)
      · exact hflow (throw_ne_suspended _ _ _)
      · split
        · rintro ⟨⟩
        · next hr => exact hfail (Frame.perform_ne_suspended hr)

end Activation

namespace Config

variable (host : Host σ) (thread : Id .thread)

/-- An activation that is left with a continuation runs no generator, is alone on its context,
and has offered its frames. -/
theorem offered_of_follow {b : Activation} {m m' : Store σ} {p : Pending} {s : Stack σ .exit goal}
    (h : follow (b.fail (.suspended p) m).2 b.context (b.fail (.suspended p) m).1 s =
      give m' .exit (.error (.suspended p)) s) :
    b.isGenerator = false ∧ (m.context b.context).depth ≤ 1 ∧
      ∀ state, m.continuations.get? p.continuation = some state →
        m'.continuations.get? p.continuation = some (state.offered b.frames) := by
  simp only [Activation.fail, Activation.capture] at h
  by_cases hgenerator : b.isGenerator = true
  · rw [if_pos hgenerator] at h
    cases h
  by_cases hmany : 1 < (m.context b.context).depth
  · rw [if_neg hgenerator, if_pos hmany] at h
    cases h
  rw [if_neg hgenerator, if_neg hmany] at h
  refine ⟨Bool.eq_false_iff.mpr hgenerator, Nat.le_of_not_lt hmany, ?_⟩
  intro state hstate
  have hget : m.continuations.get p.continuation = state := by rw [Table.get, hstate]; rfl
  cases h
  rw [hget, CaptureState.offered]
  by_cases hcaptured : state.isCaptured = true
  · rw [if_pos hcaptured, if_pos hcaptured]
    exact hstate
  · rw [if_neg hcaptured, if_neg hcaptured]
    exact (get?_set hstate).trans (if_pos rfl)

/-! ## An activation on its own -/

/-- An activation is under way and nothing else, apart from what it waits for. -/
inductive Houses (c : Id .context) (isGenerator : Bool) : Config σ .exit → Prop
  | counting {m : Store σ} {a : Activation} (hc : a.context = c) (hg : a.isGenerator = isGenerator) :
      Houses c isGenerator ⟨m, .counting a .nil⟩
  | executing {m : Store σ} {a : Activation} (hc : a.context = c)
      (hg : a.isGenerator = isGenerator) : Houses c isGenerator ⟨m, .executing a .nil⟩
  | called {a : Activation} (hc : a.context = c) (hg : a.isGenerator = isGenerator)
      (Y : Config σ .completion) : Houses c isGenerator (Y.onto (.cons (.called a) .nil))
  | observed {a : Activation} (hc : a.context = c) (hg : a.isGenerator = isGenerator)
      (Y : Config σ .verdict) : Houses c isGenerator (Y.onto (.cons (.observed a) .nil))
  | ended {X : Config σ .exit} (h : X.ending?.isSome) : Houses c isGenerator X

/-- A host function has answered an activation with a continuation. -/
def IsAnswered (c : Id .context) (isGenerator : Bool) (p : Pending) (s : Stack σ .exit goal)
    (X : Config σ goal) : Prop :=
  ∃ (m : Store σ) (b : Activation), b.context = c ∧ b.isGenerator = isGenerator ∧
    X = give m .completion (.error (.suspended p)) (.cons (.called b) s)

variable {c : Id .context} {isGenerator : Bool} {p : Pending}

theorem houses_follow {a : Activation} (hc : a.context = c) (hg : a.isGenerator = isGenerator)
    {flow : Flow} (hflow : flow.Continues a) (m : Store σ) :
    (follow m c flow .nil : Config σ .exit).Houses c isGenerator := by
  cases flow with
  | next b => exact .counting (hflow.context.trans hc) (hflow.isGenerator.trans hg)
  | leave e => exact .ended rfl

theorem leave_of_follow {m m' : Store σ} {flow : Flow} {e : Except Abrupt Exit}
    {s : Stack σ .exit goal} (h : follow m c flow s = give m' .exit e s) : flow = .leave e := by
  cases flow with
  | next a => cases h
  | leave e' => cases h; rfl

/-- A step of an activation, and the only one that leaves it with a continuation. -/
theorem Houses.step {X : Config σ .exit} (hX : X.Houses c isGenerator) :
    (X.step host thread).Houses c isGenerator ∧
      ∀ m', X.step host thread = give m' .exit (.error (.suspended p)) .nil →
        X.ending? = none → X.IsAnswered c isGenerator p .nil := by
  cases hX with
  | @counting m a hc hg =>
    simp only [Config.step, count]
    split
    · exact ⟨.observed hc hg ⟨_, .running _ .nil⟩, fun m' h => by cases h⟩
    · exact ⟨.executing hc hg, fun m' h => by cases h⟩
  | @executing m a hc hg =>
    have hgoes := a.execute_continues m
    have hleft := a.execute_ne_suspended m p
    simp only [Config.step, execute]
    split
    · next flow m₁ heq =>
      rw [heq] at hgoes hleft
      rw [hc]
      refine ⟨houses_follow hc hg hgoes m₁, ?_⟩
      intro m' h
      exact absurd (congrArg Move.flow (leave_of_follow h)) hleft
    · next b f site m₁ heq =>
      rw [heq] at hgoes
      exact ⟨.called (hgoes.1.context.trans hc) (hgoes.1.isGenerator.trans hg)
        ⟨_, .calling _ _ .nil⟩, fun m' h => by cases h⟩
  | @called a hc hg Y =>
    cases hY : Y.ending? with
    | none =>
      rw [step_onto host thread _ hY]
      exact ⟨.called hc hg _, fun m' h => absurd h (onto_cons_ne_give _ _ _ _ _)⟩
    | some y =>
      rcases ending_cases hY with ⟨m₁, r, rfl⟩ | ⟨m₁, rfl⟩ | ⟨m₁, rfl⟩
      · subst hc
        cases r with
        | ok v =>
          refine ⟨houses_follow rfl hg (a.deliver_continues v) m₁, ?_⟩
          intro m' h
          exact absurd (leave_of_follow h) (a.deliver_ne_suspended p v)
        | error e =>
          refine ⟨houses_follow rfl hg (a.fail_continues m₁ e) _, ?_⟩
          intro m' h _
          obtain rfl := a.eq_suspended_of_fail m₁ p (leave_of_follow h)
          exact ⟨m₁, a, rfl, hg, rfl⟩
      · exact ⟨.ended rfl, fun m' h => by cases h⟩
      · exact ⟨.ended rfl, fun m' h => by cases h⟩
  | @observed a hc hg Y =>
    cases hY : Y.ending? with
    | none =>
      rw [step_onto host thread _ hY]
      exact ⟨.observed hc hg _, fun m' h => absurd h (onto_cons_ne_give _ _ _ _ _)⟩
    | some y =>
      rcases ending_cases hY with ⟨m₁, r, rfl⟩ | ⟨m₁, rfl⟩ | ⟨m₁, rfl⟩
      · cases r with
        | ok u => exact ⟨.executing hc hg, fun m' h => by cases h⟩
        | error reason => exact ⟨.ended rfl, fun m' h => by cases h⟩
      · exact ⟨.ended rfl, fun m' h => by cases h⟩
      · exact ⟨.ended rfl, fun m' h => by cases h⟩
  | ended h =>
    obtain ⟨x, hx⟩ := Option.isSome_iff_exists.mp h
    rw [step_of_ending host thread hx]
    refine ⟨.ended h, ?_⟩
    intro m' _ hnone
    rw [hx] at hnone
    cases hnone

variable {host thread} in
/-- An activation that comes to be left with a continuation was answered with it just before. -/
theorem Houses.exists_isAnswered {X : Config σ .exit} (hX : X.Houses c isGenerator)
    (hopen : X.ending? = none) {n : Nat} {m' : Store σ}
    (h : X.run host thread n = give m' .exit (.error (.suspended p)) .nil) :
    ∃ j, (X.run host thread j).IsAnswered c isGenerator p .nil ∧
      X.run host thread (j + 1) = give m' .exit (.error (.suspended p)) .nil := by
  induction n generalizing X with
  | zero =>
    rw [run] at h
    rw [h] at hopen
    cases hopen
  | succ n ih =>
    obtain ⟨hnext, hanswered⟩ := hX.step host thread (p := p)
    rw [run] at h
    cases hend : (X.step host thread).ending? with
    | none =>
      obtain ⟨j, hj, hleft⟩ := ih hnext hend h
      exact ⟨j + 1, hj, hleft⟩
    | some x =>
      rw [run_of_ending host thread hend] at h
      exact ⟨0, hanswered m' h hopen, h⟩

/-! ## The answer beneath which a run stands -/

/-- A run comes to where a host function answers an activation on a context with a continuation.
The activation stands on a given stack, runs no generator and is alone on its context; in the
store that the run leaves, its frames were offered to the continuation. -/
def Offers (c : Id .context) (p : Pending) (s : Stack σ .exit goal) (m' : Store σ)
    (X : Config σ goal) : Prop :=
  ∃ (j : Nat) (m : Store σ) (b : Activation),
    X.run host thread j = give m .completion (.error (.suspended p)) (.cons (.called b) s) ∧
    b.context = c ∧ b.isGenerator = false ∧ (m.context c).depth ≤ 1 ∧
    ∀ state, m.continuations.get? p.continuation = some state →
      m'.continuations.get? p.continuation = some (state.offered b.frames)

variable {host thread} {m m' : Store σ}

theorem Offers.of_run {X Y : Config σ goal} {s : Stack σ .exit goal} {i : Nat}
    (hrun : X.run host thread i = Y) (h : Y.Offers host thread c p s m') :
    X.Offers host thread c p s m' := by
  obtain ⟨j, m, b, hj, hrest⟩ := h
  refine ⟨i + j, m, b, ?_, hrest⟩
  rw [run_add, hrun, hj]

theorem Offers.onto {X : Config σ α} {s : Stack σ .exit α} (h : X.Offers host thread c p s m')
    (r : Stack σ α goal) : (X.onto r).Offers host thread c p (s.append r) m' := by
  obtain ⟨j, m, b, hj, hrest⟩ := h
  obtain ⟨i, -, hi⟩ := exists_run_onto host thread X r j
  refine ⟨i, m, b, ?_, hrest⟩
  rw [hi, hj]
  rfl

theorem Offers.of_kept {X : Config σ goal} {s : Stack σ .exit goal} {m₁ : Store σ}
    (h : X.Offers host thread c p s m₁)
    (hkept : ∀ state, m₁.continuations.get? p.continuation = some state →
      m'.continuations.get? p.continuation = some state) : X.Offers host thread c p s m' := by
  obtain ⟨j, m, b, hj, hc, hg, hdepth, hoffered⟩ := h
  exact ⟨j, m, b, hj, hc, hg, hdepth, fun state hstate => hkept _ (hoffered state hstate)⟩

theorem offers_beginActivation {frames : List Frame} {n : Nat}
    (h : (beginActivation m c frames false .nil).run host thread n =
      give m' .exit (.error (.suspended p)) .nil) :
    (beginActivation m c frames false .nil).Offers host thread c p .nil m' := by
  have hhouses : (beginActivation m c frames false .nil : Config σ .exit).Houses c false :=
    .counting rfl rfl
  obtain ⟨j, ⟨m₁, b, hc, hg, hj⟩, hleft⟩ := hhouses.exists_isAnswered rfl h
  rw [run_add, run_one, hj] at hleft
  subst hc
  obtain ⟨-, hdepth, hoffered⟩ := offered_of_follow hleft
  exact ⟨j, m₁, b, hj, rfl, hg, hdepth, hoffered⟩

/-- The end of an activation is the end of its call. -/
theorem offers_callEnd {frames : List Frame} {n : Nat}
    (h : (beginActivation m c frames false (.cons .callEnd .nil)).run host thread n =
      give m' .completion (.error (.suspended p)) .nil) :
    (beginActivation m c frames false (.cons .callEnd .nil)).Offers host thread c p
      (.cons .callEnd .nil) m' := by
  have honto : beginActivation m c frames false (.cons .callEnd .nil) =
      (beginActivation m c frames false .nil).onto (.cons (Task.callEnd : Task σ .exit .completion) .nil) := rfl
  rw [honto] at h ⊢
  have hpasses : (Stack.cons (Task.callEnd : Task σ .exit .completion) .nil).IsOpen := ⟨trivial, trivial⟩
  obtain ⟨k, m₁, x, -, hk, -, hrest⟩ := exists_result_of_onto hpasses h
  have hstep : (give m₁ .exit x (.cons .callEnd .nil)).run host thread 1 =
      give m₁ .completion (Exit.outcome x) .nil := by
    cases x with
    | ok e => cases e <;> rfl
    | error e => rfl
  obtain ⟨rfl, hx⟩ := eq_of_run_give hstep hrest
  obtain rfl : x = .error (.suspended p) := by
    cases x with
    | ok e => cases e <;> cases hx
    | error e => cases hx; rfl
  exact (offers_beginActivation hk).onto _

/-- Interpreted code that is called within a top call. -/
theorem offers_calling {f : Callable} (hf : f.IsInterpreted) {site : CallSite}
    (htop : (m.context site.context).topCall.isSome) {n : Nat}
    (h : (⟨m, .calling f site .nil⟩ : Config σ .completion).run host thread n =
      give m' .completion (.error (.suspended p)) .nil) :
    (⟨m, .calling f site .nil⟩ : Config σ .completion).Offers host thread site.context p
      (.cons .callEnd .nil) m' := by
  have hnext := run_step_of_give h
  refine .of_run (run_one host thread _) ?_
  cases f with
  | executable e =>
    simp only [step, beginCall, htop, if_true, interpret] at hnext ⊢
    split
    · next hgen =>
      simp only [hgen, if_true, run_give_nil] at hnext
      cases hnext
    · next hgen =>
      rw [if_neg hgen] at hnext
      exact offers_callEnd hnext
  | continuation k v =>
    simp only [step, beginCall, beginContinuation] at hnext ⊢
    cases htake : m.takeFrames k with
    | error cause =>
      simp only [htake, run_give_nil] at hnext
      cases hnext
    | ok taken =>
      obtain ⟨frames, m₁⟩ := taken
      cases frames with
      | nil =>
        simp only [htake, run_give_nil] at hnext
        cases hnext
      | cons frame callers =>
        simp only [htake] at hnext ⊢
        exact offers_callEnd hnext
  | hostFunction | resumption => exact absurd hf id

end Config

end ScriptMachine
