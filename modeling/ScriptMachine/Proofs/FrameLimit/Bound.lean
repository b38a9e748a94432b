import ScriptMachine.Proofs.Forwarding.Agreement
import ScriptMachine.Proofs.FrameLimit.Seats
import ScriptMachine.Proofs.Machine.Settings
import ScriptMachine.Proofs.Unwinding.Uncatchable

/-!
# The frames of an activation

An activation has the limit that its context has when it begins. It begins with one frame, and
takes another only below the limit, so it never has more frames than the limit
(`Config.frames_le_limit`). The one exception is a continuation that is resumed where fewer frames
are allowed than it holds: its frames are all taken back at once, and nobody counts them
(`Config.restored_over_limit`). A call for which there is no room ends the activation with a fault
that no handler of a script is given.
-/

namespace ScriptMachine

variable {σ : Type} {goal : Kind}

/-! ## Every context allows a frame -/

namespace Store

variable {m m' : Store σ}

/-- Every context allows at least one frame. -/
def Limited (m : Store σ) : Prop := ∀ c, 1 ≤ (m.context c).frameLimit

theorem limited_initial (host : σ) : (Store.initial host).Limited := by
  intro c
  have hnone : ¬ (Store.initial host).Knows c := by simp [Knows, initial, Table.get?]
  rw [context_of_not_knows hnone]
  decide

theorem Limited.of_steady (h : m.Limited) (hm : m.Steady m') : m'.Limited := by
  intro c
  by_cases hc : m.Knows c
  · rw [Context.frameLimit_of_settings (hm.kept c hc).2]
    exact h c
  · exact hm.made c hc

theorem Limited.modifyContext (h : m.Limited) (c : Id .context) {f : Context → Context}
    (hf : 1 ≤ (f (m.context c)).frameLimit) : (m.modifyContext c f).Limited := by
  intro other
  by_cases hc : other = c
  · subst hc
    by_cases hknown : m.Knows other
    · rw [context_modifyContext hknown]
      exact hf
    · rw [context_of_not_knows]
      · decide
      · simp only [Knows, Store.modifyContext, Table.get?_modify, if_true, Option.isSome_map]
        exact hknown
  · rw [context_modifyContext_of_ne hc]
    exact h other

theorem Limited.contextQuery (h : m.Limited) (host : Host σ) (thread : Id .thread)
    (q : ContextQuery) : (q.perform host thread m).2.Limited := by
  cases q with
  | create f => exact h.of_steady (.newContext m f)
  | setFrameLimit c limit => exact h.modifyContext c (Nat.le_max_right _ _)
  | setController c controller =>
    simp only [ContextQuery.perform]
    split
    · exact h
    · exact h.modifyContext c (h c)
  | requestCapture c =>
    simp only [ContextQuery.perform]
    split
    · next hrequest =>
      obtain ⟨continuations, rfl⟩ := requestCapture_frame hrequest
      exact h
    · exact h
  | state | current | hasFeature => exact h
  | setVersion c | setThreshold c | setCountsGenerated c | setExtension c =>
    exact h.modifyContext c (h c)

end Store

theorem Context.frameLimit_countInstruction (cx : Context) :
    cx.countInstruction.2.frameLimit = cx.frameLimit := by
  unfold countInstruction
  dsimp only
  split
  · rfl
  · split <;> rfl

namespace Config

variable {host : Host σ} {thread : Id .thread}

theorem limited_step {X : Config σ goal} (h : X.store.Limited) :
    (X.step host thread).store.Limited := by
  cases hcounting : X.state.counting? with
  | some a =>
    obtain ⟨m, state⟩ := X
    dsimp only at hcounting h ⊢
    unfold State.counting? at hcounting
    split at hcounting <;> cases hcounting
    have hm : (m.modifyContext a.context
        fun _ => (m.context a.context).countInstruction.2).Limited := by
      refine h.modifyContext a.context ?_
      rw [Context.frameLimit_countInstruction]
      exact h a.context
    simp only [step, count]
    split <;> exact hm
  | none =>
    cases hcontext : X.state.contextQuery? with
    | some q =>
      obtain ⟨m, state⟩ := X
      dsimp only at hcontext h ⊢
      unfold State.contextQuery? at hcontext
      split at hcontext <;> cases hcontext
      exact h.contextQuery host thread q
    | none =>
      cases hfactory : X.state.factoryQuery? with
      | some q =>
        obtain ⟨m, state⟩ := X
        dsimp only at hfactory h ⊢
        unfold State.factoryQuery? at hfactory
        split at hfactory <;> cases hfactory
        exact h
      | none => exact h.of_steady (step_steady host thread hcontext hfactory hcounting)

theorem limited_run {X : Config σ goal} (h : X.store.Limited) (n : Nat) :
    (X.run host thread n).store.Limited := by
  induction n generalizing X with
  | zero => exact h
  | succ n ih => exact ih (limited_step h)

/-! ## The life of an activation -/

/-- An activation of a run began on the way, on the same stack, and has gone on since. -/
theorem exists_begun {X : Config σ goal} (hX : ∀ a s, ¬ X.state.Seats a s) {n : Nat}
    {a : Activation} {s : Stack σ .exit goal} (h : (X.run host thread n).state.Seats a s) :
    ∃ j < n, ∃ b k, Begun (X.run host thread j).store k b s (X.run host thread (j + 1)) ∧
      (k = 1 ∨ ∃ frames, (X.run host thread j).Restores frames ∧ frames.length = k) ∧
      b.GoesOn a := by
  induction n generalizing a with
  | zero => exact absurd h (hX a s)
  | succ n ih =>
    rw [run_succ] at h
    rcases step_seats host thread h with ⟨b, hb, hgo⟩ | ⟨k, hbegun, hk⟩
    · obtain ⟨j, hj, b₀, k, hbegun, hk, hgo₀⟩ := ih hb
      exact ⟨j, Nat.lt_succ_of_lt hj, b₀, k, hbegun, hk, hgo₀.trans hgo⟩
    · exact ⟨n, Nat.lt_succ_self n, a, k, by rw [run_succ]; exact hbegun, hk, .refl a⟩

/-- The activation is about to call an interpreted function. -/
def IsCallingPlainly (X : Config σ goal) (a : Activation) (s : Stack σ .exit goal) : Prop :=
  X.state = .executing a s ∧ ∃ f g callers count callee, a.frames = f :: callers ∧
    f.fetch? = some (.call count, g) ∧
    (g.popMany count.toNat).2.pop.2.pop.1 = .executable callee ∧
    callee.routine.isGenerator = false

/-- A call for which there is no room ends the activation, and where host code returns the errors
it receives, it ends the entry: no handler on the way is looked at. -/
theorem overflow_of_full (host : Host σ) (thread : Id .thread) {X : Config σ goal}
    {a : Activation} {s : Stack σ .exit goal}
    (h : X.IsCallingPlainly a s) (hfull : a.limit ≤ a.frames.length) :
    ∃ m, X.step host thread = give m .exit (.error (.fault (.stackOverflow a.limit))) s ∧
      (s.Passes host thread (· = .fault (.stackOverflow a.limit)) →
        ∃ n m' y, goal.Carries (.fault (.stackOverflow a.limit)) y ∧
          X.run host thread n = give m' goal y .nil) := by
  obtain ⟨m, state⟩ := X
  obtain ⟨rfl, f, g, callers, count, callee, hframes, hfetch, hcallee, hplain⟩ := h
  have hraises : Raises a s (.fault (.stackOverflow a.limit)) ⟨m, .executing a s⟩ :=
    .instruction m (.overflow hframes hfetch hcallee hplain hfull)
  obtain ⟨m₁, e, hbecomes, hstep, -⟩ := hraises.step host thread rfl
  have he : e = .fault (.stackOverflow a.limit) := by
    rcases hbecomes with rfl | ⟨⟨p, hp⟩, -⟩
    · rfl
    · cases hp
  subst he
  refine ⟨m₁, hstep, fun hs => ?_⟩
  obtain ⟨n, m', y, e', rfl, hy, hrun, -⟩ := exists_passage host thread
    (E := (· = .fault (.stackOverflow a.limit))) (fun e he => he ▸ rfl)
    (fun e e' he h => by
      subst he
      rcases h with rfl | ⟨⟨p, hp⟩, -⟩
      · rfl
      · cases hp)
    hs (m := m₁) rfl (x := .error (.fault (.stackOverflow a.limit))) rfl
  refine ⟨n + 1, m', y, hy, ?_⟩
  rw [run, hstep, hrun]

/-- At every moment an activation, whether it runs or waits, has the limit that its context had
when it began, on the stack on which it began. It has no more frames than that, unless it began
with those of a continuation that holds more. A call for which it has no room ends it with a
fault that passes every handler. -/
theorem frames_le_limit (host : Host σ) (thread : Id .thread) (state : σ) (p : Program σ goal)
    (n : Nat) {a : Activation} {s : Stack σ .exit goal}
    (h : ((start (.initial state) p).run host thread n).state.Seats a s) :
    (∃ j < n, ∃ b, ((start (.initial state) p).run host thread (j + 1)).state = .counting b s ∧
      b.context = a.context ∧ b.limit = a.limit ∧
      a.limit =
        (((start (.initial state) p).run host thread j).store.context a.context).frameLimit ∧
      (a.frames.length ≤ a.limit ∨ ∃ frames,
        ((start (.initial state) p).run host thread j).Restores frames ∧
          frames.length = b.frames.length ∧ a.limit < frames.length)) ∧
    (((start (.initial state) p).run host thread n).IsCallingPlainly a s →
      a.limit ≤ a.frames.length →
      ∃ m, (start (.initial state) p).run host thread (n + 1) =
          give m .exit (.error (.fault (.stackOverflow a.limit))) s ∧
        (s.Passes host thread (· = .fault (.stackOverflow a.limit)) →
          ∃ k m' y, goal.Carries (.fault (.stackOverflow a.limit)) y ∧
            (start (.initial state) p).run host thread k = give m' goal y .nil)) := by
  constructor
  · obtain ⟨j, hj, b, k, hbegun, hk, hgo⟩ :=
      exists_begun (X := start (.initial state) p) (fun _ _ => id) h
    have hlimit : a.limit =
        (((start (.initial state) p).run host thread j).store.context a.context).frameLimit := by
      rw [hgo.limit, hgo.context, hbegun.limit]
    refine ⟨j, hj, b, hbegun.state, hgo.context.symm, hgo.limit.symm, hlimit, ?_⟩
    have hpositive : 1 ≤ a.limit := by
      rw [hlimit]
      exact limited_run (Store.limited_initial state) j a.context
    have hframes := hgo.frames
    rw [hbegun.frames, ← hgo.limit] at hframes
    rcases hk with rfl | ⟨frames, hrestores, rfl⟩
    · exact .inl (by omega)
    · by_cases hover : a.limit < frames.length
      · exact .inr ⟨frames, hrestores, hbegun.frames.symm, hover⟩
      · exact .inl (by omega)
  · intro hcalling hfull
    obtain ⟨m, hstep, hpasses⟩ := overflow_of_full host thread hcalling hfull
    refine ⟨m, (run_succ host thread _ n).trans hstep, fun hs => ?_⟩
    obtain ⟨k, m', y, hy, hrun⟩ := hpasses hs
    exact ⟨n + k, m', y, hy, (run_add host thread _ n k).trans hrun⟩

/-! ## A call without room -/

/-- A script function that calls another, where only one frame is allowed. -/
def crowded : Program Unit .completion :=
  .ask (.context (.create Store.globalFactory)) fun c =>
    .ask (.context (.setFrameLimit c 1)) fun _ =>
      .act (.call (.executable passArgument) ⟨c, ⟨0⟩, .undefined,
        [.executable callArgument, .hostFunction ⟨⟨0⟩, "f"⟩]⟩) (.finish (κ := .completion))

/-- The activation of the function, about to call. -/
def crowdedActivation : Activation where
  context := ⟨0⟩
  frames := [{
    Frame.enter passArgument ⟨0⟩ .undefined
      [.executable callArgument, .hostFunction ⟨⟨0⟩, "f"⟩] with
    position := 3
    operands := [.hostFunction ⟨⟨0⟩, "f"⟩, .undefined, .executable callArgument] }]
  limit := 1
  isGenerator := false

/-- What is under way beneath it. -/
def beneathCrowded : Stack Unit .exit .completion :=
  .cons .callEnd (.cons .flattenResult (.cons (.clearTopCall ⟨0⟩)
    (.cons (.program (.finish (κ := .completion))) .nil)))

theorem passes_beneathCrowded (E : Abrupt → Prop) :
    beneathCrowded.Passes answeringHost ⟨0⟩ E := by
  have hforwards : ∀ e, E e → (Stack.cons (.program (.finish (κ := .completion))) .nil :
      Stack Unit .completion .completion).Forwards answeringHost ⟨0⟩ e := by
    intro e _ m x hx
    obtain rfl : x = .error e := hx
    exact ⟨2, m, .error e, rfl, rfl⟩
  have hhost : (Stack.cons (.program (.finish (κ := .completion))) .nil :
      Stack Unit .completion .completion).IsHost := And.intro id trivial
  exact .own trivial (.own trivial (.own trivial (.host hhost hforwards .nil)))

/-- The call ends the entry, since the host returns the error. -/
theorem overflow_crowded :
    ((start (.initial ()) crowded).run answeringHost ⟨0⟩ 12).state.Seats crowdedActivation
        beneathCrowded ∧
      ∃ k m, (start (.initial ()) crowded).run answeringHost ⟨0⟩ k =
        give m .completion (.error (.fault (.stackOverflow 1))) .nil := by
  have hstate : ((start (.initial ()) crowded).run answeringHost ⟨0⟩ 12).state =
      .executing crowdedActivation beneathCrowded := rfl
  have hseats : ((start (.initial ()) crowded).run answeringHost ⟨0⟩ 12).state.Seats
      crowdedActivation beneathCrowded := by
    rw [hstate]
    exact Or.inl ⟨rfl, rfl⟩
  have hlimit := frames_le_limit answeringHost ⟨0⟩ () crowded 12 hseats
  obtain ⟨-, hoverflow⟩ := hlimit
  obtain ⟨m, -, hpasses⟩ := hoverflow
    ⟨hstate, _, _, _, 1, callArgument, rfl, rfl, rfl, rfl⟩ (by decide)
  obtain ⟨k, m', y, hy, hrun⟩ := hpasses (passes_beneathCrowded _)
  obtain rfl : y = .error (.fault (.stackOverflow 1)) := hy
  exact ⟨hseats, k, m', hrun⟩

/-! ## A continuation that is too long -/

/-- A script function calls another, which is captured; then the limit is lowered and the two
frames are resumed. -/
def resumedTooLong : Program Unit .completion :=
  .ask (.context (.create Store.globalFactory)) fun c =>
    .act (.callCapturing passArgument c ⟨0⟩ [.executable callArgument, .hostFunction ⟨⟨0⟩, "f"⟩])
      fun _ => .ask (.context (.setFrameLimit c 1)) fun _ =>
        .act (.resume ⟨0⟩ c ⟨0⟩ .undefined) (.finish (κ := .completion))

/-- Two frames run where one is allowed. -/
theorem restored_over_limit :
    ((((start (.initial ()) resumedTooLong).run capturingHost ⟨0⟩ 28).store.context
        ⟨0⟩).frameLimit = 1) ∧
      (((start (.initial ()) resumedTooLong).run capturingHost ⟨0⟩ 30).state.outermost?.map
        fun a => (a.context, a.limit, a.frames.length)) = some (⟨0⟩, 1, 2) := by
  decide +kernel

end Config

end ScriptMachine
