import Mathlib.Data.List.Induction
import ScriptMachine.Proofs.Generators.LifeCycle
import ScriptMachine.Proofs.Generators.Manned
import ScriptMachine.Proofs.Threads.System

/-!
# Generators whose body was left by a panic

The end of a body is entered in the state of the generator by the task that waits for it. A panic
takes that task away and enters nothing, so the generator stays in the state in which it was while
the body ran. `System.running_iff_abandoned` says that this is the only way to come to a generator
that runs when no thread has an activation, and that such a generator refuses to be resumed.
-/

namespace ScriptMachine

variable {σ : Type} {goal : Kind}

/-- A panic is about to go through the body of a generator, or to meet another panic above it. -/
def State.abandons (i : Id .generator) : State σ goal → Bool
  | .panicking (.cons .repanic s) => decide (0 < s.bodies i)
  | .panicking (.cons t _) => decide (0 < t.bodies i)
  | _ => false

theorem State.bodies_of_abandons {i : Id .generator} {state : State σ goal}
    (h : state.abandons i = true) : 0 < state.bodies i := by
  unfold abandons at h
  split at h
  · exact Nat.lt_of_lt_of_le (of_decide_eq_true h) (Nat.le_add_left _ _)
  · exact Nat.lt_of_lt_of_le (of_decide_eq_true h) (Nat.le_add_right _ _)
  · cases h

/-- Nothing is waited for at the end. -/
theorem State.bodies_of_ending {i : Id .generator} {state : State σ goal}
    (h : state.ending?.isSome) : state.bodies i = 0 := by
  cases state with
  | returning x s | panicking s =>
    cases s with
    | nil => rfl
    | cons t s => cases h
  | crashed => rfl
  | running | calling | counting | executing => cases h

/-- The generator holds no frame and has not finished, but nothing waits for the end of its
body. -/
def GeneratorLife.stuck : GeneratorLife := ⟨some { frame := none, started := true }, 0⟩

/-! ## Steps -/

namespace Config

variable {i : Id .generator} {X : Config σ goal} (host : Host σ) (thread : Id .thread)

/-- Unless its body is abandoned, a step takes a generator from phase to phase. -/
theorem step_isLawful_of_not_abandons (hX : X.state.IsManned ∨ X.state = .crashed)
    (hno : X.state.abandons i = false) (h : (X.life i).IsLawful) :
    ((X.step host thread).life i).IsLawful := by
  rcases hX with hX | hX
  · rcases step_isManned host thread hX with hstep | ⟨⟨s, hpanic⟩, -⟩
    · refine step_isLawful host thread ?_ ?_ h
      · rintro g s rfl hpanic
        rw [hpanic] at hno
        simp [State.abandons, Task.bodies] at hno
      · intro hcrashed
        rw [hcrashed] at hstep
        exact hstep
    · -- two panics meet, and no body was under way
      obtain ⟨m, state⟩ := X
      obtain rfl : state = .panicking (.cons .repanic s) := hpanic
      have hnone : s.bodies i = 0 := Nat.eq_zero_of_not_pos (of_decide_eq_false hno)
      rw [life, State.bodies, Stack.bodies_cons, hnone] at h
      exact h
  · obtain ⟨m, state⟩ := X
    obtain rfl : state = .crashed := hX
    exact h

/-- Once its body is abandoned, nothing waits for it, and the generator is left as it was. -/
theorem life_step_of_abandons (habandons : X.state.abandons i = true) (h : (X.life i).IsLawful) :
    (X.step host thread).life i = .stuck := by
  have hrunning := h.of_bodies (State.bodies_of_abandons habandons)
  obtain ⟨m, state⟩ := X
  have hstored : m.generators.get? i = some { frame := none, started := true } :=
    congrArg GeneratorLife.state hrunning
  have hone : state.bodies i = 1 := congrArg GeneratorLife.bodies hrunning
  rw [GeneratorLife.stuck, ← hstored]
  dsimp only at habandons
  unfold State.abandons at habandons
  split at habandons
  · rfl
  · next t s hother =>
    cases t with
    | bodyEnd g =>
      have hpos : 0 < (Task.bodyEnd g : Task σ _ _).bodies i := of_decide_eq_true habandons
      have hnone : s.bodies i = 0 := by
        rw [State.bodies, Stack.bodies_cons] at hone
        omega
      exact congrArg (GeneratorLife.mk _) hnone
    | repanic => exact absurd HEq.rfl (hother s rfl)
    | _ => cases habandons
  · cases habandons

/-- The next step begins a resumption of a generator; what it comes to goes to a stack. -/
inductive IsToResume (g : Generator) (op : GeneratorOp) (v : Value) :
    Config σ goal → Stack σ .step goal → Prop
  /-- Host code resumes the generator within a top call. -/
  | direct {m : Store σ} {via : Executable} {c : Id .context} {scope : Id .scope} {κ : Kind}
      {k : Except Abrupt GeneratorStep → Program σ κ} {s : Stack σ κ goal}
      (hvia : g.body.sameCode via) (hcalled : (m.context c).topCall.isSome) :
      IsToResume g op v ⟨m, .running (.act (.step via g op c scope v) k) s⟩ (.cons (.program k) s)
  /-- The outermost call is the resumption. -/
  | called {m : Store σ} {r : Id .resumption} {site : CallSite} {s : Stack σ .completion goal}
      (hvalue : (m.resumptions.get r).value = some v) :
      IsToResume g op v ⟨m, .calling (.resumption r g op) site s⟩ (.cons (.recordStep r) s)

variable {g : Generator} {op : GeneratorOp} {v : Value} {s : Stack σ .step goal}

theorem IsToResume.step (h : X.IsToResume g op v s) :
    ∃ (m : Store σ) (c : Id .context), m.generators = X.store.generators ∧
      X.step host thread = beginStep m g op c v s := by
  cases h with
  | @direct m via c scope κ k s hvia hcalled =>
    refine ⟨m, c, rfl, ?_⟩
    have hsame : (!g.body.sameCode via) = false := by
      rw [hvia]
      rfl
    show beginResumption host m via g op c scope v _ = _
    simp only [beginResumption, hsame, hcalled, if_true]
    rfl
  | @called m r site s hvalue =>
    refine ⟨m.spend r, site.context, rfl, ?_⟩
    have hv : (m.resumptions.get r).value.getD .undefined = v := by
      rw [hvalue]
      rfl
    show beginStep (m.spend r) g op site.context ((m.resumptions.get r).value.getD .undefined) _ = _
    rw [hv]

/-- A resumption is taken: the generator is over and answers by itself, or its body is entered. -/
def IsTaken (g : Generator) (op : GeneratorOp) (v : Value) (s : Stack σ .step goal)
    (Y : Config σ goal) : Prop :=
  (∃ m : Store σ, m.Finished g.id ∧ Y = give m .step (op.ended v) s) ∨
    ∃ (m : Store σ) (c : Id .context) (flow : Flow),
      m.generators.get? g.id = some { frame := none, started := true } ∧
      Y = (enterBody m c flow).onto (.cons (.bodyEnd g) s)

/-- A resumption is refused. -/
def IsRefused (s : Stack σ .step goal) (Y : Config σ goal) : Prop :=
  ∃ m : Store σ, Y = give m .step (.error (.typeError "generator is already running")) s

theorem IsToResume.isTaken (h : X.IsToResume g op v s) {state : GeneratorState}
    (hstate : X.store.generators.get? g.id = some state) (hidle : state.isRunning = false) :
    (X.step host thread).IsTaken g op v s := by
  obtain ⟨m, c, hgenerators, hstep⟩ := h.step host thread
  have hget : m.generators.get g.id = state := by
    rw [Table.get, hgenerators, hstate]
    rfl
  rw [hstep]
  rcases beginStep_cases m g op c v s with ⟨hrunning, -⟩ | hended | ⟨m', flow, hentered⟩
  · rw [hget, hidle] at hrunning
    cases hrunning
  · exact .inl hended
  · exact .inr ⟨m', c, flow, hentered⟩

theorem IsToResume.isRefused (h : X.IsToResume g op v s)
    (hstate : X.store.generators.get? g.id = some { frame := none, started := true }) :
    (X.step host thread).IsRefused s := by
  obtain ⟨m, c, hgenerators, hstep⟩ := h.step host thread
  have hreply : GeneratorLife.Replies op v ⟨m.generators.get? g.id, 1⟩
      (.error (.typeError "generator is already running"))
      { frame := none, started := true } := by
    rw [hgenerators, hstate]
    exact .running
  rw [hstep, beginStep_of_replies hreply]
  exact ⟨_, rfl⟩

end Config

/-! ## Threads -/

namespace System

variable (i : Id .generator)

/-- The life of a generator, with what a thread waits for. -/
def life (S : System σ) (thread : Id .thread) : GeneratorLife :=
  ⟨S.store.generators.get? i, ((S.jobs thread).map (·.state.bodies i)).getD 0⟩

/-- No thread runs the body of the generator, or one does; nobody has made the generator, or it
is in the phase that goes with it. -/
def IsTended (S : System σ) : Prop :=
  ∃ thread, (S.life i thread).IsLawful ∧ ∀ t, t ≠ thread → (S.life i t).bodies = 0

/-- The generator is stuck for all threads. -/
def IsStuck (S : System σ) : Prop := ∀ thread, S.life i thread = .stuck

/-- In every thread activations keep to the bodies they run. -/
def IsManned (S : System σ) : Prop :=
  ∀ thread job, S.jobs thread = some job → job.state.IsManned ∨ job.state = .crashed

/-- No thread has an activation that runs, waits or is being left. -/
def IsQuiet (S : System σ) : Prop := ∀ thread job, S.jobs thread = some job → job.state.isQuiet = true

/-- The event is a step on which the body of a generator is abandoned. -/
def abandons (S : System σ) : Event σ → Bool
  | .begins _ _ => false
  | .steps thread => (S.jobs thread).any (·.state.abandons i)

variable {i} {S : System σ} {thread : Id .thread} {state : State σ goal}

theorem life_of_job (h : S.jobs thread = some ⟨state⟩) :
    S.life i thread = Config.life i ⟨S.store, state⟩ := by
  rw [life, h]
  rfl

variable (host : Host σ)

theorem life_play_self (h : S.jobs thread = some ⟨state⟩) :
    (S.play host (.steps thread)).life i thread =
      (Config.step host thread ⟨S.store, state⟩).life i := by
  rw [play_steps host h, life, jobs_put_self]
  rfl

theorem bodies_play_of_ne {t : Id .thread} (ht : t ≠ thread) (h : S.jobs thread = some ⟨state⟩) :
    ((S.play host (.steps thread)).life i t).bodies = (S.life i t).bodies := by
  rw [play_steps host h, life, jobs_put_of_ne ht]
  rfl

theorem life_play_begins (thread : Id .thread) (p : Program σ goal) :
    (S.play host (.begins thread p)).life i = S.life i := by
  funext t
  simp only [play]
  split
  · next hfree =>
    by_cases ht : t = thread
    · subst ht
      rw [life, life, jobs_put_self]
      cases hjob : S.jobs t with
      | none => rfl
      | some job => exact congrArg (GeneratorLife.mk _) (State.bodies_of_ending (hfree job hjob)).symm
    · rw [life, life, jobs_put_of_ne ht]
      rfl
  · rfl

/-- A thread that does not run the body of a generator leaves the generator alone while it
runs. -/
theorem life_play_of_stuck (h : S.life i thread = .stuck) :
    (S.play host (.steps thread)).life i = S.life i := by
  cases hjob : S.jobs thread with
  | none => simp only [play, hjob]
  | some job =>
    obtain ⟨state⟩ := job
    rw [life_of_job hjob] at h
    -- no move starts from a generator that has no frame and is not waited for
    have hstep := (Config.step_moves i host thread ⟨S.store, state⟩).rests
      (congrArg GeneratorLife.state h) rfl (congrArg GeneratorLife.bodies h)
    have hself := (life_play_self (i := i) host hjob).trans hstep
    funext t
    by_cases ht : t = thread
    · rw [ht, hself, life_of_job hjob]
    · have hstate : (S.play host (.steps thread)).store.generators.get? i =
          S.store.generators.get? i := congrArg GeneratorLife.state hself
      have hbodies := bodies_play_of_ne (i := i) host ht hjob
      exact congrArg₂ GeneratorLife.mk hstate hbodies

/-- A thread either finds a running generator that is not its own, or no other thread runs the
body. -/
theorem IsTended.cases (h : S.IsTended i) (t : Id .thread) :
    S.life i t = .stuck ∨
      (S.life i t).IsLawful ∧ ∀ other, other ≠ t → (S.life i other).bodies = 0 := by
  obtain ⟨thread, hlawful, hothers⟩ := h
  -- the body may run on another thread than `t`, or on none; in the second case `t` will do
  by_cases ht : t = thread
  · exact .inr ⟨ht ▸ hlawful, ht ▸ hothers⟩
  · have hnone := hothers t ht
    rcases Nat.eq_zero_or_pos (S.life i thread).bodies with hzero | hpos
    · have hsame : S.life i t = S.life i thread :=
        congrArg (GeneratorLife.mk _) (hnone.trans hzero.symm)
      refine .inr ⟨hsame ▸ hlawful, ?_⟩
      intro other _
      by_cases hother : other = thread
      · rw [hother, hzero]
      · exact hothers other hother
    · have hstate : S.store.generators.get? i = some { frame := none, started := true } :=
        congrArg GeneratorLife.state (hlawful.of_bodies hpos)
      exact .inl (congrArg₂ GeneratorLife.mk hstate hnone)

theorem IsManned.play (h : S.IsManned) (e : Event σ) : (S.play host e).IsManned := by
  intro t job hjob
  rcases S.play_inversion host e with ⟨-, hplay⟩ | ⟨thread, goal, p, rfl, -, hplay⟩ |
    ⟨thread, current, rfl, hnow, hplay⟩ <;> rw [hplay] at hjob
  · exact h t job hjob
  · rcases jobs_put_cases hjob with rfl | hjob
    · exact .inl ⟨fun _ => rfl, trivial⟩
    · exact h t job hjob
  · rcases jobs_put_cases hjob with rfl | hjob
    · rcases h thread _ hnow with hmanned | hcrashed
      · rcases Config.step_isManned host thread (X := ⟨S.store, current.state⟩) hmanned with
          hstep | ⟨-, hstep⟩
        · exact .inl hstep
        · exact .inr hstep
      · obtain ⟨state⟩ := current
        obtain rfl : state = .crashed := hcrashed
        exact .inr rfl
    · exact h t job hjob

/-- An event that does not abandon the body of a generator takes it from phase to phase. -/
theorem IsTended.play (hS : S.IsManned) (h : S.IsTended i) {e : Event σ}
    (he : S.abandons i e = false) : (S.play host e).IsTended i := by
  cases e with
  | begins thread p =>
    unfold IsTended
    rw [life_play_begins]
    exact h
  | steps thread =>
    rcases h.cases thread with hstuck | ⟨hlawful, hothers⟩
    · unfold IsTended
      rw [life_play_of_stuck host hstuck]
      exact h
    · cases hjob : S.jobs thread with
      | none =>
        simp only [System.play, hjob]
        exact h
      | some job =>
        obtain ⟨state⟩ := job
        simp only [abandons, hjob, Option.any_some] at he
        rw [life_of_job hjob] at hlawful
        refine ⟨thread, ?_, ?_⟩
        · rw [life_play_self host hjob]
          exact Config.step_isLawful_of_not_abandons host thread (hS thread _ hjob) he hlawful
        · intro t ht
          rw [bodies_play_of_ne host ht hjob]
          exact hothers t ht

/-- Once its body is abandoned, a generator is stuck. -/
theorem IsTended.isStuck_play (h : S.IsTended i) {e : Event σ} (he : S.abandons i e = true) :
    (S.play host e).IsStuck i := by
  cases e with
  | begins thread p => cases he
  | steps thread =>
    cases hjob : S.jobs thread with
    | none =>
      simp only [abandons, hjob, Option.any_none] at he
      cases he
    | some job =>
      obtain ⟨state⟩ := job
      simp only [abandons, hjob, Option.any_some] at he
      have hlife := life_of_job (i := i) hjob
      rcases h.cases thread with hstuck | ⟨hlawful, hothers⟩
      · have hpos := State.bodies_of_abandons he
        have hzero : state.bodies i = 0 :=
          congrArg GeneratorLife.bodies (hlife.symm.trans hstuck)
        omega
      · rw [hlife] at hlawful
        have hself := (life_play_self (i := i) host hjob).trans
          (Config.life_step_of_abandons host thread he hlawful)
        have hstate : (S.play host (.steps thread)).store.generators.get? i = _ :=
          congrArg GeneratorLife.state hself
        intro t
        by_cases ht : t = thread
        · rw [ht, hself]
        · have hnone := (bodies_play_of_ne (i := i) host ht hjob).trans (hothers t ht)
          exact congrArg₂ GeneratorLife.mk hstate hnone

/-- A stuck generator stays so. -/
theorem IsStuck.play (h : S.IsStuck i) (e : Event σ) : (S.play host e).IsStuck i := by
  cases e with
  | begins thread p =>
    unfold IsStuck
    rw [life_play_begins]
    exact h
  | steps thread =>
    unfold IsStuck
    rw [life_play_of_stuck host (h thread)]
    exact h

/-- A generator is tended until its body is abandoned, and stuck from then on. -/
theorem run_tended_or_stuck (hS : S.IsManned) (h : S.IsTended i) (events : List (Event σ)) :
    (S.run host events).IsManned ∧
      (tally host (abandons i) S events = 0 ∧ (S.run host events).IsTended i ∨
        0 < tally host (abandons i) S events ∧ (S.run host events).IsStuck i) := by
  -- on the history, from its end: the tally says which of the two invariants has come so far
  induction events using List.reverseRecOn with
  | nil => exact ⟨hS, .inl ⟨rfl, h⟩⟩
  | append_singleton events e ih =>
    obtain ⟨hmanned, hlife⟩ := ih
    rw [run_append, tally_append_singleton]
    refine ⟨hmanned.play host e, ?_⟩
    rcases hlife with ⟨hnone, htended⟩ | ⟨hpos, hstuck⟩
    · rw [hnone, Nat.zero_add]
      cases he : (S.run host events).abandons i e with
      | false => exact .inl ⟨rfl, htended.play host hmanned he⟩
      | true => exact .inr ⟨Nat.one_pos, htended.isStuck_play host he⟩
    · exact .inr ⟨Nat.add_pos_left hpos _, hstuck.play host e⟩

/-- Where no activation is under way, no body is waited for. -/
theorem IsManned.bodies_eq_zero (h : S.IsManned) (hquiet : S.IsQuiet) (t : Id .thread) :
    (S.life i t).bodies = 0 := by
  unfold life
  cases hjob : S.jobs t with
  | none => rfl
  | some job =>
    rcases h t job hjob with hmanned | hcrashed
    · exact hmanned.bodies_eq_zero (hquiet t job hjob) i
    · show job.state.bodies i = 0
      rw [hcrashed]
      rfl

/-- Let any threads run any host code from a store at rest, and look at a moment at which no
thread has an activation. A generator runs at that moment exactly if its body was abandoned by a
panic. Otherwise it is suspended or finished. And whoever resumes it then is refused exactly if
its body was abandoned. -/
theorem running_iff_abandoned (host : Host σ) {m : Store σ} (hrest : m.AtRest)
    {events : List (Event σ)} {S : System σ} (hS : (idle m).run host events = S)
    (hquiet : S.IsQuiet) {i : Id .generator} {state : GeneratorState}
    (hstate : S.store.generators.get? i = some state) :
    let panics := tally host (abandons i) (idle m) events
    (state.isRunning = true ↔ 0 < panics) ∧
      (panics = 0 → ∃ phase, phase ≠ .running ∧ GeneratorLife.IsIn ⟨some state, 0⟩ phase) ∧
      ∀ (thread : Id .thread) (goal : Kind) (now : State σ goal) (g : Generator)
        (op : GeneratorOp) (v : Value) (s : Stack σ .step goal),
        S.jobs thread = some ⟨now⟩ → g.id = i →
        Config.IsToResume g op v ⟨S.store, now⟩ s →
        let next := Config.step host thread ⟨S.store, now⟩
        (panics = 0 → next.IsTaken g op v s) ∧ (0 < panics → next.IsRefused s) := by
  intro panics
  have hmanned : (idle m).IsManned := by
    rintro thread job ⟨⟩
  have htended : (idle m).IsTended i := ⟨⟨0⟩, hrest i, fun _ _ => rfl⟩
  obtain ⟨hmanned', hlife⟩ := run_tended_or_stuck host hmanned htended events
  rw [hS] at hmanned' hlife
  have hnobody := fun t => hmanned'.bodies_eq_zero (i := i) hquiet t
  rcases hlife with ⟨hnone, thread, hlawful, -⟩ | ⟨hpos, hstuck⟩
  · have hnow : S.life i thread = ⟨some state, 0⟩ := congrArg₂ GeneratorLife.mk hstate (hnobody thread)
    rw [hnow] at hlawful
    obtain ⟨phase, hphase⟩ := hlawful.exists_phase rfl
    have hidle : phase ≠ .running ∧ state.isRunning = false := by
      cases hphase with
      | suspended | finished => exact ⟨nofun, rfl⟩
    refine ⟨?_, fun _ => ⟨phase, hidle.1, hphase⟩, ?_⟩
    · rw [hidle.2]
      exact iff_of_false nofun (Nat.not_lt.mpr (Nat.le_of_eq hnone))
    · rintro t goal now g op v s - rfl hresume
      exact ⟨fun _ => hresume.isTaken host t hstate hidle.2, fun h => absurd hnone (Nat.ne_of_gt h)⟩
  · have hnow : S.store.generators.get? i = some { frame := none, started := true } :=
      congrArg GeneratorLife.state (hstuck ⟨0⟩)
    obtain rfl : state = { frame := none, started := true } := Option.some.inj (hstate.symm.trans hnow)
    refine ⟨iff_of_true rfl hpos, fun h => absurd h (Nat.ne_of_gt hpos), ?_⟩
    rintro t goal now g op v s - rfl hresume
    exact ⟨fun h => absurd h (Nat.ne_of_gt hpos), fun _ => hresume.isRefused host t hnow⟩

/-! ## A body that calls a host function -/

open Config (answeringHost catchingCall catchingGenerator firstResumption selfResuming uniformHost)

/-- A host whose functions give up. -/
def panickingHost : Host Unit := uniformHost fun _ => .panic

/-- A thread resumes a generator for a number of steps, and begins to resume it again. -/
def resumedTwice (n : Nat) : List (Event Unit) :=
  (.begins ⟨0⟩ firstResumption :: List.replicate n (.steps ⟨0⟩)) ++
    .begins ⟨0⟩ firstResumption :: List.replicate 1 (.steps ⟨0⟩)

/-- How the first resumption ends. -/
def resumed (host : Host Unit) (n : Nat) : Config Unit .step :=
  .run host ⟨0⟩ n (.start selfResuming firstResumption)

/-- The second resumption is the outermost call, which has not begun. -/
def resumedAgain (host : Host Unit) (n : Nat) : Config Unit .step :=
  .step host ⟨0⟩ (.start (resumed host n).store firstResumption)

theorem run_resumedTwice (host : Host Unit) {n : Nat} (hend : (resumed host n).ending?.isSome) :
    (idle selfResuming).run host (resumedTwice n) =
      (idle selfResuming).put ⟨0⟩ (resumedAgain host n).store (resumedAgain host n).state := by
  have hfree : (idle selfResuming).IsFree ⟨0⟩ := by
    rintro job ⟨⟩
  have hfree' : ((idle selfResuming).put ⟨0⟩ (resumed host n).store
      (resumed host n).state).IsFree ⟨0⟩ := by
    intro job hjob
    rw [jobs_put_self] at hjob
    cases hjob
    exact hend
  have hfirst : (idle selfResuming).run host
        (.begins ⟨0⟩ firstResumption :: List.replicate n (.steps ⟨0⟩)) =
      (idle selfResuming).put ⟨0⟩ (resumed host n).store (resumed host n).state :=
    run_begins host hfree firstResumption n
  rw [resumedTwice, run_append, hfirst, run_begins host hfree', put_put]
  rfl

theorem isQuiet_put (m m' : Store σ) {state : State σ goal} (h : state.isQuiet = true)
    (thread : Id .thread) : ((idle m).put thread m' state).IsQuiet := by
  intro t job hjob
  by_cases ht : t = thread
  · rw [ht, jobs_put_self] at hjob
    cases hjob
    exact h
  · rw [jobs_put_of_ne ht] at hjob
    cases hjob

/-- What the answer to the second resumption goes to. -/
def beneathSecond : Stack Unit .step .step :=
  .cons (.recordStep ⟨1⟩) (.cons .flattenResult (.cons (.clearTopCall ⟨0⟩)
    (.cons (.reportStep ⟨1⟩) (.cons (.program (.finish (κ := .step))) .nil))))

/-- A generator whose body came to its end has finished, and takes another resumption. -/
theorem taken_resumedTwice :
    let S := (idle selfResuming).run answeringHost (resumedTwice 24)
    S.store.generators.get? ⟨0⟩ = some .over ∧
      (∃ phase, phase ≠ .running ∧ GeneratorLife.IsIn ⟨some .over, 0⟩ phase) ∧
      (Config.step answeringHost ⟨0⟩ (resumedAgain answeringHost 24)).IsTaken catchingGenerator
        .next .undefined beneathSecond := by
  intro S
  have hS : S = _ := run_resumedTwice answeringHost (n := 24) rfl
  have hquiet : S.IsQuiet := by
    rw [hS]
    exact isQuiet_put _ _ rfl ⟨0⟩
  have hstate : S.store.generators.get? ⟨0⟩ = some .over := by
    rw [hS]
    rfl
  have hpanics : tally answeringHost (abandons ⟨0⟩) (idle selfResuming) (resumedTwice 24) = 0 := by
    decide +kernel
  have hjob : S.jobs ⟨0⟩ = some ⟨(resumedAgain answeringHost 24).state⟩ := by
    rw [hS, jobs_put_self]
  have hresume : (resumedAgain answeringHost 24).IsToResume catchingGenerator .next .undefined
      beneathSecond := .called rfl
  obtain ⟨-, hphase, hresumes⟩ :=
    running_iff_abandoned (S := S) answeringHost Config.atRest_selfResuming rfl hquiet hstate
  refine ⟨hstate, hphase hpanics, ?_⟩
  have hnext := hresumes ⟨0⟩ .step _ catchingGenerator .next .undefined beneathSecond hjob rfl
  rw [hS] at hnext
  exact (hnext hresume).1 hpanics

/-- A host function that is called in the body of a generator panics, and its thread is rid of all
activations. The generator runs nevertheless, and another resumption is refused. -/
theorem refused_resumedTwice :
    selfResuming.AtRest ∧
      let S := (idle selfResuming).run panickingHost (resumedTwice 19)
      S.IsQuiet ∧ (S.store.generators.get ⟨0⟩).isRunning = true ∧
        (S.play panickingHost (.steps ⟨0⟩)).jobs ⟨0⟩ = some ⟨.returning (κ := .step)
          (.error (.typeError "generator is already running")) beneathSecond⟩ := by
  refine ⟨Config.atRest_selfResuming, ?_⟩
  intro S
  have hS : S = _ := run_resumedTwice panickingHost (n := 19) rfl
  rw [hS]
  exact ⟨isQuiet_put _ _ rfl ⟨0⟩, rfl, rfl⟩

end System

end ScriptMachine
