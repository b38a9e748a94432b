import ScriptMachine.Proofs.Security.Inheritance
import ScriptMachine.Proofs.Threads.System

/-!
# Where security comes from

Any number of threads run host code on one store and move generators and continuations between
contexts as they like. Every executable that anything holds was made from one that was created in
the run, and has its security: the controller of the context that was current then, and what this
controller answered. Controllers are consulted for nothing else (`System.security_of_run`).
-/

namespace ScriptMachine

variable {σ : Type} {goal : Kind} {P : Executable → Prop} {Q : σ → Prop}

/-- What a step makes is in a set that is closed under nested routines, if what it creates is. -/
theorem Config.Sound.of_makes {host : Host σ} {thread : Id .thread} {X : Config σ goal}
    (h : X.Sound P Q)
    (hnested : ∀ {e f : Executable} {id : Id .executable} {index : Nat}, P e →
      e.nested? id index = some f → P f)
    (hcreated : ∀ e, X.creates? host thread = some e → P e) (e : Executable)
    (he : X.Makes host thread e) : P e := by
  obtain ⟨m, state⟩ := X
  obtain ⟨-, hstate⟩ := h
  unfold Config.Makes at he
  split at he
  · next q k s heq =>
    dsimp only at heq hstate
    subst heq
    cases q with
    | share r => exact absurd he id
    | create kind r domain =>
      refine hcreated e ?_
      have hperform : (Creation.perform ⟨kind, r, domain⟩ host thread m).1 = .ok e := he
      simp only [Config.creates?, State.creation?, Option.bind_some, hperform]
      rfl
    | nested f index => exact hnested hstate.2.1.1 he
  · next a s heq =>
    dsimp only at heq hstate
    subst heq
    obtain ⟨f, callers, i, g, hframes, hfetch, index, rfl, hf⟩ := he
    exact hnested (hstate.1.head hframes).body hf
  · exact absurd he id

namespace System

/-! ## Sound systems -/

/-- All that the threads hold is sound. -/
structure Sound (P : Executable → Prop) (Q : σ → Prop) (S : System σ) : Prop where
  store : S.store.Sound P Q
  jobs : ∀ thread job, S.jobs thread = some job → job.state.Sound P Q

/-- A program that begins hands on executables of a set as long as it is given such. -/
def Event.Over (P : Executable → Prop) (Q : σ → Prop) : Event σ → Prop
  | @begins _ _ goal p => goal ≠ .exit ∧ p.Over P Q
  | .steps _ => True

/-- Host code that does not make up executables: whatever set of executables it is given from, it
hands on executables of that set only. -/
def IsHonest (host : Host σ) (state : σ) (events : List (Event σ)) : Prop :=
  ∀ P : Executable → Prop, ∃ Q : σ → Prop, Q state ∧ host.Over P Q ∧ ∀ e ∈ events, e.Over P Q

variable (host : Host σ)

/-- The executable that an event creates. -/
def created? (S : System σ) : Event σ → Option Executable
  | .begins _ _ => none
  | .steps thread => (S.jobs thread).bind fun job =>
    Config.creates? host thread ⟨S.store, job.state⟩

/-- An executable is created in a run. -/
def Creates (S : System σ) (events : List (Event σ)) (e : Executable) : Prop :=
  ∃ earlier event later, events = earlier ++ event :: later ∧
    (S.run host earlier).created? host event = some e

/-- An executable has the security of one that was created in a run, and is nested in it. -/
def Inherits (S : System σ) (events : List (Event σ)) (e : Executable) : Prop :=
  ∃ root, S.Creates host events root ∧ root.Within e ∧ e.security = root.security

variable {host} {S : System σ}

theorem Sound.put (h : S.Sound P Q) {thread : Id .thread} {m : Store σ} {state : State σ goal}
    (hm : m.Sound P Q) (hstate : state.Sound P Q) : (S.put thread m state).Sound P Q := by
  refine ⟨hm, fun t job hjob => ?_⟩
  rcases jobs_put_cases hjob with rfl | hjob
  · exact hstate
  · exact h.jobs t job hjob

theorem Sound.play (hhost : host.Over P Q) (h : S.Sound P Q) {e : Event σ} (he : e.Over P Q)
    (hnested : ∀ {e f : Executable} {id : Id .executable} {index : Nat}, P e →
      e.nested? id index = some f → P f)
    (hcreated : ∀ root, S.created? host e = some root → P root) : (S.play host e).Sound P Q := by
  rcases S.play_inversion host e with ⟨-, hplay⟩ | ⟨thread, goal, p, rfl, -, hplay⟩ |
    ⟨thread, job, rfl, hjob, hplay⟩ <;> rw [hplay]
  · exact h
  · exact h.put h.store ⟨he.1, he.2, trivial⟩
  · have hX : Config.Sound P Q ⟨S.store, job.state⟩ := ⟨h.store, h.jobs thread job hjob⟩
    have hstep : (Config.step host thread ⟨S.store, job.state⟩).Sound P Q := by
      refine hX.step hhost (hX.of_makes hnested fun e he => hcreated e ?_)
      rw [created?, hjob]
      exact he
    exact h.put hstep.store hstep.state

theorem Sound.run (hhost : host.Over P Q) (h : S.Sound P Q) {events : List (Event σ)}
    (hevents : ∀ e ∈ events, e.Over P Q)
    (hnested : ∀ {e f : Executable} {id : Id .executable} {index : Nat}, P e →
      e.nested? id index = some f → P f)
    (hcreated : ∀ root, S.Creates host events root → P root) : (S.run host events).Sound P Q := by
  induction events generalizing S with
  | nil => exact h
  | cons e events ih =>
    obtain ⟨he, hlater⟩ := List.forall_mem_cons.mp hevents
    -- What the first event creates and what the others create is created in the whole run.
    refine ih (h.play hhost he hnested fun root hroot => ?_) hlater fun root hroot => ?_
    · exact hcreated root ⟨[], e, events, rfl, hroot⟩
    · obtain ⟨earlier, event, later, rfl, hevent⟩ := hroot
      exact hcreated root ⟨e :: earlier, event, later, rfl, hevent⟩

theorem sound_idle {state : σ} (h : Q state) : (idle (.initial state)).Sound P Q where
  store := Store.sound_initial h
  jobs thread job hjob := by
    rw [idle] at hjob
    cases hjob

theorem Inherits.nested {events : List (Event σ)} {e f : Executable} {id : Id .executable}
    {index : Nat} (h : S.Inherits host events e) (hf : e.nested? id index = some f) :
    S.Inherits host events f := by
  obtain ⟨root, hroot, hwithin, hsecurity⟩ := h
  have hf' := hwithin.nested id index hf
  exact ⟨root, hroot, hf', hf'.security⟩

/-- What is created in a run is secured for the context that is current when it is. -/
theorem Creates.security {events : List (Event σ)} {root : Executable}
    (h : S.Creates host events root) :
    ∃ earlier thread later job r c, events = earlier ++ .steps thread :: later ∧
      (S.run host earlier).jobs thread = some job ∧ job.state.creation? = some r ∧
      (S.run host earlier).store.current? thread = some c ∧
      root.security = r.security? host (S.run host earlier).store c ∧
      (((S.run host earlier).store.context c).controller = none → r.domain = none) := by
  obtain ⟨earlier, event, later, rfl, hcreated⟩ := h
  cases event with
  | begins => cases hcreated
  | steps thread =>
    obtain ⟨job, hjob, hcreates⟩ := Option.bind_eq_some_iff.mp hcreated
    obtain ⟨r, c, hr, hcurrent, -, hsecurity, hdomain⟩ :=
      Config.security_of_creates? host thread hcreates
    exact ⟨earlier, thread, later, job, r, c, rfl, hjob, hr, hcurrent, hsecurity, hdomain⟩

/-- Threads run honest host code on an empty store, in any order, and on any contexts.

- All executables that are held at the end, by scopes, operands, frames, suspended generators,
  captured continuations or host code, have the security of one that was created in the run and
  that they are nested in.
- What was created has the security for the context that was current then. Where that had no
  controller, no domain was asked for.
- A closure that is made next has the security of the unit whose code is executed, whatever the
  context.
- A controller is consulted next if and only if something is created on a context which has it, and
  then once; any other step would be the same if controllers answered something else. -/
theorem security_of_run (host : Host σ) (state : σ) (events : List (Event σ))
    (hhonest : IsHonest host state events) :
    let start : System σ := idle (.initial state)
    let S := start.run host events
    (∃ Q, S.Sound (start.Inherits host events) Q) ∧
    (∀ root, start.Creates host events root → ∃ earlier thread later job r c,
      events = earlier ++ .steps thread :: later ∧
        (start.run host earlier).jobs thread = some job ∧ job.state.creation? = some r ∧
        (start.run host earlier).store.current? thread = some c ∧
        root.security = r.security? host (start.run host earlier).store c ∧
        (((start.run host earlier).store.context c).controller = none → r.domain = none)) ∧
    (∀ (thread : Id .thread) (goal : Kind) (a : Activation) (s : Stack σ .exit goal) (f g : Frame)
        (callers : List Frame) (index : UInt16),
      S.jobs thread = some ⟨.executing a s⟩ → a.frames = f :: callers →
      f.fetch? = some (.closure index, g) →
      ∃ e, f.body.nested? (S.store.fresh .executable).1 index.toNat = some e ∧
        e.security = f.body.security ∧ start.Inherits host events f.body ∧
        start.Inherits host events e ∧
        S.play host (.steps thread) = S.put thread (S.store.fresh .executable).2
          (.counting { a with frames := g.push (.executable e) :: callers } s)) ∧
    ∀ thread job, S.jobs thread = some job →
      let X : Config σ job.goal := ⟨S.store, job.state⟩
      (∀ k, X.consults? thread = some k ↔ ∃ e c, X.creates? host thread = some e ∧
        S.store.current? thread = some c ∧ (S.store.context c).controller = some k) ∧
      (∀ k r, X.consults? thread = some k → job.state.creation? = some r →
        (X.step host thread).store.host = (host.resolve k r.domain S.store.host).2) ∧
      (X.consults? thread = none →
        ∀ resolve, X.step { host with resolve } thread = X.step host thread) := by
  intro start S
  -- Soundness is for any set that is closed under nested routines; this one is.
  obtain ⟨Q, hstate, hhost, hevents⟩ := hhonest (start.Inherits host events)
  have hS : S.Sound (start.Inherits host events) Q :=
    (sound_idle hstate).run hhost hevents Inherits.nested fun root hroot =>
      ⟨root, hroot, .self, rfl⟩
  refine ⟨⟨Q, hS⟩, fun root hroot => hroot.security, ?_, fun thread job hjob => ⟨fun k =>
    Config.consults?_eq_some_iff host thread, fun k r hk hr => ?_,
    Config.step_of_consults?_eq_none host thread⟩⟩
  · intro thread goal a s f g callers index hjob hframes hfetch
    obtain ⟨e, he, hsecurity, hstep⟩ := Config.step_closure host thread hframes hfetch s
      (m := S.store)
    have hbody : start.Inherits host events f.body :=
      ((hS.jobs thread _ hjob).1.head hframes).body
    refine ⟨e, he, hsecurity, hbody, hbody.nested he, ?_⟩
    rw [play_steps host hjob, hstep]
  · rw [Config.store_step_of_consults? host thread hk hr]
    rfl

/-! ## A script that is run under another controller -/

/-- Controllers answer with how many times any was asked before. -/
def countingHost : Host Nat where
  run _ _ := .finish (κ := .completion) (.ok .undefined)
  makeContext _ _ := .panic
  outermost _ f site := .act (.call f site) fun o => .finish (κ := .completion) o
  observe _ _ _ := .finish (κ := .verdict) (.ok ())
  hasFeature _ _ _ _ := false
  notify _ _ _ := .finish (κ := .done) ()
  resolve _ _ n := (some (.integer n), n + 1)

/-- Create a script on a context with a controller, and run it on a context with another one. -/
def createAndMove : Program Nat .completion :=
  .ask (.context (.create Store.globalFactory)) fun (c : Id .context) =>
    .ask (.context (.create Store.globalFactory)) fun (d : Id .context) =>
      .ask (.context (.setController c ⟨4⟩)) fun _ =>
        .ask (.context (.setController d ⟨5⟩)) fun _ =>
          .act (.enter Store.globalFactory (some c)) fun _ =>
            .ask (.code (.create .script Config.closureScript none)) fun
              (r : Except Fault Executable) =>
              match r with
              | .error f => .finish (κ := .completion) (.error (.fault f))
              | .ok e => .act (.execute e d ⟨0⟩) fun o => .finish (κ := .completion) o

/-- The closure of the script is made next. -/
def createAndMoveAlone : List (Event Nat) :=
  .begins ⟨0⟩ createAndMove :: List.replicate 13 (.steps ⟨0⟩)

theorem isHonest_createAndMove : IsHonest countingHost 0 createAndMoveAlone := by
  intro P
  have hprogram : createAndMove.Over P fun _ => True := by
    refine ⟨trivial, fun _ _ => ⟨trivial, fun _ _ => ⟨trivial, fun _ _ => ⟨trivial, fun _ _ =>
      ⟨trivial, fun _ _ => ⟨trivial, fun r hr => ?_⟩⟩⟩⟩⟩⟩
    cases r with
    | error f => trivial
    | ok e => exact ⟨hr, fun _ ho => ho⟩
  refine ⟨fun _ => True, trivial, ⟨?_, ?_, ?_, ?_, ?_, ?_⟩, ?_⟩
  · exact fun _ _ _ => trivial
  · exact fun _ _ => trivial
  · exact fun _ _ _ hf hsite => ⟨⟨hf, hsite⟩, fun _ ho => ho⟩
  · exact fun _ _ _ => trivial
  · exact fun _ _ _ => trivial
  · exact fun _ _ _ _ => trivial
  · intro e he
    rcases List.mem_cons.mp he with rfl | he
    · exact ⟨nofun, hprogram⟩
    · rw [List.eq_of_mem_replicate he]
      trivial

/-- The script is executed on the other context, with the security that it was created with. -/
theorem executes_createAndMove :
    let S := (idle (.initial 0)).run countingHost createAndMoveAlone
    ∃ (goal : Kind) (a : Activation) (s : Stack Nat .exit goal) (f g : Frame)
      (callers : List Frame),
      S.jobs ⟨0⟩ = some ⟨.executing a s⟩ ∧ a.frames = f :: callers ∧
        f.fetch? = some (.closure 0, g) ∧
        (S.store.context a.context).controller = some ⟨5⟩ ∧
        f.body.security = some ⟨⟨4⟩, some (.integer 0)⟩ :=
  ⟨_, _, _, _, _, _, rfl, rfl, rfl, rfl, rfl⟩

theorem security_createAndMove :
    IsHonest countingHost 0 createAndMoveAlone ∧
      let start : System Nat := idle (.initial 0)
      let S := start.run countingHost createAndMoveAlone
      ∃ (a : Activation) (f : Frame) (callers : List Frame) (e : Executable),
        a.frames = f :: callers ∧ (S.store.context a.context).controller = some ⟨5⟩ ∧
          f.body.nested? (S.store.fresh .executable).1 0 = some e ∧
          start.Inherits countingHost createAndMoveAlone e ∧
          e.security = some ⟨⟨4⟩, some (.integer 0)⟩ := by
  refine ⟨isHonest_createAndMove, ?_⟩
  intro start S
  obtain ⟨goal, a, s, f, g, callers, hjob, hframes, hfetch, hcontroller, hbody⟩ :=
    executes_createAndMove
  obtain ⟨-, -, hclosure, -⟩ :=
    security_of_run countingHost 0 createAndMoveAlone isHonest_createAndMove
  obtain ⟨e, he, hsecurity, -, hinherits, -⟩ :=
    hclosure ⟨0⟩ goal a s f g callers 0 hjob hframes hfetch
  exact ⟨a, f, callers, e, hframes, hcontroller, he, hinherits, hsecurity.trans hbody⟩

end System

end ScriptMachine
