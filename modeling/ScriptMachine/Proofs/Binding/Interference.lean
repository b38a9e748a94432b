import ScriptMachine.Proofs.Binding.Registry

/-!
# One thread among others

A thread takes its steps, and between two of them other threads may change the store. What they do
is kept abstract, but for what the thread holds, which no other thread changes:
`System.exists_evolves` says that a thread of a system evolves in this way.
-/

namespace ScriptMachine

variable {σ : Type} {α β goal : Kind} {thread : Id .thread}

/-- What may become of the store between two steps of a thread. -/
structure Interference (σ : Type) (thread : Id .thread) where
  may : Store σ → Store σ → Prop
  holds : ∀ m m', may m m' → m'.hold? thread = m.hold? thread

/-- No other thread does anything. -/
def Interference.alone (σ : Type) (thread : Id .thread) : Interference σ thread where
  may _ _ := False
  holds _ _ := False.elim

/-- Other threads take steps. The contexts that they bind were made. -/
def Interference.ofThreads (host : Host σ) (thread : Id .thread) : Interference σ thread where
  may m m' := m.Entered ∧ ∃ (other : Id .thread) (goal : Kind) (state : State σ goal),
    other ≠ thread ∧ (∀ c, state.binds? = some c → m.Knows c) ∧
      (Config.step host other ⟨m, state⟩).store = m'
  holds := by
    rintro m m' ⟨hm, other, goal, state, hne, hknown, rfl⟩
    exact (Config.bindings_step host (X := ⟨m, state⟩) hm hknown).hold?_of_ne hm (Ne.symm hne)

namespace Config

variable (host : Host σ) (E : Interference σ thread)

/-- What a thread runs comes to something else, by steps of its own and with interference. -/
inductive Evolves : Config σ goal → Config σ goal → Prop
  | refl (X : Config σ goal) : Evolves X X
  | step {X Y : Config σ goal} (rest : Evolves (X.step host thread) Y) : Evolves X Y
  | shift {X Y : Config σ goal} {m : Store σ} (may : E.may X.store m)
      (rest : Evolves ⟨m, X.state⟩ Y) : Evolves X Y

variable {host E} {X Y Z : Config σ goal}

theorem Evolves.trans (h : Evolves host E X Y) (h' : Evolves host E Y Z) : Evolves host E X Z := by
  induction h with
  | refl X => exact h'
  | step rest ih => exact .step (ih h')
  | shift may rest ih => exact .shift may (ih h')

theorem evolves_run (X : Config σ goal) (n : Nat) : Evolves host E X (X.run host thread n) := by
  induction n generalizing X with
  | zero => exact .refl X
  | succ n ih => exact .step (ih _)

/-- A thread that is alone runs. -/
theorem evolves_alone_iff :
    Evolves host (.alone σ thread) X Y ↔ ∃ n, X.run host thread n = Y := by
  constructor
  · intro h
    induction h with
    | refl X => exact ⟨0, rfl⟩
    | step rest ih =>
      obtain ⟨n, hn⟩ := ih
      exact ⟨n + 1, hn⟩
    | shift may rest ih => exact may.elim
  · rintro ⟨n, rfl⟩
    exact evolves_run X n

/-- What has come to its end stays as it is, and so does what the thread holds. -/
theorem Evolves.of_ended (h : Evolves host E X Y) (hX : X.ending?.isSome) :
    Y.state = X.state ∧ Y.store.hold? thread = X.store.hold? thread := by
  induction h with
  | refl X => exact ⟨rfl, rfl⟩
  | step rest ih =>
    obtain ⟨x, hx⟩ := Option.isSome_iff_exists.mp hX
    rw [step_of_ending host thread hx] at ih
    exact ih hX
  | shift may rest ih =>
    obtain ⟨hstate, hholds⟩ := ih hX
    exact ⟨hstate, hholds.trans (E.holds _ _ may)⟩

/-- What has not come to its end takes a step on the way to it, after some interference. -/
theorem Evolves.next (h : Evolves host E X Y) (hX : X.ending? = none) (hY : Y.ending?.isSome) :
    ∃ m, m.hold? thread = X.store.hold? thread ∧ Evolves host E X ⟨m, X.state⟩ ∧
      Evolves host E (Config.step host thread ⟨m, X.state⟩) Y := by
  induction h with
  | refl X =>
    rw [hX] at hY
    cases hY
  | @step X Y rest ih => exact ⟨X.store, rfl, .refl X, rest⟩
  | shift may rest ih =>
    obtain ⟨m, hholds, hbefore, hafter⟩ := ih hX hY
    exact ⟨m, hholds.trans (E.holds _ _ may), .shift may hbefore, hafter⟩

/-- What ends on top of another stack has come to its end alone on the way. -/
theorem Evolves.split {X : Config σ α} {s : Stack σ α goal} (h : Evolves host E (X.onto s) Y)
    (hY : Y.ending?.isSome) :
    ∃ Z : Config σ α, Z.ending?.isSome ∧ Evolves host E X Z ∧
      Evolves host E (X.onto s) (Z.onto s) ∧ Evolves host E (Z.onto s) Y := by
  generalize hstart : X.onto s = W at h
  induction h generalizing X with
  | refl W =>
    subst hstart
    cases hX : X.ending? with
    | none =>
      rw [ending_onto s hX] at hY
      cases hY
    | some x => exact ⟨X, by rw [hX]; rfl, .refl X, .refl _, .refl _⟩
  | step rest ih =>
    subst hstart
    cases hX : X.ending? with
    | some x => exact ⟨X, by rw [hX]; rfl, .refl X, .refl _, .step rest⟩
    | none =>
      obtain ⟨Z, hZ, halone, honto, hafter⟩ := ih hY (step_onto host thread s hX).symm
      exact ⟨Z, hZ, .step halone, .step honto, hafter⟩
  | shift may rest ih =>
    subst hstart
    obtain ⟨Z, hZ, halone, honto, hafter⟩ := ih (X := ⟨_, X.state⟩) hY rfl
    exact ⟨Z, hZ, .shift may halone, .shift may honto, hafter⟩

end Config

namespace System

variable {host : Host σ} {S : System σ}

variable (host) in
/-- An event takes a thread one step further, or is interference. -/
theorem exists_evolves_play {X : Config σ α} {s : Stack σ α goal} (hstore : S.store = X.store)
    (hjob : S.jobs thread = some ⟨X.state.onto s⟩) (hX : X.ending? = none)
    (hentered : S.store.Entered) (hnames : S.Names) (e : Event σ) :
    ∃ X' : Config σ α, (S.play host e).store = X'.store ∧
      (S.play host e).jobs thread = some ⟨X'.state.onto s⟩ ∧
      ∀ Y, Config.Evolves host (.ofThreads host thread) X' Y →
        Config.Evolves host (.ofThreads host thread) X Y := by
  cases e with
  | begins other p =>
    refine ⟨X, ?_, ?_, fun Y hY => hY⟩
    · simp only [play]
      split
      · exact hstore
      · exact hstore
    · simp only [play]
      split
      · next hfree =>
        rw [jobs_put_of_ne ?_]
        · exact hjob
        · -- the thread runs something
          rintro rfl
          have hended := hfree _ hjob
          rw [show (X.state.onto s).ending? = none from Config.ending_onto s hX] at hended
          cases hended
      · exact hjob
  | steps other =>
    by_cases hother : other = thread
    · subst hother
      refine ⟨X.step host other, ?_, ?_, fun Y hY => .step hY⟩
      · rw [play_steps host hjob, hstore]
        exact congrArg Config.store (Config.step_onto host other s hX)
      · rw [play_steps host hjob, jobs_put_self, hstore]
        exact congrArg (fun Z : Config σ goal => some (Job.mk Z.state))
          (Config.step_onto host other s hX)
    · cases hjob' : S.jobs other with
      | none =>
        have hplay : S.play host (.steps other) = S := by simp only [play, hjob']
        rw [hplay]
        exact ⟨X, hstore, hjob, fun Y hY => hY⟩
      | some job =>
        refine ⟨⟨(S.play host (.steps other)).store, X.state⟩, rfl, ?_, fun Y hY => .shift ?_ hY⟩
        · rw [play_steps host hjob', jobs_put_of_ne (Ne.symm hother)]
          exact hjob
        · rw [← hstore, play_steps host hjob']
          exact ⟨hentered, other, job.goal, job.state, hother,
            fun c => hnames other job c hjob', rfl⟩

/-- What a thread of a system runs on top of a stack evolves, with the steps of the other threads as
interference, until it comes to its end. -/
theorem exists_evolves {X : Config σ α} {s : Stack σ α goal} (hstore : S.store = X.store)
    (hjob : S.jobs thread = some ⟨X.state.onto s⟩) (hentered : S.store.Entered)
    {events : List (Event σ)}
    (hnames : ∀ earlier, earlier <+: events → (S.run host earlier).Names) :
    ∃ earlier Y, earlier <+: events ∧
      Config.Evolves host (.ofThreads host thread) X Y ∧
      (S.run host earlier).store = Y.store ∧
      (S.run host earlier).jobs thread = some ⟨Y.state.onto s⟩ ∧
      (earlier = events ∨ Y.ending?.isSome) := by
  induction events generalizing S X with
  | nil => exact ⟨[], X, List.prefix_rfl, .refl X, hstore, hjob, .inl rfl⟩
  | cons e events ih =>
    cases hX : X.ending? with
    | some x =>
      exact ⟨[], X, List.nil_prefix, .refl X, hstore, hjob, .inr (by rw [hX]; rfl)⟩
    | none =>
      have hnow := hnames [] List.nil_prefix
      have hlater : ∀ earlier, earlier <+: events →
          ((S.play host e).run host earlier).Names := fun earlier hearlier =>
        hnames (e :: earlier) ((List.prefix_cons_inj e).mpr hearlier)
      obtain ⟨X', hstore', hjob', hevolves⟩ :=
        exists_evolves_play host hstore hjob hX hentered hnow e
      obtain ⟨earlier, Y, hearlier, hY, hstoreY, hjobY, hend⟩ :=
        ih hstore' hjob' (entered_play hentered hnow e) hlater
      refine ⟨e :: earlier, Y, (List.prefix_cons_inj e).mpr hearlier, hevolves Y hY, hstoreY,
        hjobY, ?_⟩
      rcases hend with rfl | hend
      · exact .inl rfl
      · exact .inr hend

end System

end ScriptMachine
