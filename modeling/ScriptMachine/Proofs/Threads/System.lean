import ScriptMachine.Machine.Step

/-!
# Threads that share a store

Any number of threads run host code on one store. Which thread is next is up to a schedule, so a
statement about all schedules is a statement about all interleavings of the steps of the machine.
-/

namespace ScriptMachine

/-- What a thread is running. -/
structure Job (σ : Type) where
  {goal : Kind}
  state : State σ goal

/-- A store, and what each thread is running on it. -/
structure System (σ : Type) where
  store : Store σ
  jobs : Id .thread → Option (Job σ)

/-- What may happen next. -/
inductive System.Event (σ : Type) where
  /-- A thread begins a program, unless it is running one already. -/
  | begins (thread : Id .thread) {goal : Kind} (p : Program σ goal)
  /-- A thread takes a step. -/
  | steps (thread : Id .thread)

namespace System

variable {σ : Type}

/-- A store on which no thread runs anything. -/
def idle (m : Store σ) : System σ := ⟨m, fun _ => none⟩

/-- A thread has come to another state, and the store may have changed. -/
def put (S : System σ) (thread : Id .thread) (m : Store σ) {goal : Kind} (state : State σ goal) :
    System σ :=
  ⟨m, fun t => if t = thread then some ⟨state⟩ else S.jobs t⟩

/-- A thread runs nothing, or what it ran has come to its end. -/
def IsFree (S : System σ) (thread : Id .thread) : Prop :=
  ∀ job, S.jobs thread = some job → job.state.ending?.isSome

instance (S : System σ) (thread : Id .thread) : Decidable (S.IsFree thread) :=
  decidable_of_iff ((S.jobs thread).all (·.state.ending?.isSome)) <| by
    cases h : S.jobs thread <;> simp [IsFree, h]

variable (host : Host σ)

/-- The system after an event. -/
def play (S : System σ) : Event σ → System σ
  | .begins thread p => if S.IsFree thread then S.put thread S.store (.running p .nil) else S
  | .steps thread =>
    match S.jobs thread with
    | none => S
    | some job =>
      let X := Config.step host thread ⟨S.store, job.state⟩
      S.put thread X.store X.state

/-- The system after a number of events. -/
def run : System σ → List (Event σ) → System σ
  | S, [] => S
  | S, e :: events => run (S.play host e) events

theorem run_append (S : System σ) (events later : List (Event σ)) :
    S.run host (events ++ later) = (S.run host events).run host later := by
  induction events generalizing S with
  | nil => rfl
  | cons e events ih => exact ih (S.play host e)

/-- How many events are of some sort. -/
def tally (sort : System σ → Event σ → Bool) : System σ → List (Event σ) → Nat
  | _, [] => 0
  | S, e :: events => (sort S e).toNat + tally sort (S.play host e) events

theorem tally_append_singleton (sort : System σ → Event σ → Bool) (S : System σ)
    (events : List (Event σ)) (e : Event σ) :
    tally host sort S (events ++ [e]) =
      tally host sort S events + (sort (S.run host events) e).toNat := by
  induction events generalizing S with
  | nil => simp [tally, run]
  | cons e' events ih => rw [List.cons_append, tally, ih, tally, run, Nat.add_assoc]

/-- A step of a thread is a step of the machine on the shared store. -/
theorem play_steps {S : System σ} {thread : Id .thread} {goal : Kind} {state : State σ goal}
    (h : S.jobs thread = some ⟨state⟩) :
    S.play host (.steps thread) =
      S.put thread (Config.step host thread ⟨S.store, state⟩).store
        (Config.step host thread ⟨S.store, state⟩).state := by
  simp only [play, h]

theorem jobs_put_self (S : System σ) (thread : Id .thread) (m : Store σ) {goal : Kind}
    (state : State σ goal) : (S.put thread m state).jobs thread = some ⟨state⟩ := if_pos rfl

theorem jobs_put_of_ne {t thread : Id .thread} (h : t ≠ thread) (S : System σ) (m : Store σ)
    {goal : Kind} (state : State σ goal) : (S.put thread m state).jobs t = S.jobs t := if_neg h

/-- What a thread runs after some thread has come to another state. -/
theorem jobs_put_cases {S : System σ} {t thread : Id .thread} {m : Store σ} {goal : Kind}
    {state : State σ goal} {job : Job σ} (h : (S.put thread m state).jobs t = some job) :
    job = ⟨state⟩ ∨ S.jobs t = some job := by
  by_cases ht : t = thread
  · rw [ht, jobs_put_self] at h
    exact .inl (Option.some.inj h).symm
  · rw [jobs_put_of_ne ht] at h
    exact .inr h

theorem put_self {S : System σ} {thread : Id .thread} {goal : Kind} {state : State σ goal}
    (h : S.jobs thread = some ⟨state⟩) : S.put thread S.store state = S := by
  obtain ⟨m, jobs⟩ := S
  dsimp only at h
  simp only [put, mk.injEq, true_and]
  funext t
  by_cases ht : t = thread
  · rw [if_pos ht, ht, h]
  · rw [if_neg ht]

theorem put_put (S : System σ) (thread : Id .thread) (m m' : Store σ) {goal goal' : Kind}
    (state : State σ goal) (state' : State σ goal') :
    (S.put thread m state).put thread m' state' = S.put thread m' state' := by
  simp only [put, mk.injEq, true_and]
  funext t
  by_cases ht : t = thread
  · rw [if_pos ht, if_pos ht]
  · rw [if_neg ht, if_neg ht, if_neg ht]

/-- A thread that steps alone runs on the machine. -/
theorem run_replicate_steps {S : System σ} {thread : Id .thread} {goal : Kind}
    {state : State σ goal} (h : S.jobs thread = some ⟨state⟩) (n : Nat) :
    S.run host (List.replicate n (.steps thread)) =
      S.put thread (Config.run host thread n ⟨S.store, state⟩).store
        (Config.run host thread n ⟨S.store, state⟩).state := by
  induction n generalizing S state with
  | zero => exact (put_self h).symm
  | succ n ih =>
    have hjob : (S.play host (.steps thread)).jobs thread =
        some ⟨(Config.step host thread ⟨S.store, state⟩).state⟩ := by
      rw [play_steps host h]
      exact jobs_put_self _ _ _ _
    rw [List.replicate_succ, run, ih hjob, play_steps host h, put_put]
    rfl

/-- A free thread begins a program and runs it for a while, alone. -/
theorem run_begins {S : System σ} {thread : Id .thread} (hfree : S.IsFree thread) {goal : Kind}
    (p : Program σ goal) (n : Nat) :
    S.run host (.begins thread p :: List.replicate n (.steps thread)) =
      S.put thread (Config.run host thread n (Config.start S.store p)).store
        (Config.run host thread n (Config.start S.store p)).state := by
  have hbegin : S.play host (.begins thread p) = S.put thread S.store (.running p .nil) :=
    if_pos hfree
  rw [run, hbegin, run_replicate_steps host (jobs_put_self S thread S.store _), put_put]
  rfl

/-- All that an event can do: nothing, if its thread is not free to begin or runs nothing; have a
free thread begin; or have a thread take a step of the machine. -/
theorem play_inversion (S : System σ) (e : Event σ) :
    ((∀ thread, e = .steps thread → S.jobs thread = none) ∧ S.play host e = S) ∨
      (∃ (thread : Id .thread) (goal : Kind) (p : Program σ goal), e = .begins thread p ∧
        S.IsFree thread ∧ S.play host e = S.put thread S.store (.running p .nil)) ∨
      ∃ (thread : Id .thread) (job : Job σ), e = .steps thread ∧ S.jobs thread = some job ∧
        S.play host e = S.put thread (Config.step host thread ⟨S.store, job.state⟩).store
          (Config.step host thread ⟨S.store, job.state⟩).state := by
  cases e with
  | begins thread p =>
    simp only [play]
    split
    · next hfree => exact .inr (.inl ⟨thread, _, p, rfl, hfree, rfl⟩)
    · exact .inl ⟨nofun, rfl⟩
  | steps thread =>
    cases hjob : S.jobs thread with
    | none =>
      refine .inl ⟨fun t ht => ?_, by simp only [play, hjob]⟩
      cases ht
      exact hjob
    | some job => exact .inr (.inr ⟨thread, job, rfl, hjob, play_steps host hjob⟩)

/-- An event either leaves the store alone or is a step of the machine. -/
theorem play_cases (S : System σ) (e : Event σ) :
    (S.play host e).store = S.store ∨
      ∃ (thread : Id .thread) (job : Job σ), e = .steps thread ∧ S.jobs thread = some job ∧
        (S.play host e).store = (Config.step host thread ⟨S.store, job.state⟩).store := by
  rcases S.play_inversion host e with ⟨-, hplay⟩ | ⟨thread, goal, p, rfl, -, hplay⟩ |
    ⟨thread, job, rfl, hjob, hplay⟩ <;> rw [hplay]
  · exact .inl rfl
  · exact .inl rfl
  · exact .inr ⟨thread, job, rfl, hjob, rfl⟩

end System

end ScriptMachine
