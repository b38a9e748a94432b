import ScriptMachine.Proofs.Callers.Beneath
import ScriptMachine.Proofs.Capture.Held
import ScriptMachine.Proofs.Capture.Once
import ScriptMachine.Proofs.Forwarding.Agreement

/-!
# A call leaves its caller as it was

While a callee runs, the frame of its caller and the frames beneath that one lie still, whatever
the callee calls, throws and catches. They need not stay where they are: a continuation may take
them, and any thread may run them again. `System.Lasts` follows them through a history, and
`System.call_leaves_caller` says that they are found as the call left them at every moment of it,
until they are given what the callee returns or throws.
-/

namespace ScriptMachine

variable {σ : Type} {α β goal : Kind}

/-- A call of an interpreted function pushes a frame, if there is room for it. The frame of the
caller loses the operands of the call and is behind the instruction. -/
theorem Activation.execute_call {a : Activation} {f : Frame} {callers : List Frame}
    {count : UInt16} {callee : Executable} {receiver : Value} {args operands : List Value}
    {m : Store σ} (hframes : a.frames = f :: callers)
    (hcode : f.body.routine.code[f.position]? = some (.call count))
    (hoperands : f.operands = args.reverse ++ receiver :: .executable callee :: operands)
    (hcount : args.length = count.toNat) (hplain : callee.routine.isGenerator = false) :
    a.execute m =
      if a.limit ≤ a.frames.length then
        (.flow (.leave (.error (.fault (.stackOverflow a.limit)))), m)
      else
        (.flow (.next { a with frames := Frame.enter callee f.scope receiver args ::
          { f with position := f.position + 1, operands } :: callers }), m) := by
  have hlength : args.reverse.length = count.toNat := by rw [List.length_reverse, hcount]
  have hargs : (f.operands.take count.toNat).reverse = args := by
    rw [hoperands, List.take_left' hlength, List.reverse_reverse]
  have hrest : f.operands.drop count.toNat = receiver :: .executable callee :: operands := by
    rw [hoperands, List.drop_left' hlength]
  simp only [execute, hframes, Frame.fetch?, hcode, Option.map_some, perform, call,
    Frame.popMany, Frame.pop, hargs, hrest, List.headD_cons, List.tail_cons, hplain,
    Bool.false_eq_true, if_false, List.length_cons]

/-! ## Frames that a continuation holds -/

namespace Config

variable (host : Host σ) (thread : Id .thread) {m : Store σ} {k : Id .continuation}
  {frames : List Frame}

theorem held_fail (h : m.continuations.get? k = some (.captured frames)) (a : Activation)
    (e : Abrupt) : (a.fail e m).2.continuations.get? k = some (.captured frames) := by
  cases e with
  | suspended p =>
    simp only [Activation.fail, Activation.capture]
    split
    · exact h
    · split
      · exact h
      · dsimp only
        split
        · exact h
        · next hfree =>
          -- the continuation that takes frames here held none before
          have hne : k ≠ p.continuation := by
            rintro rfl
            rw [Table.get, h] at hfree
            exact hfree rfl
          show (m.continuations.set p.continuation _).get? k = _
          rw [Table.set, Table.get?_modify, if_neg hne]
          exact h
  | thrown | aborted | fault => exact h

theorem held_take (h : m.continuations.get? k = some (.captured frames)) (t : Task σ α β)
    (x : α.Result) (s : Stack σ β goal) :
    (take host thread m t x s).store.continuations.get? k = some (.captured frames) := by
  cases t with
  | called a =>
    cases x with
    | ok v =>
      simp only [take, continuations_follow]
      exact h
    | error e =>
      simp only [take, continuations_follow]
      exact held_fail h a e
  | observed a =>
    cases x with
    | ok u => exact h
    | error reason =>
      simp only [take, continuations_follow]
      exact h
  | bodyEnd g =>
    simp only [take, endBody]
    split <;> exact h
  | callEnd =>
    cases x with
    | ok exit => cases exit <;> exact h
    | error e => exact h
  | flattenResult | recordStep | reportStep | bracketBody => cases x <;> exact h
  | notifying event c rest => cases rest <;> exact h
  | bindMade =>
    simp only [take]
    split
    · exact h
    · rw [continuations_beginBind]
      exact h
  | release =>
    simp only [take, continuations_beginExit]
    exact h
  | program | clearTopCall | restoreCaptures | entered | left | released | repanic | guarded =>
    exact h

theorem held_beginCall (h : m.continuations.get? k = some (.captured frames)) {f : Callable}
    (hf : ∀ v, f ≠ .continuation k v) (site : CallSite) (s : Stack σ .completion goal) :
    (beginCall host m f site s).store.continuations.get? k = some (.captured frames) := by
  cases f with
  | executable e =>
    simp only [beginCall]
    split
    · unfold interpret
      dsimp only
      split <;> exact h
    · rw [continuations_beginOutermost]
      exact h
  | hostFunction f => exact h
  | resumption r g op =>
    simp only [beginCall, continuations_beginStep]
    exact h
  | continuation k' v =>
    have hne : k ≠ k' := fun hk => hf v (by rw [hk])
    simp only [beginCall, beginContinuation, Store.takeFrames]
    cases hget : m.continuations.get k' with
    | captured taken =>
      have hset : (m.continuations.set k' .resumed).get? k = some (.captured frames) := by
        rw [Table.set, Table.get?_modify, if_neg hne]
        exact h
      cases taken <;> exact hset
    | pending | resumed => exact h

/-- Frames that a continuation holds stay there until it is called. -/
theorem held_step {X : Config σ goal} (h : X.store.continuations.get? k = some (.captured frames))
    (hcalled : ∀ v site s, X.state ≠ .calling (.continuation k v) site s) :
    (X.step host thread).store.continuations.get? k = some (.captured frames) := by
  obtain ⟨m, state⟩ := X
  cases state with
  | running p s =>
    cases p with
    | ask q next => exact get?_ask host thread m q h
    | act a next =>
      simp only [step, runProgram, continuations_beginAction]
      exact h
    | bracket f body next =>
      simp only [step, runProgram, continuations_beginEnter]
      exact h
    | finish | panic | guard => exact h
  | calling f site s =>
    exact held_beginCall host h (fun v hf => hcalled v site s (by rw [hf])) site s
  | counting a s =>
    simp only [step, count]
    split <;> exact h
  | executing a s =>
    simp only [step, continuations_execute]
    exact h
  | returning x s =>
    cases s with
    | nil => exact h
    | cons t s => exact held_take host thread h t x s
  | panicking s =>
    cases s with
    | nil => exact h
    | cons t s =>
      cases t with
      | release =>
        simp only [step, passPanic, continuations_beginExit]
        exact h
      | _ => exact h
  | crashed => exact h

/-- When it is called they come to run. -/
theorem step_continuation {X : Config σ goal} {f : Frame} {callers : List Frame} {v : Value}
    {site : CallSite} {s : Stack σ .completion goal}
    (h : X.store.continuations.get? k = some (.captured (f :: callers)))
    (hX : X.state = .calling (.continuation k v) site s) :
    ∃ a, a.frames = f.push v :: callers ∧
      (X.step host thread).state.Seats a (.cons .callEnd s) := by
  obtain ⟨m, state⟩ := X
  obtain rfl : state = _ := hX
  have hget : m.continuations.get k = .captured (f :: callers) := by
    rw [Table.get, h]
    rfl
  simp only [step, beginCall, beginContinuation, Store.takeFrames, hget]
  exact ⟨_, rfl, .inl ⟨rfl, rfl⟩⟩

end Config

namespace System

/-! ## Calls under way -/

/-- A place for the frames of an activation. -/
inductive Place (σ : Type)
  /-- They run or wait on a stack of a thread. -/
  | seat (thread : Id .thread) {goal : Kind} (s : Stack σ .exit goal)
  /-- A continuation holds them. -/
  | kept (k : Id .continuation)

/-- Frames are at a place. -/
def Has (S : System σ) (frames : List Frame) : Place σ → Prop
  | .seat thread s => ∃ state b, S.jobs thread = some ⟨state⟩ ∧ state.Seats b s ∧ b.frames = frames
  | .kept k => S.store.continuations.get? k = some (.captured frames)

/-- Other frames are at a place beneath some frame. -/
def Bears (S : System σ) (beneath : List Frame) (p : Place σ) : Prop :=
  ∃ above, above ≠ [] ∧ S.Has (above ++ beneath) p

/-- A continuation moves frames when an activation is answered with it and when it is called. All
other frames stay in place. -/
inductive Carries (host : Host σ) (S : System σ) : Event σ → Place σ → Place σ → Prop
  | stays (e : Event σ) (p : Place σ) : Carries host S e p p
  | captured {thread : Id .thread} {κ : Kind} {state : State σ κ} {b : Activation}
      {s : Stack σ .exit κ} {k : Id .continuation} (hjob : S.jobs thread = some ⟨state⟩)
      (hgiven : Config.GivesFrames b s k ⟨S.store, state⟩
        (Config.step host thread ⟨S.store, state⟩)) :
      Carries host S (.steps thread) (.seat thread s) (.kept k)
  | resumed {thread : Id .thread} {k : Id .continuation} {v : Value} {site : CallSite}
      {κ : Kind} {s : Stack σ .completion κ}
      (hjob : S.jobs thread = some ⟨.calling (.continuation k v) site s⟩) :
      Carries host S (.steps thread) (.kept k) (.seat thread (.cons .callEnd s))

/-- An event is the step that ends a call. -/
inductive Finishes (host : Host σ) (caller : Frame) (callers : List Frame) (S : System σ) :
    Event σ → Place σ → Prop
  | step {thread : Id .thread} {κ : Kind} {state : State σ κ} {b : Activation}
      {s : Stack σ .exit κ} (hjob : S.jobs thread = some ⟨state⟩) (hseats : state.Seats b s)
      (hstep : Config.Finishes b caller callers s ⟨S.store, state⟩
        (Config.step host thread ⟨S.store, state⟩)) :
      Finishes host caller callers S (.steps thread) (.seat thread s)

/-- At every moment of a history frames lie beneath others, at a place from which the events
carry them on. -/
inductive Lasts (host : Host σ) (beneath : List Frame) :
    System σ → Place σ → List (Event σ) → Place σ → Prop
  | now {S : System σ} {p : Place σ} (h : S.Bears beneath p) : Lasts host beneath S p [] p
  | next {S : System σ} {p q r : Place σ} {e : Event σ} {events : List (Event σ)}
      (h : S.Bears beneath p) (hcarries : S.Carries host e p q)
      (hrest : Lasts host beneath (S.play host e) q events r) :
      Lasts host beneath S p (e :: events) r

variable (host : Host σ) {S : System σ} {caller : Frame} {callers : List Frame}

/-- Threads do not reach each other's activations. -/
theorem Has.of_other {frames : List Frame} {thread : Id .thread} {s : Stack σ .exit goal}
    (h : S.Has frames (.seat thread s)) {e : Event σ} (he : e ≠ .steps thread) :
    (S.play host e).Has frames (.seat thread s) := by
  obtain ⟨state, b, hjob, hseats, hframes⟩ := h
  have hother (t : Id .thread) (ht : thread ≠ t) {goal' : Kind} (m : Store σ)
      (state' : State σ goal') : (S.put t m state').Has frames (.seat thread s) :=
    ⟨state, b, (jobs_put_of_ne ht S m state').trans hjob, hseats, hframes⟩
  cases e with
  | begins t p =>
    simp only [play]
    split
    · next hfree =>
      refine hother t ?_ _ _
      -- a thread on which an activation is under way is not free
      rintro rfl
      have hended := hfree _ hjob
      have hopen := Config.ending_eq_none_of_seats (X := ⟨S.store, state⟩) hseats
      rw [show state.ending? = none from hopen] at hended
      cases hended
    · exact ⟨state, b, hjob, hseats, hframes⟩
  | steps t =>
    have ht : thread ≠ t := fun ht => he (by rw [ht])
    simp only [play]
    split
    · exact ⟨state, b, hjob, hseats, hframes⟩
    · exact hother t ht _ _

/-- An event leaves the frames beneath a callee as they are and carries them on, unless it ends the
call. -/
theorem play_bears {p : Place σ} (h : S.Bears (caller :: callers) p) (e : Event σ) :
    (∃ q, S.Carries host e p q ∧ (S.play host e).Bears (caller :: callers) q) ∨
      S.Finishes host caller callers e p := by
  obtain ⟨above, habove, hhas⟩ := h
  cases p with
  | seat thread s =>
    -- only a step of its own thread reaches the activation
    by_cases he : e = .steps thread
    · subst he
      obtain ⟨state, b, hjob, hseats, hframes⟩ := hhas
      have hplay := play_steps host hjob
      have hjob' := jobs_put_self S thread
        (Config.step host thread ⟨S.store, state⟩).store
        (Config.step host thread ⟨S.store, state⟩).state
      rw [← hplay] at hjob'
      cases Config.step_stepsAbove host thread (X := ⟨S.store, state⟩) hframes habove hseats with
      | above hframes' habove' hY =>
        exact .inl ⟨_, .stays _ _, _, habove', _, _, hjob', hY, hframes'⟩
      | given hgiven =>
        refine .inl ⟨_, .captured hjob hgiven, above, habove, ?_⟩
        rw [hplay, ← hframes]
        exact hgiven.held
      | finished hstep => exact .inr (.step hjob hseats hstep)
    · exact .inl ⟨_, .stays _ _, above, habove, hhas.of_other host he⟩
  | kept k =>
    -- frames in a continuation neither return nor throw; they leave it when it is called
    left
    obtain ⟨f, rest, rfl⟩ := List.exists_cons_of_ne_nil habove
    have hstays (h : (S.play host e).store.continuations.get? k =
        some (.captured (f :: rest ++ caller :: callers))) :
        ∃ q, S.Carries host e (.kept k) q ∧ (S.play host e).Bears (caller :: callers) q :=
      ⟨_, .stays _ _, f :: rest, habove, h⟩
    rcases S.play_cases host e with hstore | ⟨thread, job, rfl, hjob, hstore⟩
    · refine hstays ?_
      rw [hstore]
      exact hhas
    · obtain ⟨state⟩ := job
      by_cases hcalled : ∃ v site s, state = .calling (.continuation k v) site s
      · obtain ⟨v, site, s, rfl⟩ := hcalled
        obtain ⟨b, hframes, hseats⟩ := Config.step_continuation host thread
          (X := ⟨S.store, .calling (.continuation k v) site s⟩) hhas rfl
        refine ⟨_, .resumed hjob, f.push v :: rest, List.cons_ne_nil _ _, ?_⟩
        rw [play_steps host hjob]
        exact ⟨_, b, jobs_put_self _ _ _ _, hseats, hframes⟩
      · refine hstays ?_
        rw [hstore]
        refine Config.held_step host thread (X := ⟨S.store, state⟩) hhas ?_
        intro v site s hstate
        exact hcalled ⟨v, site, s, hstate⟩

/-- The frames beneath a callee last through a history, or until an event of it ends the call. -/
theorem lasts_or_finishes {p : Place σ} (h : S.Bears (caller :: callers) p)
    (events : List (Event σ)) :
    (∃ q, S.Lasts host (caller :: callers) p events q) ∨
      ∃ past e later q, events = past ++ e :: later ∧
        S.Lasts host (caller :: callers) p past q ∧
        (S.run host past).Finishes host caller callers e q := by
  -- the place moves along with the events, so it varies in the induction
  induction events generalizing S p with
  | nil => exact .inl ⟨p, .now h⟩
  | cons e events ih =>
    rcases play_bears host h e with ⟨q, hcarries, hnext⟩ | hfinishes
    · rcases ih hnext with ⟨r, hrest⟩ | ⟨past, e', later, r, rfl, hrest, hfinishes⟩
      · exact .inl ⟨r, .next h hcarries hrest⟩
      · exact .inr ⟨e :: past, e', later, r, rfl, .next h hcarries hrest, hfinishes⟩
    · exact .inr ⟨[], e, events, p, rfl, .now h, hfinishes⟩

/-- Take any threads on any store, one of which is about to call an interpreted function that is
no generator function. The call pushes the frame of the callee on the frame `caller`, which is the
frame before the call without the operands of the call and behind the instruction; without room
for another frame the activation is left instead.

From then on, through all events of all threads, `caller` and the frames beneath it are found
beneath other frames, on the stack of the call or wherever a continuation has carried them, until
an event ends the call. If the frame of the callee returns a value, that value is pushed on
`caller`. If a value is thrown out of the frames on top, it is thrown into `caller` and the frames
beneath it as they are. Otherwise they are dropped with the whole activation. -/
theorem call_leaves_caller {thread : Id .thread} {a : Activation} {s : Stack σ .exit goal}
    {f : Frame} {count : UInt16} {callee : Executable} {receiver : Value}
    {args operands : List Value} (hjob : S.jobs thread = some ⟨.executing a s⟩)
    (hframes : a.frames = f :: callers)
    (hcode : f.body.routine.code[f.position]? = some (.call count))
    (hoperands : f.operands = args.reverse ++ receiver :: .executable callee :: operands)
    (hcount : args.length = count.toNat) (hplain : callee.routine.isGenerator = false) :
    let caller : Frame := { f with position := f.position + 1, operands }
    let called : System σ := S.play host (.steps thread)
    (a.limit ≤ a.frames.length ∧ ∃ m, called = S.put thread m
      (.returning (κ := .exit) (.error (.fault (.stackOverflow a.limit))) s)) ∨
    (a.frames.length < a.limit ∧
      called.Has (Frame.enter callee f.scope receiver args :: caller :: callers)
        (.seat thread s) ∧
      ∀ events, (∃ q, called.Lasts host (caller :: callers) (.seat thread s) events q) ∨
        ∃ past e later q, events = past ++ e :: later ∧
          called.Lasts host (caller :: callers) (.seat thread s) past q ∧
          (called.run host past).Finishes host caller callers e q) := by
  intro caller called
  have hcalled : called = _ := play_steps host hjob
  have hexecute := Activation.execute_call (m := S.store) hframes hcode hoperands hcount hplain
  simp only [Config.step, Config.execute] at hcalled
  by_cases hfull : a.limit ≤ a.frames.length
  · rw [hexecute, if_pos hfull] at hcalled
    exact .inl ⟨hfull, _, hcalled⟩
  · rw [hexecute, if_neg hfull] at hcalled
    have hhas : called.Has (Frame.enter callee f.scope receiver args :: caller :: callers)
        (.seat thread s) := by
      rw [hcalled]
      exact ⟨_, _, jobs_put_self _ _ _ _, .inl ⟨rfl, rfl⟩, rfl⟩
    have hbears : called.Bears (caller :: callers) (.seat thread s) :=
      ⟨[Frame.enter callee f.scope receiver args], List.cons_ne_nil _ _, hhas⟩
    exact .inr ⟨Nat.lt_of_not_le hfull, hhas, lasts_or_finishes host hbears⟩

/-! ## A callee that is captured -/

/-- A function is about to call another one, with a host function that captures. -/
def callingActivation : Activation :=
  { Config.passing false with frames := [Config.passingTo (.executable Config.callArgument)] }

/-- A thread runs it and no other thread runs anything. -/
def aboutToCall : System Unit :=
  (idle Config.whileRunning).put ⟨0⟩ Config.whileRunning
    (.executing callingActivation (.cons .callEnd Config.outermostCall))

theorem jobs_aboutToCall : aboutToCall.jobs ⟨0⟩ =
    some ⟨.executing callingActivation (.cons .callEnd Config.outermostCall)⟩ := rfl

/-- The thread goes on until it has reported the continuation, and then another thread resumes
it. -/
def resumedElsewhere : List (Event Unit) :=
  List.replicate 14 (.steps ⟨0⟩) ++ .begins ⟨1⟩ (resumeOn ⟨0⟩) :: List.replicate 4 (.steps ⟨1⟩)

/-- What is under way once the call has been made. -/
def afterCall : Config Unit .completion :=
  ⟨Config.whileRunning, .counting
    { Config.passing false with frames :=
        [Frame.enter Config.callArgument ⟨0⟩ .undefined [.hostFunction ⟨⟨1⟩, "g"⟩],
          Config.passingFrame 4 []] }
    (.cons .callEnd Config.outermostCall)⟩

theorem play_aboutToCall : aboutToCall.play Config.capturingHost (.steps ⟨0⟩) =
    (idle Config.whileRunning).put ⟨0⟩ afterCall.store afterCall.state := by
  rw [play_steps _ jobs_aboutToCall, aboutToCall, put_put]
  rfl

/-- The callee returns true on the other thread, to its caller as it was. -/
theorem has_resumedElsewhere :
    ((aboutToCall.play Config.capturingHost (.steps ⟨0⟩)).run Config.capturingHost
      resumedElsewhere).Has [Config.passingFrame 4 [.bool true]]
        (.seat ⟨1⟩ (.cons .callEnd (beneathAttempt ⟨0⟩))) := by
  rw [play_aboutToCall, resumedElsewhere, run_append,
    run_replicate_steps _ (jobs_put_self _ _ _ _), put_put, run_begins _ ?_ (resumeOn ⟨0⟩) 4]
  · exact ⟨_, _, jobs_put_self _ _ _ _, .inl ⟨rfl, rfl⟩, rfl⟩
  · rintro job ⟨⟩

/-- While the callee is captured and resumed its caller stays as it was, and then it is given what
the callee returns. -/
theorem call_leaves_caller_resumed :
    let called : System Unit := aboutToCall.play Config.capturingHost (.steps ⟨0⟩)
    let caller : Frame := Config.passingFrame 4 []
    let home : Place Unit := .seat ⟨0⟩ (.cons .callEnd Config.outermostCall)
    called.Has [Frame.enter Config.callArgument ⟨0⟩ .undefined [.hostFunction ⟨⟨1⟩, "g"⟩], caller]
        home ∧
      ((∃ q, called.Lasts Config.capturingHost [caller] home resumedElsewhere q) ∨
        ∃ past e later q, resumedElsewhere = past ++ e :: later ∧
          called.Lasts Config.capturingHost [caller] home past q ∧
          (called.run Config.capturingHost past).Finishes Config.capturingHost caller [] e q) ∧
      (called.run Config.capturingHost resumedElsewhere).Has [caller.push (.bool true)]
        (.seat ⟨1⟩ (.cons .callEnd (beneathAttempt ⟨0⟩))) := by
  intro called caller home
  have hcode : (Config.passingTo (.executable Config.callArgument)).body.routine.code[3]? =
      some (.call 1) := rfl
  have hoperands : (Config.passingTo (.executable Config.callArgument)).operands =
      [Value.hostFunction ⟨⟨1⟩, "g"⟩].reverse ++
        .undefined :: .executable Config.callArgument :: [] := rfl
  rcases call_leaves_caller Config.capturingHost jobs_aboutToCall rfl hcode hoperands rfl rfl with
    ⟨hfull, -⟩ | ⟨-, hhas, hevents⟩
  · exact absurd hfull (by decide)
  · exact ⟨hhas, hevents resumedElsewhere, has_resumedElsewhere⟩

end System

end ScriptMachine
