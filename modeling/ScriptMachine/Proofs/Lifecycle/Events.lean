import Mathlib.Data.List.Chain
import ScriptMachine.Proofs.Capture.Transparency
import ScriptMachine.Proofs.Lifecycle.Notices

/-!
# The life of a context as listeners see it

Any number of threads run host code on one store. The events of a context are the changes of what
it is bound to; each is for the listeners that are registered when it comes. If the operations of
one thread are not disturbed while listeners are told, the notices that are delivered are those of
the events, in order (`System.told_of_orderly`), so a listener that stays registered sees a context
being created and released in turn.
-/

namespace ScriptMachine

variable {σ : Type} {goal : Kind}

/-! ## Lists of events and notices -/

namespace ContextEvent

/-- Created and released in turn, beginning with created. -/
def Alternate (events : List ContextEvent) : Prop :=
  events.IsChain (· ≠ ·) ∧ events.head? ≠ some .released

theorem Alternate.of_isPrefix {events earlier : List ContextEvent} (h : Alternate events)
    (hearlier : earlier <+: events) : Alternate earlier := by
  obtain ⟨later, rfl⟩ := hearlier
  refine ⟨h.1.left_of_append, fun hhead => h.2 ?_⟩
  rw [List.head?_append, hhead]
  rfl

end ContextEvent

/-- The events that a listener is told about in a list of notices. -/
def seen (l : Id .listener) (told : List Notice) : List ContextEvent :=
  (told.filter (·.listener = l)).map (·.event)

theorem seen_append (l : Id .listener) (told later : List Notice) :
    seen l (told ++ later) = seen l told ++ seen l later := by
  simp [seen]

theorem seen_notices (l : Id .listener) (event : ContextEvent) (listeners : List (Id .listener)) :
    seen l (notices event listeners) = List.replicate (listeners.count l) event := by
  induction listeners with
  | nil => rfl
  | cons first listeners ih =>
    rw [notices, List.map_cons, ← List.singleton_append, seen_append, ← notices, ih]
    by_cases h : first = l
    · simp [seen, h, List.replicate_succ]
    · simp [seen, h]

/-- A listener is told about each event as often as it is registered when the event comes. -/
theorem seen_flatMap (l : Id .listener) (events : List (ContextEvent × List (Id .listener))) :
    seen l (events.flatMap fun x => notices x.1 x.2) =
      events.flatMap fun x => List.replicate (x.2.count l) x.1 := by
  induction events with
  | nil => rfl
  | cons x events ih =>
    rw [List.flatMap_cons, seen_append, seen_notices, ih]
    rfl

theorem flatMap_replicate_of_once {l : Id .listener}
    {events : List (ContextEvent × List (Id .listener))} (h : ∀ x ∈ events, x.2.count l = 1) :
    (events.flatMap fun x => List.replicate (x.2.count l) x.1) = events.map (·.1) := by
  induction events with
  | nil => rfl
  | cons x events ih =>
    obtain ⟨hx, hevents⟩ := List.forall_mem_cons.mp h
    rw [List.flatMap_cons, hx, ih hevents]
    rfl

/-! ## Threads -/

namespace System

/-- The notices about a context that are due on the stack of a thread. -/
def notices (S : System σ) (c : Id .context) (thread : Id .thread) : List Notice :=
  (S.jobs thread).elim [] fun job => job.state.notices c

/-- The notice about a context that an event delivers. -/
def notice? (S : System σ) (c : Id .context) : Event σ → Option Notice
  | .begins _ _ => none
  | .steps thread => (S.jobs thread).bind fun job => job.state.notice? c

variable (host : Host σ)

/-- The notices about a context that are delivered, in order. -/
def told (c : Id .context) : System σ → List (Event σ) → List Notice
  | _, [] => []
  | S, e :: events => (S.notice? c e).toList ++ told c (S.play host e) events

/-- The events of a context, each with the listeners that its factory has when it comes. -/
def lifecycle (c : Id .context) :
    System σ → List (Event σ) → List (ContextEvent × List (Id .listener))
  | _, [] => []
  | S, e :: events =>
    ((S.store.event? (S.play host e).store c).map fun event =>
      (event, (S.store.factoryOf c).listeners)).toList ++ lifecycle c (S.play host e) events

/-- A thread takes a step. The context that it is about to bind was made; it is not leaving a
listener by a panic; and it binds or releases a context only when nobody is being told about it.
The last is so if enters and exits are atomic and listeners perform none. -/
def Admits (c : Id .context) (S : System σ) : Event σ → Prop
  | .begins _ _ => True
  | .steps thread => ∀ job, S.jobs thread = some job →
    (∀ d ∈ job.state.binds?, S.store.Knows d) ∧ job.state.isListenerPanic = false ∧
      ((S.store.event? (S.play host (.steps thread)).store c).isSome → ∀ t, S.notices c t = [])

/-- All steps of a run are as they should be. -/
def Orderly (c : Id .context) : System σ → List (Event σ) → Prop
  | _, [] => True
  | S, e :: events => Admits host c S e ∧ Orderly c (S.play host e) events

/-- What is due about a context is due on one thread. -/
def Owes (S : System σ) (c : Id .context) (owed : List Notice) : Prop :=
  ∃ thread, S.notices c thread = owed ∧ ∀ t, t ≠ thread → S.notices c t = []

variable {host : Host σ} {S : System σ} {c : Id .context} {owed : List Notice}

theorem notices_put_self (S : System σ) (c : Id .context) (thread : Id .thread) (m : Store σ)
    (state : State σ goal) : (S.put thread m state).notices c thread = state.notices c := by
  rw [notices, jobs_put_self]
  rfl

theorem notices_put_of_ne {t thread : Id .thread} (h : t ≠ thread) (S : System σ)
    (c : Id .context) (m : Store σ) (state : State σ goal) :
    (S.put thread m state).notices c t = S.notices c t := by
  rw [notices, jobs_put_of_ne h]
  rfl

/-- A thread that runs nothing owes nothing. -/
theorem notices_of_isFree {thread : Id .thread} (h : S.IsFree thread) (c : Id .context) :
    S.notices c thread = [] := by
  cases hjob : S.jobs thread with
  | none => rw [notices, hjob]; rfl
  | some job =>
    obtain ⟨ending, hending⟩ := Option.isSome_iff_exists.mp (h job hjob)
    rw [notices, hjob]
    exact job.state.notices_of_ending? c hending

theorem notice?_of_idle (c : Id .context) {e : Event σ}
    (h : ∀ thread, e = .steps thread → S.jobs thread = none) : S.notice? c e = none := by
  cases e with
  | begins thread p => rfl
  | steps thread =>
    rw [notice?, h thread rfl]
    rfl

theorem moves_of_admits (hS : S.store.Entered) {e : Event σ} (he : Admits host c S e) :
    ∃ thread, S.store.Moves thread (S.play host e).store := by
  rcases S.play_cases host e with hstore | ⟨thread, job, rfl, hjob, hstore⟩
  · exact ⟨⟨0⟩, .stays (hstore ▸ .refl S.store)⟩
  · refine ⟨thread, ?_⟩
    rw [hstore]
    exact Config.bindings_step host (X := ⟨S.store, job.state⟩) hS (he job hjob).1

theorem entered_of_admits (hS : S.store.Entered) {e : Event σ} (he : Admits host c S e) :
    (S.play host e).store.Entered := by
  obtain ⟨thread, hmoves⟩ := moves_of_admits hS he
  exact hmoves.entered hS

/-- One event delivers the first notice that is due or calls for those of its own. -/
theorem Owes.play (howed : S.Owes c owed) (hS : S.store.Entered) {e : Event σ}
    (he : Admits host c S e) :
    ∃ owed', (S.play host e).Owes c owed' ∧
      (S.notice? c e).toList ++ owed' = owed ++ S.store.announces (S.play host e).store c := by
  obtain ⟨debtor, rfl, hothers⟩ := howed
  rcases S.play_inversion host e with ⟨hidle, hplay⟩ | ⟨thread, goal, p, rfl, hfree, hplay⟩ |
    ⟨thread, job, rfl, hjob, hplay⟩
  · refine ⟨S.notices c debtor, ?_, ?_⟩
    · rw [hplay]
      exact ⟨debtor, rfl, hothers⟩
    · rw [hplay, (Store.SameBindings.refl S.store).announces, List.append_nil,
        notice?_of_idle c hidle]
      rfl
  · refine ⟨S.notices c debtor, ?_, ?_⟩
    · -- The thread that begins owed nothing, and owes nothing yet.
      have hnone (t : Id .thread) :
          (S.put thread S.store (.running p .nil)).notices c t = S.notices c t := by
        by_cases ht : t = thread
        · subst ht
          rw [notices_put_self, notices_of_isFree hfree]
          rfl
        · exact notices_put_of_ne ht S c _ _
      rw [hplay]
      exact ⟨debtor, hnone debtor, fun t ht => (hnone t).trans (hothers t ht)⟩
    · have hstore : (S.play host (.begins thread p)).store = S.store := by rw [hplay]; rfl
      rw [hstore, (Store.SameBindings.refl S.store).announces, List.append_nil]
      rfl
  · obtain ⟨hknown, hcalm, hapart⟩ := he job hjob
    have hstep := Config.notices_step host thread c (X := ⟨S.store, job.state⟩) hS hknown hcalm
    have hnotice : S.notice? c (.steps thread) = job.state.notice? c := by
      rw [notice?, hjob]
      rfl
    have hnotices : S.notices c thread = job.state.notices c := by
      rw [notices, hjob]
      rfl
    rw [hnotice]
    rw [hplay] at hapart ⊢
    rw [← hnotices] at hstep
    dsimp only [put] at hapart ⊢
    cases hevent : S.store.event? (Config.step host thread ⟨S.store, job.state⟩).store c with
    | some event =>
      -- Nobody owed anything, and the notices of the event are due on the thread.
      have hquiet := hapart (by rw [hevent]; rfl)
      refine ⟨_, ⟨thread, notices_put_self S c thread _ _, fun t ht =>
        (notices_put_of_ne ht S c _ _).trans (hquiet t)⟩, ?_⟩
      rw [hstep, hquiet thread, hquiet debtor, List.append_nil, List.nil_append]
    | none =>
      rw [Store.announces, hevent, Option.elim_none] at hstep ⊢
      by_cases hthread : debtor = thread
      · subst hthread
        refine ⟨_, ⟨debtor, notices_put_self S c debtor _ _, fun t ht =>
          (notices_put_of_ne ht S c _ _).trans (hothers t ht)⟩, ?_⟩
        rw [hstep, List.append_nil, List.nil_append]
      · rw [hothers thread (Ne.symm hthread), List.nil_append] at hstep
        obtain ⟨hnone, hafter⟩ := List.append_eq_nil_iff.mp hstep
        refine ⟨S.notices c debtor, ⟨debtor, notices_put_of_ne hthread S c _ _, fun t ht => ?_⟩,
          by rw [hnone, List.append_nil, List.nil_append]⟩
        by_cases hself : t = thread
        · rw [hself]
          exact (notices_put_self S c thread _ _).trans hafter
        · exact (notices_put_of_ne hself S c _ _).trans (hothers t ht)

theorem Owes.run {events : List (Event σ)} (howed : S.Owes c owed) (hS : S.store.Entered)
    (horderly : Orderly host c S events) :
    ∃ owed', (S.run host events).Owes c owed' ∧
      told host c S events ++ owed' =
        owed ++ (lifecycle host c S events).flatMap fun x => ScriptMachine.notices x.1 x.2 := by
  induction events generalizing S owed with
  | nil => exact ⟨owed, howed, (List.append_nil owed).symm⟩
  | cons e events ih =>
    obtain ⟨he, hevents⟩ := horderly
    obtain ⟨between, hbetween, hfirst⟩ := howed.play hS he
    obtain ⟨owed', howed', hrest⟩ := ih hbetween (entered_of_admits hS he) hevents
    refine ⟨owed', howed', ?_⟩
    have hannounces : S.store.announces (S.play host e).store c =
        (((S.store.event? (S.play host e).store c).map fun event =>
          (event, (S.store.factoryOf c).listeners)).toList).flatMap
            fun x => ScriptMachine.notices x.1 x.2 := by
      rw [Store.announces]
      cases S.store.event? (S.play host e).store c <;> simp
    rw [told, List.append_assoc, hrest, ← List.append_assoc, hfirst, lifecycle,
      List.flatMap_append, ← hannounces, List.append_assoc]

theorem lifecycle_alternates {events : List (Event σ)} (hS : S.store.Entered)
    (horderly : Orderly host c S events) :
    ((lifecycle host c S events).map (·.1)).IsChain (· ≠ ·) ∧
      ∀ event ∈ ((lifecycle host c S events).map (·.1)).head?,
        event = .created ↔ (S.store.context c).boundTo = none := by
  induction events generalizing S with
  | nil => exact ⟨.nil, nofun⟩
  | cons e events ih =>
    obtain ⟨he, hevents⟩ := horderly
    obtain ⟨hchain, hhead⟩ := ih (entered_of_admits hS he) hevents
    cases hevent : S.store.event? (S.play host e).store c with
    | none =>
      have hsame := ContextEvent.eq_of_between?_eq_none hevent
      rw [lifecycle, hevent]
      exact ⟨hchain, fun event h => by rw [hhead event h, hsame]⟩
    | some event =>
      obtain ⟨thread, hmoves⟩ := moves_of_admits hS he
      obtain ⟨hbefore, hafter⟩ := hmoves.eq_created_iff hS hevent
      rw [lifecycle, hevent]
      -- The next event tells what the context is bound to in between, and so does this one.
      refine ⟨List.isChain_cons.mpr ⟨fun next hnext => ?_, hchain⟩, ?_⟩
      · rintro rfl
        have := (hhead event hnext).symm.trans hafter
        simp at this
      · rintro _ ⟨⟩
        exact hbefore

/-! ## Nested enters and exits -/

theorem event?_of_nested_enter (hS : S.store.Entered) {thread : Id .thread} {job : Job σ}
    (hjob : S.jobs thread = some job) {f : Id .factory} {requested : Option (Id .context)}
    {rest : Stack σ .entered job.goal}
    (hnext : job.state.operation? = some ⟨.enter f requested, rest⟩) {d : Id .context}
    (hcurrent : S.store.current? thread = some d) (c : Id .context) :
    S.store.event? (S.play host (.steps thread)).store c = none := by
  obtain ⟨m', hrebinds, hbegin⟩ := Config.exists_beginEnter_nested host thread
    (hS.knows hcurrent) hcurrent f requested rest
  rw [play_steps host hjob, Config.step_of_operation host thread (X := ⟨_, _⟩) hnext]
  change S.store.event? (Config.beginEnter host thread S.store f requested rest).store c = none
  rw [hbegin]
  exact (hrebinds.event? c).trans (by rw [ContextEvent.between?_self, ite_self])

theorem event?_of_nested_exit {thread : Id .thread} {job : Job σ}
    (hjob : S.jobs thread = some job) {rest : Stack σ .left job.goal}
    (hnext : job.state.operation? = some ⟨.exit, rest⟩) {d : Id .context}
    (hcurrent : S.store.current? thread = some d) (hcount : 1 < (S.store.context d).enterCount)
    (c : Id .context) : S.store.event? (S.play host (.steps thread)).store c = none := by
  obtain ⟨n, hn⟩ := Nat.exists_eq_add_of_le' hcount
  obtain ⟨m', hrebinds, hbegin⟩ := Config.exists_beginExit_nested thread hcurrent hn rest
  rw [play_steps host hjob, Config.step_of_operation host thread (X := ⟨_, _⟩) hnext]
  change S.store.event? (Config.beginExit thread S.store rest).store c = none
  rw [hbegin]
  exact (hrebinds.event? c).trans (by rw [ContextEvent.between?_self, ite_self])

theorem entered_run_of_orderly (hS : S.store.Entered) {events : List (Event σ)}
    (horderly : Orderly host c S events) : (S.run host events).store.Entered := by
  induction events generalizing S with
  | nil => exact hS
  | cons e events ih => exact ih (entered_of_admits hS horderly.1) horderly.2

/-- Threads run on a store on which nothing is bound, in any order. Whatever the listeners do to
the lists of their factories,

- the notices about a context that were delivered, with those that are due on the stack of one
  thread, are those of its events: for each, one for each registration at its factory when it came,
  in order;
- the context is created and released in turn, created first;
- a listener sees each event once for each of its registrations when the event comes, so one that
  is registered throughout, once, sees the context being created and released in turn;
- to deliver a notice is to run the code of the listener, and no other step does;
- a thread that is bound to a context causes no event by another enter, nor by an exit unless it is
  the one that drops the last level. -/
theorem told_of_orderly (host : Host σ) {m : Store σ} (hbindings : m.bindings = [])
    (c : Id .context) (hfree : (m.context c).boundTo = none) (events : List (Event σ))
    (horderly : Orderly host c (idle m) events) :
    let S := (idle m).run host events
    let told := told host c (idle m) events
    let life := lifecycle host c (idle m) events
    (∃ owed debtor, told ++ owed = life.flatMap (fun x => ScriptMachine.notices x.1 x.2) ∧
      ∀ t, S.notices c t = if t = debtor then owed else []) ∧
    ContextEvent.Alternate (life.map (·.1)) ∧
    (∀ l, seen l told <+: life.flatMap (fun x => List.replicate (x.2.count l) x.1) ∧
      ((∀ x ∈ life, x.2.count l = 1) →
        seen l told <+: life.map (·.1) ∧ ContextEvent.Alternate (seen l told))) ∧
    ∀ thread job, S.jobs thread = some job →
      (∀ n, job.state.notice? c = some n → ∃ rest,
        Config.step host thread ⟨S.store, job.state⟩ =
          ⟨S.store, .running (host.notify n.listener n.event c) rest⟩) ∧
      ((∀ d, job.state.notice? d = none) → ∀ notify,
        Config.step { host with notify } thread ⟨S.store, job.state⟩ =
          Config.step host thread ⟨S.store, job.state⟩) ∧
      ∀ d, S.store.current? thread = some d →
        (∃ f requested rest, job.state.operation? = some ⟨.enter f requested, rest⟩) ∨
          1 < (S.store.context d).enterCount ∧
            (∃ rest, job.state.operation? = some ⟨.exit, rest⟩) →
        S.store.event? (S.play host (.steps thread)).store c = none := by
  intro S told life
  have hidle : (idle m).store.Entered := by
    intro t d hcurrent
    rw [Store.current?, show (idle m).store.bindings = [] from hbindings] at hcurrent
    cases hcurrent
  have hnothing : (idle m).Owes c [] := ⟨⟨0⟩, rfl, fun _ _ => rfl⟩
  obtain ⟨owed, ⟨debtor, howed, hothers⟩, htold⟩ := hnothing.run hidle horderly
  rw [List.nil_append] at htold
  have halternate : ContextEvent.Alternate (life.map (·.1)) := by
    obtain ⟨hchain, hhead⟩ := lifecycle_alternates hidle horderly
    refine ⟨hchain, fun hreleased => ?_⟩
    cases (hhead .released hreleased).mpr hfree
  have hseen (l : Id .listener) :
      seen l told <+: life.flatMap (fun x => List.replicate (x.2.count l) x.1) := by
    rw [← seen_flatMap, ← htold, seen_append]
    exact List.prefix_append _ _
  refine ⟨⟨owed, debtor, htold, fun t => ?_⟩, halternate, fun l => ⟨hseen l, fun hl => ?_⟩, ?_⟩
  · split
    · next ht => exact ht ▸ howed
    · next ht => exact hothers t ht
  · have hearlier : seen l told <+: life.map (·.1) := flatMap_replicate_of_once hl ▸ hseen l
    exact ⟨hearlier, halternate.of_isPrefix hearlier⟩
  · intro thread job hjob
    refine ⟨fun n hn => Config.step_of_notice? host thread c hn,
      Config.step_of_notice?_eq_none host thread (X := ⟨S.store, job.state⟩),
      fun d hcurrent hnested => ?_⟩
    have hS : S.store.Entered := entered_run_of_orderly hidle horderly
    rcases hnested with ⟨f, requested, rest, hnext⟩ | ⟨hcount, rest, hnext⟩
    · exact event?_of_nested_enter hS hjob hnext hcurrent c
    · exact event?_of_nested_exit hjob hnext hcurrent hcount c

/-! ## Listeners that rearrange the list -/

/-- The next step of a thread that runs alone is as it should be. -/
def stepsOrderly (host : Host σ) (thread : Id .thread) (c : Id .context) (X : Config σ goal) :
    Bool :=
  X.state.binds?.all (fun d => (X.store.contexts.get? d).isSome) &&
    !X.state.isListenerPanic &&
    ((X.store.event? (X.step host thread).store c).isNone || (X.state.notices c).isEmpty)

theorem orderly_alone (m : Store σ) {thread : Id .thread} {n : Nat} {X : Config σ goal}
    (h : ∀ k < n, stepsOrderly host thread c (X.run host thread k)) :
    Orderly host c ((idle m).put thread X.store X.state) (List.replicate n (.steps thread)) := by
  induction n generalizing X with
  | zero => trivial
  | succ n ih =>
    have hjob := jobs_put_self (idle m) thread X.store X.state
    have hplay := play_steps host hjob
    rw [put_put] at hplay
    refine ⟨?_, ?_⟩
    · intro job hjob'
      cases hjob.symm.trans hjob'
      have hfirst := h 0 (Nat.succ_pos n)
      simp only [stepsOrderly, Config.run, Bool.and_eq_true, Bool.not_eq_true',
        Bool.or_eq_true, Option.all_eq_true, Option.isNone_iff_eq_none,
        List.isEmpty_iff] at hfirst
      obtain ⟨⟨hknown, hcalm⟩, hapart⟩ := hfirst
      refine ⟨fun d hd => hknown d hd, hcalm, fun hevent t => ?_⟩
      rw [hplay] at hevent
      by_cases ht : t = thread
      · subst ht
        rw [notices_put_self]
        exact hapart.resolve_left (Option.isSome_iff_ne_none.mp hevent)
      · exact (notices_put_of_ne ht _ _ _ _).trans rfl
    · rw [hplay]
      exact ih fun k hk => h (k + 1) (Nat.succ_lt_succ hk)

/-- The context's factory has two listeners. -/
def listenedContext : Store Unit :=
  { Config.oneContext with factories := ⟨#[{ listeners := [⟨7⟩, ⟨8⟩] }]⟩ }

/-- A listener that is told takes one listener from the list and adds another one. -/
def rearrangingHost : Host Unit :=
  { Config.answeringHost with
    notify := fun _ _ _ => .ask (.factory (.removeListener ⟨0⟩ ⟨7⟩)) fun _ =>
      .ask (.factory (.addListener ⟨0⟩ ⟨9⟩)) fun _ => .finish (κ := .done) () }

/-- Enter the context, also nested, leave it, and enter it again. -/
def comingBack : Program Unit .entered :=
  .act (.enter ⟨0⟩ (some ⟨0⟩)) fun _ => .act (.enter ⟨0⟩ none) fun _ =>
    .act .exit fun _ => .act .exit fun _ =>
      .act (.enter ⟨0⟩ (some ⟨0⟩)) fun r => .finish (κ := .entered) r

def comingBackAlone : List (Event Unit) :=
  .begins ⟨0⟩ comingBack :: List.replicate 60 (.steps ⟨0⟩)

theorem told_comingBack :
    Orderly rearrangingHost ⟨0⟩ (idle listenedContext) comingBackAlone ∧
      seen ⟨8⟩ (told rearrangingHost ⟨0⟩ (idle listenedContext) comingBackAlone) =
        [.created, .released, .created] ∧
      ContextEvent.Alternate
        (seen ⟨8⟩ (told rearrangingHost ⟨0⟩ (idle listenedContext) comingBackAlone)) := by
  have horderly : Orderly rearrangingHost ⟨0⟩ (idle listenedContext) comingBackAlone := by
    refine ⟨trivial, ?_⟩
    exact orderly_alone listenedContext (X := Config.start listenedContext comingBack)
      (by decide +kernel)
  refine ⟨horderly, by decide +kernel, ?_⟩
  have hlife := (told_of_orderly rearrangingHost rfl ⟨0⟩ rfl comingBackAlone horderly).2.2.1 ⟨8⟩
  exact (hlife.2 (by decide +kernel)).2

end System

end ScriptMachine
