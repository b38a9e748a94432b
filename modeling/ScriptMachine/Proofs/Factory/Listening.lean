import ScriptMachine.Proofs.Machine.Settings
import ScriptMachine.Proofs.Threads.System

/-!
# The listeners of a factory

Listeners are added and removed until the factory stops listening or is closed for changes, each
for good. The list is at any time what the edits that succeeded made of the empty one
(`FactoryQuery.Records`), and which edits succeed depends only on whether one of them stopped the
listening or closed the factory. Edits of other factories do not matter.
-/

namespace ScriptMachine

/-- What can be done about the listeners of a factory. -/
inductive ListeningEdit where
  | add (l : Id .listener)
  | remove (l : Id .listener)
  | disable
  | close
  deriving DecidableEq

namespace ListeningEdit

/-- The factory after an edit, unless it is refused. -/
def change (factory : Factory) : ListeningEdit → Except IllegalState Factory
  | add l => factory.addListener l
  | remove l => factory.removeListener l
  | disable => factory.disableListening
  | close => factory.close

/-- The reply to an edit of a factory, and the factories afterwards. -/
def perform (t : Table .factory Factory) (f : Id .factory) :
    ListeningEdit → Except Fault Unit × Table .factory Factory
  | add l => (FactoryQuery.addListener f l).perform t
  | remove l => (FactoryQuery.removeListener f l).perform t
  | disable => (FactoryQuery.disableListening f).perform t
  | close => (FactoryQuery.close f).perform t

/-- What an edit makes of a list of listeners. One that is removed leaves those before its first
registration and those after it. -/
def edited (listeners : List (Id .listener)) : ListeningEdit → List (Id .listener)
  | add l => listeners ++ [l]
  | remove l => listeners.takeWhile (· ≠ l) ++ (listeners.dropWhile (· ≠ l)).tail
  | disable => []
  | close => listeners

/-- What an edit makes of a factory that allows it. -/
def applied (factory : Factory) (e : ListeningEdit) : Factory :=
  { factory with
    listeners := e.edited factory.listeners
    isSealed := factory.isSealed || e = close
    listeningDisabled := factory.listeningDisabled || e = disable }

variable {factory : Factory} {t : Table .factory Factory} {f : Id .factory} {e : ListeningEdit}

theorem perform_eq (t : Table .factory Factory) (f : Id .factory) (e : ListeningEdit) :
    e.perform t f = FactoryQuery.update t f e.change := by
  cases e <;> rfl

theorem erase_eq_edited (listeners : List (Id .listener)) (l : Id .listener) :
    listeners.erase l = (remove l).edited listeners := by
  induction listeners with
  | nil => rfl
  | cons first rest ih =>
    by_cases h : first = l
    · simp [edited, h]
    · simpa [edited, h] using ih

/-! ## One edit of one factory -/

theorem change_of_sealed (h : factory.isSealed) (e : ListeningEdit) :
    e.change factory = .error .sealed := by
  cases e <;> simp [change, Factory.addListener, Factory.removeListener, Factory.disableListening,
    Factory.close, Factory.checkListening, h, bind, Except.bind]

theorem change_of_disabled (hopen : factory.isSealed = false) (h : factory.listeningDisabled)
    (he : e ≠ close) : ∃ cause, e.change factory = .error cause := by
  cases e with
  | close => exact absurd rfl he
  | add | remove | disable =>
    simp [change, Factory.addListener, Factory.removeListener, Factory.disableListening,
      Factory.checkListening, hopen, h, bind, Except.bind]

theorem change_of_allowed (hopen : factory.isSealed = false)
    (h : e = close ∨ factory.listeningDisabled = false) :
    e.change factory = .ok (e.applied factory) := by
  obtain ⟨policy, isSealed, listeners, disabled⟩ := factory
  obtain rfl : isSealed = false := hopen
  cases e with
  | close => simp [change, Factory.close, applied, edited]
  | add | remove | disable =>
    obtain rfl : disabled = false := h.resolve_left nofun
    simp [change, Factory.addListener, Factory.removeListener, Factory.disableListening,
      Factory.checkListening, applied, edited, erase_eq_edited, bind, Except.bind, pure,
      Except.pure]

theorem perform_of_allowed (hopen : (t.get f).isSealed = false)
    (h : e = close ∨ (t.get f).listeningDisabled = false) :
    e.perform t f = (.ok (), t.set f (e.applied (t.get f))) := by
  rw [perform_eq, FactoryQuery.update, change_of_allowed hopen h]

/-- An edit succeeds unless the factory is closed, or has stopped listening and is not being
closed; then the cause is an illegal state and nothing changes. -/
theorem perform_cases (t : Table .factory Factory) (f : Id .factory) (e : ListeningEdit) :
    ((t.get f).isSealed = false ∧ (e = close ∨ (t.get f).listeningDisabled = false) ∧
        e.perform t f = (.ok (), t.set f (e.applied (t.get f)))) ∨
      (t.get f).isSealed ∧ e.perform t f = (.error (.illegalState .sealed), t) ∨
      (t.get f).listeningDisabled ∧ e ≠ close ∧
        ∃ cause, e.perform t f = (.error (.illegalState cause), t) := by
  cases hsealed : (t.get f).isSealed with
  | true =>
    refine .inr (.inl ⟨rfl, ?_⟩)
    rw [perform_eq, FactoryQuery.update, change_of_sealed hsealed]
  | false =>
    by_cases h : e = close ∨ (t.get f).listeningDisabled = false
    · exact .inl ⟨rfl, h, perform_of_allowed hsealed h⟩
    · obtain ⟨hclose, hdisabled⟩ := not_or.mp h
      rw [Bool.not_eq_false] at hdisabled
      obtain ⟨cause, hcause⟩ := change_of_disabled hsealed hdisabled hclose
      refine .inr (.inr ⟨hdisabled, hclose, cause, ?_⟩)
      rw [perform_eq, FactoryQuery.update, hcause]

end ListeningEdit

namespace FactoryQuery

variable {t : Table .factory Factory} {f : Id .factory}

/-- The edit that a query asks for, if it is about this factory. -/
def edit? (f : Id .factory) : FactoryQuery → Option ListeningEdit
  | create _ | state _ => none
  | addListener g l => if g = f then some (.add l) else none
  | removeListener g l => if g = f then some (.remove l) else none
  | disableListening g => if g = f then some .disable else none
  | close g => if g = f then some .close else none

/-- The edit of a factory that a query makes, if it succeeds. -/
def success? (t : Table .factory Factory) (f : Id .factory) (q : FactoryQuery) :
    Option ListeningEdit :=
  (q.edit? f).filter fun e => (e.perform t f).1.isOk

/-- The factories after some queries. -/
def after (t : Table .factory Factory) (queries : List FactoryQuery) : Table .factory Factory :=
  queries.foldl (fun t q => (q.perform t).2) t

/-- The edits of a factory that succeed among some queries, in order. -/
def successes (f : Id .factory) : Table .factory Factory → List FactoryQuery → List ListeningEdit
  | _, [] => []
  | t, q :: queries => (q.success? t f).toList ++ successes f (q.perform t).2 queries

/-- Whether there is a factory of this identity. -/
def Knows (t : Table .factory Factory) (f : Id .factory) : Prop := (t.get? f).isSome

theorem get_set (hf : Knows t f) (g : Id .factory) (factory : Factory) :
    (t.set g factory).get f = if f = g then factory else t.get f := by
  obtain ⟨old, hold⟩ := Option.isSome_iff_exists.mp hf
  simp only [Table.get, Table.set, Table.get?_modify, hold, Option.map_some]
  split <;> rfl

theorem knows_set (hf : Knows t f) (g : Id .factory) (factory : Factory) :
    Knows (t.set g factory) f := by
  rw [Knows, Table.set, Table.get?_modify]
  split
  · rw [Option.isSome_map]
    exact hf
  · exact hf

theorem update_kept (hf : Knows t f) {g : Id .factory} (hne : f ≠ g)
    (change : Factory → Except IllegalState Factory) :
    Knows (update t g change).2 f ∧ (update t g change).2.get f = t.get f := by
  unfold update
  split
  · exact ⟨knows_set hf g _, by rw [get_set hf, if_neg hne]⟩
  · exact ⟨hf, rfl⟩

/-- A query changes no factory but the one it edits, and forgets none. -/
theorem perform_kept (hf : Knows t f) {q : FactoryQuery} (h : q.edit? f = none) :
    Knows (q.perform t).2 f ∧ (q.perform t).2.get f = t.get f := by
  cases q with
  | create policy =>
    have hne : f ≠ t.next := by
      rintro rfl
      simp [Knows, Table.get?, Table.next] at hf
    simp only [Knows, perform, Table.get, Table.get?_insert, if_neg hne, and_true]
    exact hf
  | state => exact ⟨hf, rfl⟩
  | addListener g | removeListener g | disableListening g | close g =>
    have hne : g ≠ f := by
      rintro rfl
      simp [edit?] at h
    exact update_kept hf hne.symm _

theorem perform_of_edit? {q : FactoryQuery} {e : ListeningEdit} (h : q.edit? f = some e) :
    (q.perform t).2 = (e.perform t f).2 := by
  cases q with
  | create | state => cases h
  | addListener g | removeListener g | disableListening g | close g =>
    obtain ⟨rfl, rfl⟩ := Option.ite_some_none_eq_some.mp h
    rfl

/-- A factory is what the edits that succeeded made of a new one. -/
structure Records (factory : Factory) (done : List ListeningEdit) : Prop where
  listeners : factory.listeners = done.foldl ListeningEdit.edited []
  isSealed : factory.isSealed ↔ .close ∈ done
  disabled : factory.listeningDisabled ↔ .disable ∈ done
  cleared : factory.listeningDisabled → factory.listeners = []

theorem Records.new (policy : Policy) : Records { policy } [] where
  listeners := rfl
  isSealed := by simp
  disabled := by simp
  cleared _ := rfl

theorem Records.applied {factory : Factory} {done : List ListeningEdit} {e : ListeningEdit}
    (h : Records factory done) (he : e = .close ∨ factory.listeningDisabled = false) :
    Records (e.applied factory) (done ++ [e]) where
  listeners := by
    rw [List.foldl_append, ← h.listeners]
    rfl
  isSealed := by simp [ListeningEdit.applied, h.isSealed, @eq_comm _ ListeningEdit.close e]
  disabled := by simp [ListeningEdit.applied, h.disabled, @eq_comm _ ListeningEdit.disable e]
  cleared hdisabled := by
    cases e with
    | close => exact h.cleared (by simpa [ListeningEdit.applied] using hdisabled)
    | disable => rfl
    | add | remove =>
      simp [ListeningEdit.applied, he.resolve_left nofun] at hdisabled

/-- One query keeps the record, with the edit it makes added to the end. -/
theorem Records.perform {done : List ListeningEdit} (hf : Knows t f)
    (h : Records (t.get f) done) (q : FactoryQuery) :
    Knows (q.perform t).2 f ∧
      Records ((q.perform t).2.get f) (done ++ (q.success? t f).toList) := by
  cases hedit : q.edit? f with
  | none =>
    obtain ⟨hknown, hget⟩ := perform_kept hf hedit
    refine ⟨hknown, ?_⟩
    rw [hget, success?, hedit]
    simpa using h
  | some e =>
    rw [perform_of_edit? hedit, success?, hedit]
    rcases e.perform_cases t f with ⟨-, hallowed, hok⟩ | ⟨-, hrefused⟩ | ⟨-, -, cause, hrefused⟩
    · refine ⟨?_, ?_⟩
      · rw [hok]
        exact knows_set hf f _
      · rw [hok, get_set hf, if_pos rfl]
        simpa [Option.filter, Except.isOk, Except.toBool, hok] using h.applied hallowed
    all_goals
      rw [hrefused]
      refine ⟨hf, ?_⟩
      simpa [Option.filter, Except.isOk, Except.toBool, hrefused] using h

theorem Records.after {done : List ListeningEdit} (hf : Knows t f) (h : Records (t.get f) done)
    (queries : List FactoryQuery) :
    Knows (after t queries) f ∧
      Records ((after t queries).get f) (done ++ successes f t queries) := by
  induction queries generalizing t done with
  | nil => simpa [successes, FactoryQuery.after] using ⟨hf, h⟩
  | cons q queries ih =>
    obtain ⟨hknown, hrecords⟩ := h.perform hf q
    simpa [successes, FactoryQuery.after] using ih hknown hrecords

theorem after_append (t : Table .factory Factory) (queries later : List FactoryQuery) :
    after t (queries ++ later) = after (after t queries) later := List.foldl_append

/-- A closed factory stays as it is. -/
theorem get_after_of_sealed (hf : Knows t f) (h : (t.get f).isSealed)
    (queries : List FactoryQuery) : (after t queries).get f = t.get f := by
  induction queries generalizing t with
  | nil => rfl
  | cons q queries ih =>
    have hq : Knows (q.perform t).2 f ∧ (q.perform t).2.get f = t.get f := by
      cases hedit : q.edit? f with
      | none => exact perform_kept hf hedit
      | some e =>
        rw [perform_of_edit? hedit, ListeningEdit.perform_eq, update,
          ListeningEdit.change_of_sealed h]
        exact ⟨hf, rfl⟩
    exact (ih hq.1 (by rwa [hq.2])).trans hq.2

/-- The listeners of a factory, for every history of queries about any factories after it was
made. They are what the edits that succeeded make of an empty list. An edit fails exactly if the
factory was closed, or has stopped listening and is not to be closed; then the cause is an illegal
state and no factory changes. From then on a closed factory stays as it is, whatever is tried, and
one that has stopped listening has no listener and can at most be closed. -/
theorem listening_of_history (t : Table .factory Factory) (policy : Policy)
    (past : List FactoryQuery) :
    let f := (t.insert { policy }).1
    let now := after (t.insert { policy }).2 past
    let done := successes f (t.insert { policy }).2 past
    (now.get f).listeners = done.foldl ListeningEdit.edited [] ∧
      (∀ e : ListeningEdit,
        .close ∉ done ∧ (e = .close ∨ .disable ∉ done) ∧
            e.perform now f = (.ok (), now.set f (e.applied (now.get f))) ∨
          (.close ∈ done ∨ e ≠ .close ∧ .disable ∈ done) ∧
            ∃ cause, e.perform now f = (.error (.illegalState cause), now)) ∧
      ∀ later : List FactoryQuery,
        (.close ∈ done → (after now later).get f = now.get f ∧
          ∀ e : ListeningEdit, e.perform (after now later) f =
            (.error (.illegalState .sealed), after now later)) ∧
        (.disable ∈ done → ((after now later).get f).listeners = [] ∧
          ∀ e : ListeningEdit, e ≠ .close → ∃ cause, e.perform (after now later) f =
            (.error (.illegalState cause), after now later)) := by
  intro f now done
  have hmade : Knows (t.insert { policy }).2 f ∧
      Records ((t.insert { policy }).2.get f) ([] : List ListeningEdit) := by
    have hget : (t.insert { policy }).2.get? f = some { policy } := by
      rw [Table.get?_insert]
      exact if_pos rfl
    refine ⟨Option.isSome_of_eq_some hget, ?_⟩
    rw [Table.get, hget]
    exact .new policy
  obtain ⟨hknown, hnow⟩ := hmade.2.after hmade.1 past
  rw [List.nil_append] at hnow
  refine ⟨hnow.listeners, fun e => ?_, fun later => ⟨fun hclosed => ?_, fun hdisabled => ?_⟩⟩
  · have hopen (h : (now.get f).isSealed = false) : .close ∉ done := by
      simp [done, ← hnow.isSealed, now, h]
    rcases e.perform_cases now f with ⟨hsealed, hallowed, hok⟩ | ⟨hsealed, hrefused⟩ |
        ⟨hdisabled, hclose, hrefused⟩
    · refine .inl ⟨hopen hsealed, hallowed.imp_right fun h => ?_, hok⟩
      simp [done, ← hnow.disabled, now, h]
    · exact .inr ⟨.inl (hnow.isSealed.mp hsealed), _, hrefused⟩
    · exact .inr ⟨.inr ⟨hclose, hnow.disabled.mp hdisabled⟩, hrefused⟩
  · have hsealed : (now.get f).isSealed := hnow.isSealed.mpr hclosed
    have hkept := get_after_of_sealed hknown hsealed later
    refine ⟨hkept, fun e => ?_⟩
    rw [ListeningEdit.perform_eq, update, ListeningEdit.change_of_sealed (by rwa [hkept])]
  · obtain ⟨-, hlater⟩ := hnow.after hknown later
    have hstopped : ((after now later).get f).listeningDisabled :=
      hlater.disabled.mpr (List.mem_append_left _ hdisabled)
    refine ⟨hlater.cleared hstopped, fun e he => ?_⟩
    rcases e.perform_cases (after now later) f with ⟨-, hallowed, -⟩ | ⟨-, hrefused⟩ |
        ⟨-, -, hrefused⟩
    · rw [hstopped] at hallowed
      exact absurd hallowed (by simpa using he)
    · exact ⟨_, hrefused⟩
    · exact hrefused

/-- A listener is registered twice and once removed, between edits of another factory; then the
listening is stopped and the factory closed. -/
def closing : List FactoryQuery :=
  [.addListener ⟨1⟩ ⟨7⟩, .addListener ⟨1⟩ ⟨8⟩, .close ⟨0⟩, .addListener ⟨1⟩ ⟨7⟩,
    .removeListener ⟨1⟩ ⟨7⟩, .addListener ⟨0⟩ ⟨7⟩, .disableListening ⟨1⟩, .addListener ⟨1⟩ ⟨9⟩,
    .close ⟨1⟩]

theorem listening_of_closing :
    let t : Table .factory Factory := ⟨#[{}, {}]⟩
    successes ⟨1⟩ t closing =
        [.add ⟨7⟩, .add ⟨8⟩, .add ⟨7⟩, .remove ⟨7⟩, .disable, .close] ∧
      ((after t (closing.take 6)).get ⟨1⟩).listeners = [⟨8⟩, ⟨7⟩] ∧
      ∀ (later : List FactoryQuery) (e : ListeningEdit),
        e.perform (after (after t closing) later) ⟨1⟩ =
          (.error (.illegalState .sealed), after (after t closing) later) := by
  have hdone : successes ⟨1⟩ ⟨#[{}, {}]⟩ closing =
      [.add ⟨7⟩, .add ⟨8⟩, .add ⟨7⟩, .remove ⟨7⟩, .disable, .close] := rfl
  refine ⟨hdone, ?_, fun later => ?_⟩
  · exact (listening_of_history ⟨#[{}]⟩ .standard (closing.take 6)).1
  · obtain ⟨-, -, hlater⟩ := listening_of_history ⟨#[{}]⟩ .standard closing
    exact ((hlater later).1 (by
      change ListeningEdit.close ∈ successes ⟨1⟩ ⟨#[{}, {}]⟩ closing
      rw [hdone]
      decide)).2

end FactoryQuery

/-! ## Threads -/

namespace Config

variable {σ : Type} {goal : Kind} (host : Host σ) (thread : Id .thread)

theorem factories_context (m : Store σ) (q : ContextQuery) :
    (q.perform host thread m).2.factories = m.factories := by
  cases q with
  | setController =>
    simp only [ContextQuery.perform]
    split <;> rfl
  | requestCapture c =>
    simp only [ContextQuery.perform]
    split
    · next h =>
      obtain ⟨continuations, rfl⟩ := Store.requestCapture_frame h
      rfl
    · rfl
  | _ => rfl

theorem factories_count (m : Store σ) (a : Activation) (s : Stack σ .exit goal) :
    (count host m a s).store.factories = m.factories := by
  simp only [count]
  split <;> rfl

/-- A step changes the factories by the query about them that it answers, if any. -/
theorem factories_step (X : Config σ goal) :
    (X.step host thread).store.factories =
      FactoryQuery.after X.store.factories X.state.factoryQuery?.toList := by
  obtain ⟨m, state⟩ := X
  cases hfactory : state.factoryQuery? with
  | some q =>
    unfold State.factoryQuery? at hfactory
    split at hfactory <;> cases hfactory
    rfl
  | none =>
    -- Queries about contexts and counting are the steps that do not keep all settings.
    cases hcontext : state.contextQuery? with
    | some q =>
      unfold State.contextQuery? at hcontext
      split at hcontext <;> cases hcontext
      exact factories_context host thread m q
    | none =>
      cases hcounting : state.counting? with
      | some a =>
        unfold State.counting? at hcounting
        split at hcounting <;> cases hcounting
        exact factories_count host m a _
      | none =>
        exact (step_steady host thread (X := ⟨m, state⟩) hcontext hfactory hcounting).factories

end Config

namespace System

variable {σ : Type} (host : Host σ)

/-- The query about factories that an event answers. -/
def factoryQuery? (S : System σ) : Event σ → Option FactoryQuery
  | .begins .. => none
  | .steps thread => (S.jobs thread).bind fun job => job.state.factoryQuery?

/-- The queries about factories that some events answer, in order, of whatever thread. -/
def factoryQueries : System σ → List (Event σ) → List FactoryQuery
  | _, [] => []
  | S, e :: events => (S.factoryQuery? e).toList ++ factoryQueries (S.play host e) events

/-- Whatever threads run, the factories are those after the queries that were answered. -/
theorem factories_run (S : System σ) (events : List (Event σ)) :
    (S.run host events).store.factories =
      FactoryQuery.after S.store.factories (S.factoryQueries host events) := by
  induction events generalizing S with
  | nil => rfl
  | cons e events ih =>
    rw [run, ih, factoryQueries, FactoryQuery.after_append]
    congr 1
    cases e with
    | begins thread p =>
      simp only [play]
      split <;> rfl
    | steps thread =>
      cases hjob : S.jobs thread with
      | none => simp [play, factoryQuery?, hjob, FactoryQuery.after]
      | some job =>
        rw [play_steps host hjob, factoryQuery?, hjob]
        exact Config.factories_step host thread ⟨S.store, job.state⟩

end System

end ScriptMachine
