import ScriptMachine.Proofs.Binding.Levels
import ScriptMachine.Proofs.Capture.Transparency
import ScriptMachine.Proofs.Threads.System

/-!
# Histories of enters and exits

Any number of threads run host code on one store. Enters and exits, also those of brackets, are
performed as a whole; between them the threads take their other steps in any order. A history
keeps the list of the operations that were performed, with their results, and this list is
compared with what is bound: every operation changes the levels of its own thread as
`Record.Changes` says, so the levels are counted by the list (`System.Goes.levels`).
-/

namespace ScriptMachine

variable {σ : Type} {goal : Kind}

/-! ## Balanced lists of operations -/

namespace Record

/-- The operation came to no error. -/
def succeeds (r : Record) : Bool := r.failure?.isNone

/-- Every exit of a thread has an enter before it and every enter an exit after it, when the
thread has entered a number of times already. -/
def Balanced (t : Id .thread) : Nat → List Record → Prop
  | n, [] => n = 0
  | n, .enter thread _ _ _ :: records =>
    if thread = t then Balanced t (n + 1) records else Balanced t n records
  | n, .exit thread _ :: records =>
    if thread = t then ∃ k, n = k + 1 ∧ Balanced t k records else Balanced t n records

/-- What a thread holds after a number of enters more than exits. A thread that held nothing may
have tried in vain. -/
inductive Rests (n : Nat) : Holding → Holding → Prop
  | bound (c : Id .context) (k : Nat) : Rests n (some (c, k + 1)) (some (c, k + 1 + n))
  | free : Rests n none none
  | taken (c : Id .context) (k : Nat) (h : k < n) : Rests n none (some (c, k + 1))

variable {t : Id .thread} {r : Record} {records : List Record} {b b' b₀ : Holding} {n : Nat}

theorem balanced_of_ne (h : r.thread ≠ t) (hr : Balanced t n (r :: records)) :
    Balanced t n records := by
  cases r with
  | enter thread f requested x => exact (if_neg h).mp hr
  | exit thread x => exact (if_neg h).mp hr

theorem Rests.eq (h : Rests 0 b₀ b) : b = b₀ := by
  cases h with
  | bound c k => rfl
  | free => rfl
  | taken c k h => exact absurd h (Nat.not_lt_zero k)

/-- The head of a balanced list leaves the rest balanced. -/
theorem Rests.step (h : Rests n b₀ b) (hr : r.Changes t b b')
    (hbalanced : Balanced t n (r :: records)) :
    ∃ k, Rests k b₀ b' ∧ Balanced t k records := by
  cases hr with
  | binds f requested c =>
    refine ⟨n + 1, ?_, (if_pos rfl).mp hbalanced⟩
    cases h
    exact .taken c 0 (Nat.succ_pos n)
  | nests f requested c i =>
    refine ⟨n + 1, ?_, (if_pos rfl).mp hbalanced⟩
    cases h with
    | bound c k => exact .bound c k
    | taken c k hk => exact .taken c (k + 1) (Nat.succ_lt_succ hk)
  | refuses f requested e =>
    refine ⟨n + 1, ?_, (if_pos rfl).mp hbalanced⟩
    cases h
    exact .free
  | unnests c i =>
    obtain ⟨k, rfl, hrest⟩ := (if_pos rfl).mp hbalanced
    refine ⟨k, ?_, hrest⟩
    generalize hb : (some (c, i + 2) : Holding) = b at h
    cases h with
    | bound c' j =>
      obtain ⟨rfl, hi⟩ : c = c' ∧ i + 2 = j + 1 + (k + 1) := by simpa using hb
      rw [show i + 1 = j + 1 + k by omega]
      exact .bound c j
    | free => cases hb
    | taken c' j hj =>
      obtain ⟨rfl, hi⟩ : c = c' ∧ i + 2 = j + 1 := by simpa using hb
      exact .taken c i (by omega)
  | releases c =>
    obtain ⟨k, rfl, hrest⟩ := (if_pos rfl).mp hbalanced
    refine ⟨k, ?_, hrest⟩
    generalize hb : (some (c, 1) : Holding) = b at h
    cases h with
    | bound c' j =>
      -- the level that was held first is still there
      obtain ⟨-, hi⟩ : c = c' ∧ 1 = j + 1 + (k + 1) := by simpa using hb
      omega
    | free => exact .free
    | taken c' j hj => exact .free
  | fails e =>
    obtain ⟨k, rfl, hrest⟩ := (if_pos rfl).mp hbalanced
    refine ⟨k, ?_, hrest⟩
    cases h
    exact .free
  | others b hne => exact ⟨n, h, balanced_of_ne hne hbalanced⟩

/-- The operation is to fail: an exit of a thread that is bound to no context, or, for such a thread
too, an enter that is to bind a context of another thread, whether it is requested or made. -/
def IsRefused (host : Host σ) (m : Store σ) : Record → Prop
  | .enter thread f requested _ => m.current? thread = none ∧ ∃ c owner,
      Config.Proposes host thread m f requested c ∧
        (m.context c).boundTo = some owner ∧ owner ≠ thread
  | .exit thread _ => m.current? thread = none

/-- An operation that failed changes nothing. -/
theorem Changes.eq_of_failure (hr : r.Changes t b b') (h : ¬ r.succeeds) : b' = b := by
  cases hr with
  | binds | nests | unnests | releases => exact absurd rfl h
  | refuses | fails | others => rfl

end Record

/-! ## Histories -/

/-- The event begins no enter and no exit. -/
def System.Event.IsQuiet (S : System σ) : Event σ → Prop
  | .begins _ _ => True
  | .steps thread => ∀ job, S.jobs thread = some job → job.state.operation? = none

namespace System

/-- A thread performs the operation that is next for it. The context that it requests was made. -/
inductive Performs (host : Host σ) (S : System σ) : Record → System σ → Prop
  | enter {thread : Id .thread} {goal : Kind} {state : State σ goal} {f : Id .factory}
      {requested : Option (Id .context)} {rest : Stack σ .entered goal}
      {x : Except Fault (Id .context)} {m : Store σ} (job : S.jobs thread = some ⟨state⟩)
      (next : state.operation? = some ⟨.enter f requested, rest⟩)
      (known : ∀ c, requested = some c → S.store.Knows c)
      (completes : Config.Completes host thread S.store (.enter f requested) x m) :
      Performs host S (.enter thread f requested x)
        (S.put thread m (.returning (κ := .entered) x rest))
  | exit {thread : Id .thread} {goal : Kind} {state : State σ goal} {rest : Stack σ .left goal}
      {x : Except Fault Unit} {m : Store σ} (job : S.jobs thread = some ⟨state⟩)
      (next : state.operation? = some ⟨.exit, rest⟩)
      (completes : Config.Completes host thread S.store .exit x m) :
      Performs host S (.exit thread x) (S.put thread m (.returning (κ := .left) x rest))

/-- A history of a system: the operations that are performed, in their order. Between them come
any events that begin no operation. -/
inductive Goes (host : Host σ) : System σ → List Record → System σ → Prop
  | stays (S : System σ) : Goes host S [] S
  | event {S S' : System σ} {e : Event σ} {records : List Record} (quiet : e.IsQuiet S)
      (rest : Goes host (S.play host e) records S') : Goes host S records S'
  | operation {S S₁ S' : System σ} {r : Record} {records : List Record}
      (performs : Performs host S r S₁) (rest : Goes host S₁ records S') :
      Goes host S (r :: records) S'

variable {host : Host σ} {S S₁ S' : System σ} {r : Record} {records : List Record}

/-! ### Histories are runs -/

/-- An operation on top of what waits for it. -/
theorem exists_run_performs {thread : Id .thread} {state : State σ goal} {o : Operation σ goal}
    (hjob : S.jobs thread = some ⟨state⟩) (hnext : state.operation? = some o)
    {x : o.action.kind.Result} {m : Store σ}
    (h : Config.Completes host thread S.store o.action x m) :
    ∃ events, S.run host events = S.put thread m (.returning x o.rest) := by
  obtain ⟨⟨n, hrun⟩, -, -⟩ := h
  obtain ⟨k, -, honto⟩ := Config.exists_run_onto host thread
    (Config.ofAction host thread S.store o.action) o.rest n
  have hstep : Config.step host thread ⟨S.store, state⟩ =
      (Config.ofAction host thread S.store o.action).onto o.rest := by
    rw [Config.step_of_operation host thread hnext]
    exact Config.beginAction_append host thread S.store o.action .nil o.rest
  refine ⟨List.replicate (k + 1) (.steps thread), ?_⟩
  rw [run_replicate_steps host hjob, Config.run, hstep, honto, hrun]
  rfl

/-- The system of a history is one that the machine comes to. -/
theorem Goes.exists_run (h : Goes host S records S') : ∃ events, S.run host events = S' := by
  induction h with
  | stays S => exact ⟨[], rfl⟩
  | @event S S' e records quiet rest ih =>
    obtain ⟨events, hevents⟩ := ih
    exact ⟨e :: events, hevents⟩
  | operation performs rest ih =>
    obtain ⟨events, hevents⟩ := ih
    cases performs with
    | enter job next known completes =>
      obtain ⟨before, hbefore⟩ := exists_run_performs job next completes
      exact ⟨before ++ events, by rw [run_append, hbefore, hevents]⟩
    | exit job next completes =>
      obtain ⟨before, hbefore⟩ := exists_run_performs job next completes
      exact ⟨before ++ events, by rw [run_append, hbefore, hevents]⟩

/-! ### What every history keeps -/

/-- Threads and contexts agree on the bindings, and between operations no made context waits to
be bound. -/
structure Agrees (S : System σ) : Prop where
  registered : S.store.Registered
  isPlain : ∀ thread job, S.jobs thread = some job → job.state.IsPlain

theorem agrees_idle {m : Store σ} (h : m.Registered) : (idle m).Agrees where
  registered := h
  isPlain thread job hjob := by
    rw [idle] at hjob
    cases hjob

theorem Agrees.put (h : S.Agrees) {thread : Id .thread} {m : Store σ} {state : State σ goal}
    (hm : m.Registered) (hstate : state.IsPlain) : (S.put thread m state).Agrees := by
  refine ⟨hm, ?_⟩
  intro t job hjob
  rcases jobs_put_cases hjob with rfl | hjob
  · exact hstate
  · exact h.isPlain t job hjob

theorem isPlain_of_operation {state : State σ goal} {o : Operation σ goal}
    (h : state.operation? = some o) (hstate : state.IsPlain) : o.rest.IsPlain := by
  unfold State.operation? at h
  split at h <;> cases h <;> exact hstate

/-- An event that begins no operation leaves the bindings as they are. -/
theorem Agrees.play (h : S.Agrees) {e : Event σ} (hquiet : e.IsQuiet S) :
    (S.play host e).Agrees ∧ S.store.SameBindings (S.play host e).store := by
  rcases S.play_inversion host e with ⟨-, hplay⟩ | ⟨thread, goal, p, rfl, -, hplay⟩ |
    ⟨thread, job, rfl, hjob, hplay⟩ <;> rw [hplay]
  · exact ⟨h, .refl _⟩
  · exact ⟨h.put h.registered trivial, .refl _⟩
  · obtain ⟨hsame, hplain⟩ := Config.step_quiet host thread (X := ⟨S.store, job.state⟩)
      ⟨.refl S.store, h.isPlain thread job hjob⟩ (hquiet job hjob)
    exact ⟨h.put (hsame.registered h.registered) hplain, hsame⟩

theorem Agrees.performs (h : S.Agrees) (hr : Performs host S r S') :
    S'.Agrees ∧ ∀ t, r.Changes t (S.store.hold? t) (S'.store.hold? t) := by
  cases hr with
  | enter job next known completes =>
    obtain ⟨hregistered, hchanges⟩ := Config.enter_changes h.registered known completes
    exact ⟨h.put hregistered (isPlain_of_operation next (h.isPlain _ _ job)), hchanges⟩
  | exit job next completes =>
    obtain ⟨hregistered, hchanges⟩ := Config.exit_changes h.registered completes
    exact ⟨h.put hregistered (isPlain_of_operation next (h.isPlain _ _ job)), hchanges⟩

theorem Goes.agrees (h : Goes host S records S') (hS : S.Agrees) : S'.Agrees := by
  induction h with
  | stays S => exact hS
  | event quiet rest ih => exact ih (hS.play quiet).1
  | operation performs rest ih => exact ih (hS.performs performs).1

/-- The levels of a thread are its enters that are not exited. -/
theorem Goes.levels (h : Goes host S records S') (hS : S.Agrees) (t : Id .thread) :
    (S.store.hold? t).levels + records.countP (·.opens t) =
      (S'.store.hold? t).levels + records.countP (·.closes t) := by
  induction h with
  | stays S => rfl
  | event quiet rest ih =>
    obtain ⟨hnext, hsame⟩ := hS.play quiet
    have hrest := ih hnext
    rw [hsame.hold?] at hrest
    exact hrest
  | @operation S S₁ S' r records performs rest ih =>
    obtain ⟨hnext, hchanges⟩ := hS.performs performs
    have hrest := ih hnext
    have hhead := (hchanges t).levels
    rw [List.countP_cons, List.countP_cons]
    cases hopens : r.opens t <;> cases hcloses : r.closes t <;>
      simp only [hopens, hcloses, Bool.toNat_true, Bool.toNat_false, if_true, if_false,
        Bool.false_eq_true] at hhead ⊢ <;> omega

/-- What is kept of a list of operations is balanced, and what is left out failed. -/
theorem Goes.rests (h : Goes host S records S') (hS : S.Agrees) (t : Id .thread)
    (keep : Record → Bool) (hkeep : ∀ r, r.succeeds → keep r) {b₀ : Holding} {n : Nat}
    (hrests : Record.Rests n b₀ (S.store.hold? t))
    (hbalanced : Record.Balanced t n (records.filter keep)) :
    S'.store.hold? t = b₀ := by
  induction h generalizing n with
  | stays S =>
    cases (show n = 0 from hbalanced)
    exact hrests.eq
  | event quiet rest ih =>
    obtain ⟨hnext, hsame⟩ := hS.play quiet
    rw [← hsame.hold?] at hrests
    exact ih hnext hrests hbalanced
  | @operation S S₁ S' r records performs rest ih =>
    obtain ⟨hnext, hchanges⟩ := hS.performs performs
    cases hr : keep r with
    | true =>
      rw [List.filter_cons_of_pos hr] at hbalanced
      obtain ⟨k, hrests, hbalanced⟩ := hrests.step (hchanges t) hbalanced
      exact ih hnext hrests hbalanced
    | false =>
      have hfailed : ¬ r.succeeds := fun h => by simp [hkeep r h] at hr
      rw [List.filter_cons_of_neg (by simp [hr])] at hbalanced
      rw [← (hchanges t).eq_of_failure hfailed] at hrests
      exact ih hnext hrests hbalanced

/-- A success is no failure: it must only not be one that is refused. -/
theorem failure_of_succeeds {r : Record} {refused : Prop} {fails : Fault → Prop}
    (hr : r.failure? = none) (h : ¬ refused) :
    (r.failure?.isSome ↔ refused) ∧ ∀ e, r.failure? = some e → fails e := by
  rw [hr]
  refine ⟨⟨fun hsome => ?_, fun hrefused => absurd hrefused h⟩, fun e he => ?_⟩
  · cases hsome
  · cases he

/-- What fails, and how. -/
theorem Agrees.failure (h : S.Agrees) (hr : Performs host S r S') :
    (r.failure?.isSome ↔ r.IsRefused host S.store) ∧
      ∀ e, r.failure? = some e →
        (∃ cause, e = .illegalState cause) ∧ S.store.SameBindings S'.store := by
  cases hr with
  | enter job next known completes =>
    rcases Config.enter_effect h.registered known completes with ⟨c, hcurrent, rfl, -⟩ |
      ⟨hcurrent, c, hproposes, ⟨hfree, rfl, -⟩ | ⟨hbound, ⟨cause, rfl⟩, hsame⟩⟩
    · refine failure_of_succeeds rfl ?_
      rintro ⟨hnone, -⟩
      rw [hcurrent] at hnone
      cases hnone
    · refine failure_of_succeeds rfl ?_
      rintro ⟨-, c', owner, hproposes', hbound, -⟩
      rw [hproposes.unique hproposes', Store.binding, Context.binding, hbound] at hfree
      cases hfree
    · obtain ⟨owner, howner⟩ := Option.isSome_iff_exists.mp hbound
      refine ⟨⟨fun _ => ⟨hcurrent, c, owner, hproposes, howner, ?_⟩, fun _ => rfl⟩, ?_⟩
      · rintro rfl
        rw [(h.registered.agrees owner c).mpr howner] at hcurrent
        cases hcurrent
      · rintro e he
        exact ⟨⟨cause, (Option.some.inj he).symm⟩, hsame⟩
  | exit job next completes =>
    rcases Config.exit_effect h.registered completes with ⟨hcurrent, rfl, rfl⟩ |
      ⟨c, n, hcurrent, -, rfl, -⟩ | ⟨c, hcurrent, -, rfl, -⟩
    · refine ⟨⟨fun _ => hcurrent, fun _ => rfl⟩, ?_⟩
      rintro e he
      exact ⟨⟨_, (Option.some.inj he).symm⟩, .refl _⟩
    · refine failure_of_succeeds rfl fun hnone => ?_
      cases hcurrent.symm.trans hnone
    · refine failure_of_succeeds rfl fun hnone => ?_
      cases hcurrent.symm.trans hnone

/-- Before anything is bound, the bindings agree. -/
theorem registered_of_unbound {m : Store σ} (hbindings : m.bindings = [])
    (hcontexts : ∀ c, m.binding c = (none, 0)) : m.Registered where
  agrees t c := by
    rw [hcontexts, Store.current?, hbindings]
    constructor <;> intro hbound <;> cases hbound
  counts c := by
    rw [hcontexts]
    exact ⟨fun _ => rfl, fun _ => rfl⟩

/-- What a thread holds, it holds at least once. -/
theorem Agrees.rests (h : S.Agrees) (t : Id .thread) :
    Record.Rests 0 (S.store.hold? t) (S.store.hold? t) := by
  cases hcurrent : S.store.current? t with
  | none =>
    rw [Store.hold?_of_free hcurrent]
    exact .free
  | some c =>
    rw [Store.hold?_of_current? hcurrent]
    cases hcount : (S.store.binding c).2 with
    | zero =>
      have hfree := (h.registered.counts c).mpr hcount
      rw [(h.registered.agrees t c).mp hcurrent] at hfree
      cases hfree
    | succ n => exact .bound c n

/-- Threads perform enters and exits, also those of brackets, on a store on which nothing is
bound, in any order and with anything between them; listeners and policies perform none. Then,
at every moment:

- a context is bound to at most one thread and a thread to at most one context, and the table of
  threads says of a thread what its context says;
- a bound context counts the successful enters of its thread that are not exited, at least one,
  and a context that is not bound counts none;
- the operations that fail are the exits of a thread that is bound to nothing and, for such a
  thread, the enters that are to bind a context of another thread; these are refused with an
  illegal state and leave every binding and every count as it is;
- a thread that performs a balanced list of enters and exits next, whether the ones that failed are
  counted or not, holds the same context afterwards, entered as often. -/
theorem bindings_agree (host : Host σ) {m : Store σ} (hbindings : m.bindings = [])
    (hcontexts : ∀ c, (m.context c).boundTo = none ∧ (m.context c).enterCount = 0)
    {records : List Record} {S : System σ} (h : Goes host (idle m) records S) :
    (∀ t t' c, S.store.current? t = some c → S.store.current? t' = some c → t = t') ∧
    (∀ t c c', (S.store.context c).boundTo = some t → (S.store.context c').boundTo = some t →
      c = c') ∧
    (∀ t c, S.store.current? t = some c ↔ (S.store.context c).boundTo = some t) ∧
    (∀ t c, S.store.current? t = some c → 0 < (S.store.context c).enterCount ∧
      records.countP (·.opens t) =
        records.countP (·.closes t) + (S.store.context c).enterCount) ∧
    (∀ c, (S.store.context c).boundTo = none → (S.store.context c).enterCount = 0) ∧
    (∀ r S', Performs host S r S' →
      (r.failure?.isSome ↔ r.IsRefused host S.store) ∧
      ∀ e, r.failure? = some e →
        (∃ cause, e = .illegalState cause) ∧ S.store.SameBindings S'.store) ∧
    ∀ t later S', Goes host S later S' →
      Record.Balanced t 0 later ∨ Record.Balanced t 0 (later.filter (·.succeeds)) →
      S'.store.hold? t = S.store.hold? t := by
  have hstart : m.Registered := registered_of_unbound hbindings fun c =>
    Prod.ext (hcontexts c).1 (hcontexts c).2
  have hidle : (idle m).Agrees := agrees_idle hstart
  have hS := h.agrees hidle
  have hagrees (t : Id .thread) (c : Id .context) :
      S.store.current? t = some c ↔ (S.store.context c).boundTo = some t :=
    hS.registered.agrees t c
  refine ⟨?_, ?_, hagrees, ?_, fun c => (hS.registered.counts c).mp,
    fun r S' => hS.failure, ?_⟩
  · intro t t' c ht ht'
    rw [hagrees] at ht ht'
    exact Option.some.inj (ht.symm.trans ht')
  · intro t c c' hc hc'
    rw [← hagrees] at hc hc'
    exact Option.some.inj (hc.symm.trans hc')
  · intro t c ht
    have hlevels := h.levels hidle t
    have hnothing : ((idle m).store.hold? t).levels = 0 := by
      rw [Store.hold?, Store.current?, show (idle m).store.bindings = [] from hbindings]
      rfl
    rw [hnothing, Store.hold?_of_current? ht, Nat.zero_add] at hlevels
    refine ⟨Nat.pos_of_ne_zero fun hzero => ?_, hlevels.trans (Nat.add_comm _ _)⟩
    have hfree := (hS.registered.counts c).mpr hzero
    rw [(hS.registered.agrees t c).mp ht] at hfree
    cases hfree
  · rintro t later S' hlater (hbalanced | hbalanced)
    · have hall : later.filter (fun _ => true) = later := List.filter_eq_self.mpr fun _ _ => rfl
      rw [← hall] at hbalanced
      exact hlater.rests hS t (fun _ => true) (fun _ _ => rfl) (hS.rests t) hbalanced
    · exact hlater.rests hS t Record.succeeds (fun _ hr => hr) (hS.rests t) hbalanced

/-! ## Two threads that enter the same context -/

/-- Enter a context, and then once more. -/
def enteringTwice (c : Id .context) : Program Unit .left :=
  .act (.enter ⟨0⟩ (some c)) fun _ => .act (.enter ⟨0⟩ none) fun _ => .finish (κ := .left) (.ok ())

/-- The first thread has entered the context twice; the second one was refused between. -/
def rivalry : List Record :=
  [.enter ⟨0⟩ ⟨0⟩ (some ⟨0⟩) (.ok ⟨0⟩),
    .enter ⟨1⟩ ⟨0⟩ (some ⟨0⟩) (.error (.illegalState .boundToOtherThread)),
    .enter ⟨0⟩ ⟨0⟩ none (.ok ⟨0⟩)]

/-- The context with a number of levels. -/
def enteredContext (n : Nat) : Store Unit :=
  { Store.initial () with
    contexts := ⟨#[{ factory := ⟨0⟩, boundTo := some ⟨0⟩, enterCount := n }]⟩
    bindings := [(⟨0⟩, ⟨0⟩)] }

theorem completes_bind : Config.Completes Config.answeringHost ⟨0⟩ Config.oneContext
    (.enter ⟨0⟩ (some ⟨0⟩)) (.ok ⟨0⟩) (enteredContext 1) := by
  refine Config.completes_of_run (n := 2) rfl ?_ ?_
  · rintro (_ | _ | i) hi
    · rfl
    · rfl
    · omega
  · rintro (_ | _ | i) hi m₁ c s h
    · cases h
    · cases h
    · omega

theorem completes_refused : Config.Completes Config.answeringHost ⟨1⟩ (enteredContext 1)
    (.enter ⟨0⟩ (some ⟨0⟩)) (.error (.illegalState .boundToOtherThread)) (enteredContext 1) :=
  Config.completes_of_run (n := 0) rfl nofun nofun

theorem completes_nested : Config.Completes Config.answeringHost ⟨0⟩ (enteredContext 1)
    (.enter ⟨0⟩ none) (.ok ⟨0⟩) (enteredContext 2) :=
  Config.completes_of_run (n := 0) rfl nofun nofun

theorem exists_rivalry :
    ∃ S, Goes Config.answeringHost (idle Config.oneContext) rivalry S ∧
      S.store = enteredContext 2 := by
  have hknown (m : Store Unit) (h : m.Knows ⟨0⟩) (c : Id .context) (hc : some ⟨0⟩ = some c) :
      m.Knows c := by
    cases hc
    exact h
  refine ⟨_, .event (e := .begins ⟨0⟩ (enteringTwice ⟨0⟩)) trivial <|
    .event (e := .begins ⟨1⟩ (enteringTwice ⟨0⟩)) trivial <|
    .operation (.enter rfl rfl (hknown _ rfl) completes_bind) <|
    .operation (.enter rfl rfl (hknown _ rfl) completes_refused) <|
    .event (e := .steps ⟨0⟩) ?_ <|
    .operation (.enter rfl rfl nofun completes_nested) (.stays _), rfl⟩
  intro job hjob
  cases hjob
  rfl

theorem unbound_oneContext (c : Id .context) :
    (Config.oneContext.context c).boundTo = none ∧ (Config.oneContext.context c).enterCount = 0 := by
  obtain ⟨_ | i⟩ := c <;> exact ⟨rfl, rfl⟩

/-- The first thread holds the context with both of its enters. -/
theorem agree_rivalry :
    ∃ S, Goes Config.answeringHost (idle Config.oneContext) rivalry S ∧
      (S.store.context ⟨0⟩).boundTo = some ⟨0⟩ ∧ (S.store.context ⟨0⟩).enterCount = 2 ∧
      rivalry.countP (·.opens ⟨0⟩) =
        rivalry.countP (·.closes ⟨0⟩) + (S.store.context ⟨0⟩).enterCount := by
  obtain ⟨S, hS, hstore⟩ := exists_rivalry
  obtain ⟨-, -, hagrees, hcounts, -⟩ :=
    bindings_agree Config.answeringHost rfl unbound_oneContext hS
  have hcurrent : S.store.current? ⟨0⟩ = some ⟨0⟩ := by rw [hstore]; rfl
  refine ⟨S, hS, (hagrees _ _).mp hcurrent, ?_, (hcounts _ _ hcurrent).2⟩
  rw [hstore]
  rfl

end System

end ScriptMachine
