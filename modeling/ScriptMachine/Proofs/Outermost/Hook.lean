import Mathlib.Logic.ExistsUnique
import ScriptMachine.Proofs.Ledger.Restored
import ScriptMachine.Proofs.Outermost.TopCalls
import ScriptMachine.Proofs.Unwinding.Passage

/-!
# Outermost entries are wrapped once

The policy of a context is asked to perform an outermost call by one kind of step,
`Config.Wraps`: an entry begins on the context while no top call is in progress there. The task
that the step leaves on the stack keeps the top call in progress until everything beneath the
hook has ended, and what is left to do then begins nothing. So the hook wraps an outermost entry
exactly once, and nothing that is run beneath it.
-/

namespace ScriptMachine

variable {σ : Type} {α β goal : Kind}

namespace Config

variable (host : Host σ) (thread : Id .thread) (c : Id .context)

/-- The next step has the policy of a context perform an outermost call, with a task beneath it
that is to end the top call. -/
structure Wraps (X : Config σ goal) : Prop where
  begins : X.state.topCalls c < (X.step host thread).state.topCalls c
  performs : ∃ (m : Store σ) (f : Callable) (site : CallSite) (s : Stack σ .completion goal),
    site.context = c ∧
      X.step host thread = performOutermost host m f site (.cons (.clearTopCall c) s)

variable {host thread c} {m : Store σ}

theorem opens_onto (Y : Config σ α) (s : Stack σ α goal) : (Y.onto s).Opens c ↔ Y.Opens c := by
  obtain ⟨m, state⟩ := Y
  cases state with
  | running p r => cases p <;> exact Iff.rfl
  | calling f site r => cases f <;> exact Iff.rfl
  | counting | executing | returning | panicking | crashed => exact Iff.rfl

theorem opens_of_act {X : Config σ goal} {κ : Kind} {a : Action} {k : a.kind.Result → Program σ κ}
    {s : Stack σ κ goal} (hX : X.state = .running (.act a k) s) :
    X.Opens c ↔ a.Opens X.store c := by
  obtain ⟨m, state⟩ := X
  obtain rfl : state = .running (.act a k) s := hX
  exact Iff.rfl

/-- An entry that opens a top call of a context begins with the hook on top of the task that is
to end it, and of tasks that hand on what comes out. -/
def Enters (host : Host σ) (c : Id .context) (rest : Stack σ .completion goal)
    (X : Config σ goal) : Prop :=
  ∃ (m : Store σ) (f : Callable) (site : CallSite), site.context = c ∧
    X = performOutermost host m f site (.cons (.clearTopCall c) rest)

theorem enters_beginOutermost (site : CallSite) (hfree : m.inTopCall site.context = false)
    (f : Callable) (isStrict : Bool) (s : Stack σ .completion goal) :
    (beginOutermost host m f site isStrict s).Enters host site.context s :=
  ⟨_, f, site, rfl, beginOutermost_eq host hfree f isStrict s⟩

theorem enters_beginCapturing (hfree : m.inTopCall c = false) (f : Callable) (scope : Id .scope)
    (args : List Value) (isStrict : Bool) (s : Stack σ .completion goal) :
    (beginCapturing host m f c scope args isStrict s).Enters host c
      (.cons (.restoreCaptures c (m.context c).acceptsCaptures) s) :=
  enters_beginOutermost ⟨c, scope, .object scope, args⟩
    ((Store.inTopCall_modifyContext rfl).trans hfree) f isStrict _

end Config

/-! ## The end of an outermost call -/

/-- A task that ends an outermost call, or hands on what comes out of it. -/
def Task.IsClosing : Task σ α β → Prop
  | .clearTopCall _ | .restoreCaptures _ _ | .reportStep _ => True
  | _ => False

/-- All that is left to do is to end outermost calls and to hand on what comes out. -/
def Stack.IsClosing : {α : Kind} → Stack σ α goal → Prop
  | _, .nil => True
  | _, .cons t rest => t.IsClosing ∧ rest.IsClosing

namespace Config

variable {host : Host σ} {thread : Id .thread} {c : Id .context} {m : Store σ}

/-- A result or a panic comes out of an outermost call. -/
def IsClosing (X : Config σ goal) : Prop :=
  match X.state with
  | .returning _ s | .panicking s => s.IsClosing
  | .crashed => True
  | _ => False

theorem IsClosing.not_opens {X : Config σ goal} (h : X.IsClosing) : ¬ X.Opens c := by
  obtain ⟨m, state⟩ := X
  cases state with
  | returning | panicking | crashed => exact id
  | running | calling | counting | executing => exact absurd h id

theorem IsClosing.step {X : Config σ goal} (h : X.IsClosing) : (X.step host thread).IsClosing := by
  obtain ⟨m, state⟩ := X
  cases state with
  | returning x s =>
    cases s with
    | nil => exact h
    | cons t s =>
      obtain ⟨ht, hs⟩ := h
      cases t with
      | clearTopCall | restoreCaptures => exact hs
      | reportStep r => cases x <;> exact hs
      | _ => exact absurd ht id
  | panicking s =>
    cases s with
    | nil => exact h
    | cons t s =>
      obtain ⟨ht, hs⟩ := h
      cases t with
      | clearTopCall | restoreCaptures | reportStep => exact hs
      | _ => exact absurd ht id
  | crashed => exact h
  | running | calling | counting | executing => exact absurd h id

theorem IsClosing.run {X : Config σ goal} (h : X.IsClosing) (n : Nat) :
    (X.run host thread n).IsClosing := by
  induction n generalizing X with
  | zero => exact h
  | succ n ih => exact ih h.step

/-! ## Beneath the hook -/

theorem not_opens_of_inTopCall {X : Config σ goal} (h : X.topCalls c = ⟨true, 0⟩) :
    ¬ (X.Opens c ∧ X.store.inTopCall c = false) := by
  rintro ⟨-, hfree⟩
  have hflag : X.store.inTopCall c = true := congrArg TopCalls.inProgress h
  rw [hflag] at hfree
  cases hfree

/-- Code on a stack that is not to end a top call runs within it. -/
theorem run_inTopCall {Z : Config σ goal} (h : Z.topCalls c = ⟨true, 0⟩) (n : Nat) :
    (Z.run host thread n).topCalls c = ⟨true, 0⟩ := by
  induction n generalizing Z with
  | zero => exact h
  | succ n ih =>
    have hstep : (Z.step host thread).topCalls c = Z.topCalls c :=
      (step_proceeds host thread (not_opens_of_inTopCall h)).stays (congrArg TopCalls.tasks h)
    exact ih (hstep.trans h)

/-- Once the hook runs, nothing begins another top call of the context until it has ended, nor
what is left to do then. -/
theorem not_opens_beneath {Z : Config σ α} (hZ : Z.topCalls c = ⟨true, 0⟩) {s : Stack σ α goal}
    (hs : s.IsClosing) (n : Nat) :
    ¬ (((Z.onto s).run host thread n).Opens c ∧
      ((Z.onto s).run host thread n).store.inTopCall c = false) := by
  by_cases hended : ∃ k ≤ n, ((Z.run host thread k).ending?).isSome
  · obtain ⟨k, hk, hsome⟩ := hended
    obtain ⟨x, hx⟩ := Option.isSome_iff_exists.mp hsome
    obtain ⟨j, hj, hrun, hfirst⟩ := exists_first_ending host thread hx
    rw [← hrun] at hx
    have hclosing : ((Z.run host thread j).onto s).IsClosing := by
      rcases ending_cases hx with ⟨m, r, h⟩ | ⟨m, h⟩ | ⟨m, h⟩
      · rw [h]
        exact hs
      · rw [h]
        exact hs
      · rw [h]
        exact trivial
    obtain ⟨d, rfl⟩ := Nat.exists_eq_add_of_le (Nat.le_trans hj hk)
    rw [run_add, run_onto host thread s hfirst]
    exact fun h => (hclosing.run d).not_opens h.1
  · -- the hook still runs, so the top call is in progress
    have hopen : ∀ j < n, (Z.run host thread j).ending? = none := by
      intro j hj
      cases hend : (Z.run host thread j).ending? with
      | none => rfl
      | some x => exact absurd ⟨j, Nat.le_of_lt hj, by rw [hend]; rfl⟩ hended
    rw [run_onto host thread s hopen]
    rintro ⟨-, hfree⟩
    have hflag : (Z.run host thread n).store.inTopCall c = true :=
      congrArg TopCalls.inProgress (run_inTopCall hZ n)
    rw [show (Z.run host thread n).store.inTopCall c = false from hfree] at hflag
    cases hflag

/-! ## The step that begins an outermost call -/

variable (host thread) in
/-- An action that opens a top call begins with the hook. -/
theorem exists_enters {a : Action} (h : a.Opens m c) (hfree : m.inTopCall c = false) :
    ∃ rest : Stack σ .completion a.kind, rest.IsClosing ∧
      (ofAction host thread m a).Enters host c rest := by
  have hnone : (m.context c).topCall.isSome = false := hfree
  cases a with
  | callOutermost f site isStrict =>
    subst h
    exact ⟨.nil, trivial, enters_beginOutermost _ hfree f isStrict .nil⟩
  | executeCapturing e other scope =>
    obtain ⟨hscript, rfl⟩ := h
    refine ⟨.cons (.restoreCaptures other (m.context other).acceptsCaptures) .nil,
      And.intro trivial trivial, ?_⟩
    simp only [ofAction, beginAction, hscript, beginAction.beginCapturingCall, hnone, Bool.not_true,
      Bool.false_eq_true, if_false]
    exact enters_beginCapturing hfree _ _ _ _ .nil
  | callCapturing e other scope args =>
    subst h
    refine ⟨.cons (.restoreCaptures other (m.context other).acceptsCaptures) .nil,
      And.intro trivial trivial, ?_⟩
    simp only [ofAction, beginAction, beginAction.beginCapturingCall, hnone, Bool.false_eq_true,
      if_false]
    exact enters_beginCapturing hfree _ _ _ _ .nil
  | resume k other scope v =>
    obtain ⟨hheld, rfl⟩ := h
    refine ⟨.cons (.restoreCaptures other (m.context other).acceptsCaptures) .nil,
      And.intro trivial trivial, ?_⟩
    simp only [ofAction, beginAction, hheld, hnone, Bool.not_true, Bool.false_eq_true, if_false]
    exact enters_beginCapturing hfree _ _ _ _ .nil
  | step via g op other scope v =>
    obtain ⟨hvia, rfl⟩ := h
    have hheld : ({ m with resumptions := (m.resumptions.insert { value := some v }).2 } :
        Store σ).inTopCall other = false := hfree
    refine ⟨.cons (.reportStep (m.resumptions.insert { value := some v }).1) .nil,
      And.intro trivial trivial, ?_⟩
    simp only [ofAction, beginAction, beginResumption, hvia, hnone, Bool.not_true,
      Bool.false_eq_true, if_false]
    exact enters_beginOutermost ⟨other, scope, .object scope, []⟩ hheld _ _ _
  | call | execute | enter | exit | makeContext => exact absurd h id

/-- A call that opens a top call begins with the hook. -/
theorem enters_beginCall {e : Executable} {site : CallSite}
    (hfree : m.inTopCall site.context = false) :
    (beginCall host m (.executable e) site (.nil : Stack σ .completion .completion)).Enters host
      site.context .nil := by
  have hnone : (m.context site.context).topCall.isSome = false := hfree
  simp only [beginCall, hnone, Bool.false_eq_true, if_false]
  exact enters_beginOutermost _ hfree _ _ .nil

theorem performOutermost_append (m : Store σ) (f : Callable) (site : CallSite)
    (r : Stack σ .completion α) (s : Stack σ α goal) :
    performOutermost host m f site (r.append s) = (performOutermost host m f site r).onto s := by
  unfold performOutermost
  split <;> rfl

theorem Enters.onto {Y : Config σ α} {rest : Stack σ .completion α} (h : Y.Enters host c rest)
    (s : Stack σ α goal) : (Y.onto s).Enters host c (rest.append s) := by
  obtain ⟨m, f, site, hsite, rfl⟩ := h
  exact ⟨m, f, site, hsite, (performOutermost_append m f site _ s).symm⟩

variable (host thread) in
/-- A step that opens a top call in which none is in progress begins with the hook. -/
theorem exists_enters_of_opens {X : Config σ goal} (h : X.Opens c)
    (hfree : X.store.inTopCall c = false) :
    ∃ s : Stack σ .completion goal, (X.step host thread).Enters host c s := by
  obtain ⟨m, state⟩ := X
  cases state with
  | running p s =>
    cases p with
    | act a k =>
      obtain ⟨rest, -, henters⟩ := exists_enters host thread h hfree
      rw [step_of_act rfl]
      exact ⟨_, henters.onto _⟩
    | finish | panic | ask | bracket | guard => exact absurd h id
  | calling f site s =>
    cases f with
    | executable e =>
      have hsite : site.context = c := h
      subst hsite
      have hstep : step host thread ⟨m, .calling (.executable e) site s⟩ =
          (beginCall host m (.executable e) site .nil).onto s :=
        beginCall_append host m (.executable e) site .nil s
      rw [hstep]
      exact ⟨_, (enters_beginCall hfree).onto s⟩
    | hostFunction | resumption | continuation => exact absurd h id
  | counting | executing | returning | panicking | crashed => exact absurd h id

/-- The hook of a context is invoked by the entries from outside, while no top call is in
progress. -/
theorem wraps_iff {X : Config σ goal} :
    X.Wraps host thread c ↔ X.store.inTopCall c = false ∧ X.Opens c := by
  constructor
  · intro h
    refine Classical.byContradiction fun hnot => ?_
    have hle : (X.step host thread).state.topCalls c ≤ X.state.topCalls c :=
      (step_proceeds host thread fun ho => hnot ⟨ho.2, ho.1⟩).tasks_le
    exact absurd h.begins (Nat.not_lt_of_le hle)
  · rintro ⟨hfree, hopens⟩
    obtain ⟨-, htasks⟩ := step_begins_topCall host thread hopens hfree
    obtain ⟨s, m, f, site, hsite, hstep⟩ :=
      exists_enters_of_opens host thread hopens hfree
    refine ⟨?_, m, f, site, s, hsite, hstep⟩
    rw [htasks]
    exact Nat.lt_succ_self _

/-! ## Whole entries -/

/-- An entry runs from the hook to its own end, and the hook within the top call. -/
theorem Enters.not_opens {Y : Config σ α} {rest : Stack σ .completion α}
    (h : Y.Enters host c rest) (hrest : rest.IsClosing) (hflag : Y.store.inTopCall c = true)
    (n : Nat) :
    ¬ ((Y.run host thread n).Opens c ∧ (Y.run host thread n).store.inTopCall c = false) := by
  obtain ⟨m, f, site, -, rfl⟩ := h
  obtain ⟨hstore, htasks, -⟩ :=
    performOutermost_spec (c := c) host m f site (.nil : Stack σ .completion .completion)
  rw [(performOutermost_spec (c := c) host m f site _).1] at hflag
  have hhook : (performOutermost host m f site .nil).topCalls c = ⟨true, 0⟩ := by
    rw [topCalls, hstore, hflag, htasks]
    rfl
  have hclosing : (Stack.cons (.clearTopCall c) rest).IsClosing := And.intro trivial hrest
  have honto : performOutermost host m f site (.cons (.clearTopCall c) rest) =
      (performOutermost host m f site .nil).onto (.cons (.clearTopCall c) rest) :=
    performOutermost_append m f site .nil _
  rw [honto]
  exact not_opens_beneath hhook hclosing n

end Config

/-- A script is executed or a function is called on a context, without further ado. -/
def Action.Calls (c : Id .context) : Action → Prop
  | .call (.executable _) site => site.context = c
  | .execute e other _ => e.routine.isScript = true ∧ other = c
  | _ => False

theorem Action.Calls.on {c : Id .context} {a : Action} (h : a.Calls c) : a.on? = some c := by
  cases a with
  | call f site =>
    cases f with
    | executable e => exact congrArg some h
    | hostFunction | resumption | continuation => exact absurd h id
  | execute e other scope => exact congrArg some h.2
  | callOutermost | executeCapturing | callCapturing | resume | step | enter | exit
  | makeContext => exact absurd h id

/-- Captures cannot be accepted, nor can a continuation be resumed, within a top call. -/
inductive Action.Refused (c : Id .context) : Action → Fault → Prop
  | execute {e : Executable} {scope : Id .scope} (h : e.routine.isScript = true) :
    Refused c (.executeCapturing e c scope) (.illegalState .captureEntryDuringTopCall)
  | call (e : Executable) (scope : Id .scope) (args : List Value) :
    Refused c (.callCapturing e c scope args) (.illegalState .captureEntryDuringTopCall)
  | resume (k : Id .continuation) (scope : Id .scope) (v : Value) :
    Refused c (.resume k c scope v) (.illegalState .resumeDuringTopCall)

namespace Config

variable (host : Host σ) (thread : Id .thread)

/-- After a number of steps an action, begun now, has not come to its end. -/
def Within (m : Store σ) (a : Action) (j : Nat) : Prop :=
  ∀ i < j, ((ofAction host thread m a).run host thread i).ending? = none

variable {host thread} {c : Id .context} {κ : Kind} {X : Config σ goal} {a : Action}
  {k : a.kind.Result → Program σ κ} {s : Stack σ κ goal}

/-- While an action is performed, the hook is invoked by what it does itself. -/
theorem wraps_within (hX : X.state = .running (.act a k) s) {j : Nat}
    (hwithin : Within host thread X.store a (j + 1)) :
    (X.run host thread (j + 1)).Wraps host thread c ↔
      ((ofAction host thread X.store a).run host thread j).store.inTopCall c = false ∧
        ((ofAction host thread X.store a).run host thread j).Opens c := by
  have hrun : X.run host thread (j + 1) =
      ((ofAction host thread X.store a).run host thread j).onto (.cons (.program k) s) := by
    show (X.step host thread).run host thread j = _
    rw [step_of_act hX]
    exact run_onto host thread _ fun i hi => hwithin i (Nat.lt_succ_of_lt hi)
  rw [hrun, wraps_iff, opens_onto]
  exact Iff.rfl

/-- An entry that opens a top call invokes the hook at once, and never again. -/
theorem existsUnique_wraps_of_opens (hX : X.state = .running (.act a k) s)
    (hfree : X.store.inTopCall c = false) (hknown : X.store.Knows c) (h : a.Opens X.store c) :
    ∃! j, Within host thread X.store a j ∧ (X.run host thread j).Wraps host thread c := by
  refine ⟨0, ⟨fun i hi => absurd hi (Nat.not_lt_zero i), ?_⟩, ?_⟩
  · exact wraps_iff.mpr ⟨hfree, (opens_of_act hX).mpr h⟩
  · rintro j ⟨hwithin, hwraps⟩
    cases j with
    | zero => rfl
    | succ j =>
      obtain ⟨rest, hrest, henters⟩ := exists_enters host thread h hfree
      have hflag := ((turns_beginAction host thread a).begun h hfree).1 hknown
      obtain ⟨hfree', hopens⟩ := (wraps_within hX hwithin).mp hwraps
      exact absurd ⟨hopens, hfree'⟩ (henters.not_opens hrest hflag j)

/-- A call of a script function, on a stack of its own, begins with the hook. -/
theorem run_calling_not_opens {m : Store σ} (e : Executable) (site : CallSite)
    (hfree : m.inTopCall site.context = false) (hknown : m.Knows site.context) (n : Nat) :
    ¬ (((⟨m, .calling (.executable e) site .nil⟩ : Config σ .completion).run host thread
        (n + 1)).Opens site.context ∧
      ((⟨m, .calling (.executable e) site .nil⟩ : Config σ .completion).run host thread
        (n + 1)).store.inTopCall site.context = false) := by
  have hflag := ((turns_beginCall host (.executable e) site).begun rfl hfree).1 hknown
  exact (enters_beginCall hfree).not_opens trivial hflag n

/-- A call invokes the hook when it begins, one step later, and never again. -/
theorem existsUnique_wraps_of_calls (hX : X.state = .running (.act a k) s)
    (hfree : X.store.inTopCall c = false) (hknown : X.store.Knows c) (h : a.Calls c) :
    ∃! j, Within host thread X.store a j ∧ (X.run host thread j).Wraps host thread c := by
  -- the two ways to call come down to the same configuration
  have hbegin : (ofAction host thread X.store a).ending? = none ∧
      ((ofAction host thread X.store a).store.inTopCall c = false ∧
        (ofAction host thread X.store a).Opens c) ∧
      (¬ a.Opens X.store c) ∧
      ∀ n, ¬ (((ofAction host thread X.store a).run host thread (n + 1)).Opens c ∧
        ((ofAction host thread X.store a).run host thread (n + 1)).store.inTopCall c = false) := by
    cases a with
    | call f site =>
      cases f with
      | executable e =>
        have hsite : site.context = c := h
        subst hsite
        exact ⟨rfl, ⟨hfree, rfl⟩, id, run_calling_not_opens e _ hfree hknown⟩
      | hostFunction | resumption | continuation => exact absurd h id
    | execute e other scope =>
      obtain ⟨hscript, rfl⟩ := h
      have hcalling : ofAction host thread X.store (.execute e other scope) =
          ⟨X.store, .calling (.executable e) ⟨other, scope, .object scope, []⟩ .nil⟩ := by
        simp only [ofAction, beginAction, hscript, Bool.not_true, Bool.false_eq_true, if_false]
      rw [hcalling]
      exact ⟨rfl, ⟨hfree, rfl⟩, id,
        run_calling_not_opens e ⟨other, scope, .object scope, []⟩ hfree hknown⟩
    | callOutermost | executeCapturing | callCapturing | resume | step | enter | exit
    | makeContext => exact absurd h id
  obtain ⟨hrunning, hopens, hnot, hafter⟩ := hbegin
  have hwithin : Within host thread X.store a 1 := by
    intro i hi
    obtain rfl : i = 0 := Nat.lt_one_iff.mp hi
    exact hrunning
  refine ⟨1, ⟨hwithin, (wraps_within hX hwithin).mpr hopens⟩, ?_⟩
  rintro j ⟨hj, hwraps⟩
  cases j with
  | zero => exact absurd ((opens_of_act hX).mp (wraps_iff.mp hwraps).2) hnot
  | succ j =>
    obtain ⟨hfree', hopens'⟩ := (wraps_within hX hj).mp hwraps
    cases j with
    | zero => rfl
    | succ j => exact absurd ⟨hopens', hfree'⟩ (hafter j)

/-- Within a top call no action invokes the hook, nor does anything beneath it. -/
theorem not_wraps_of_inTopCall (hX : X.state = .running (.act a k) s)
    (hcalled : X.store.inTopCall c = true) {j : Nat} (hwithin : Within host thread X.store a j) :
    ¬ (X.run host thread j).Wraps host thread c := by
  intro hwraps
  cases j with
  | zero =>
    have hfree := (wraps_iff.mp hwraps).1
    rw [show (X.run host thread 0).store.inTopCall c = _ from hcalled] at hfree
    cases hfree
  | succ j =>
    have hcalm : (ofAction host thread X.store a).Calm c X.store := by
      refine (turns_beginAction host thread a).calm ?_
      rintro ⟨-, hfree⟩
      rw [hcalled] at hfree
      cases hfree
    have hbegin : (ofAction host thread X.store a).topCalls c = ⟨true, 0⟩ := by
      rw [topCalls, hcalm.1, hcalm.2, hcalled]
    obtain ⟨hfree, hopens⟩ := (wraps_within hX hwithin).mp hwraps
    exact not_opens_of_inTopCall (run_inTopCall hbegin j) ⟨hopens, hfree⟩

/-- What is refused within a top call fails at once and leaves the store as it is. -/
theorem step_of_refused {f : Fault} (hX : X.state = .running (.act a k) s)
    (hcalled : X.store.inTopCall c = true) (h : a.Refused c f) :
    ∃ y, a.kind.Carries (.fault f) y ∧
      X.step host thread = give X.store a.kind y (.cons (.program k) s) := by
  rw [step_of_act hX]
  have hsome : (X.store.context c).topCall.isSome = true := hcalled
  cases h with
  | execute hscript =>
    refine ⟨.error (.fault _), rfl, ?_⟩
    simp only [ofAction, beginAction, hscript, beginAction.beginCapturingCall, hsome, Bool.not_true,
      Bool.false_eq_true, if_false, if_true]
    rfl
  | call e scope args =>
    refine ⟨.error (.fault _), rfl, ?_⟩
    simp only [ofAction, beginAction, beginAction.beginCapturingCall, hsome, if_true]
    rfl
  | resume r scope v =>
    refine ⟨.error (.fault _), rfl, ?_⟩
    simp only [ofAction, beginAction, hsome, if_true]
    rfl

/-! ## Whole runs -/

/-- The stack is to end the top call of a context that is in progress, and no other. -/
def HasOneTopCall (c : Id .context) (X : Config σ goal) : Prop :=
  X.state = .crashed ∨ X.state.topCalls c = (X.store.inTopCall c).toNat

theorem step_hasOneTopCall {X : Config σ goal} (h : X.HasOneTopCall c) (hgrounded : X.IsGrounded) :
    (X.step host thread).HasOneTopCall c := by
  by_cases hopens : X.Opens c ∧ X.store.inTopCall c = false
  · obtain ⟨hopens, hfree⟩ := hopens
    obtain ⟨hflag, htasks⟩ := step_begins_topCall host thread hopens hfree
    refine .inr ?_
    rw [htasks, hflag (hgrounded c hopens.on)]
    rcases h with hcrashed | hone
    · rw [hcrashed]
      rfl
    · rw [hone, hfree]
      rfl
  · rcases step_proceeds host thread hopens with hmoves | ⟨hcrashed, -⟩
    · rcases h with hcrashed | hone
      · left
        obtain ⟨m, state⟩ := X
        obtain rfl : state = .crashed := hcrashed
        rfl
      · right
        generalize hbefore : X.topCalls c = l at hmoves
        generalize hafter : (X.step host thread).topCalls c = l' at hmoves
        have htasks : X.state.topCalls c = l.tasks := congrArg TopCalls.tasks hbefore
        have hflag : X.store.inTopCall c = l.inProgress := congrArg TopCalls.inProgress hbefore
        have htasks' : (X.step host thread).state.topCalls c = l'.tasks :=
          congrArg TopCalls.tasks hafter
        have hflag' : (X.step host thread).store.inTopCall c = l'.inProgress :=
          congrArg TopCalls.inProgress hafter
        rw [htasks', hflag']
        rw [htasks, hflag] at hone
        cases hmoves with
        | stays => exact hone
        | ended inProgress n =>
          have hlast : n + 1 ≤ 1 := Nat.le_trans (Nat.le_of_eq hone) (Bool.toNat_le inProgress)
          exact Nat.le_zero.mp (Nat.le_of_succ_le_succ hlast)
    · exact .inl hcrashed

theorem run_hasOneTopCall {X : Config σ goal} (h : X.HasOneTopCall c)
    (hgrounded : ∀ n, (X.run host thread n).IsGrounded) (n : Nat) :
    (X.run host thread n).HasOneTopCall c := by
  induction n generalizing X with
  | zero => exact h
  | succ n ih => exact ih (step_hasOneTopCall h (hgrounded 0)) fun j => hgrounded (j + 1)

/-- Take a run of host code on contexts that were made, from a store in which no top call of a
context is in progress. Its policy is asked to perform an outermost call where an entry begins
while no top call is in progress, and nowhere else; and the stack is to end at most one top call.

Whatever action host code performs: if it enters the context while no top call is in progress
there, then from its beginning to its end the policy is asked exactly once. If a top call is in
progress, the policy is not asked at all; and an entry that accepts captures, or the resumption
of a continuation, fails at once with a fault and leaves the store as it is. -/
theorem entry_wrapped_once {m : Store σ} {p : Program σ goal} (hfree : m.inTopCall c = false)
    (hgrounded : ∀ n, ((start m p).run host thread n).IsGrounded) {n : Nat} {X : Config σ goal}
    (hrun : (start m p).run host thread n = X) :
    (X.Wraps host thread c ↔ X.store.inTopCall c = false ∧ X.Opens c) ∧
    X.HasOneTopCall c ∧
    ∀ {κ : Kind} (a : Action) (k : a.kind.Result → Program σ κ) (s : Stack σ κ goal),
      X.state = .running (.act a k) s →
      (X.store.inTopCall c = false → a.Opens X.store c ∨ a.Calls c →
        ∃! j, Within host thread X.store a j ∧ (X.run host thread j).Wraps host thread c) ∧
      (X.store.inTopCall c = true →
        (∀ j, Within host thread X.store a j → ¬ (X.run host thread j).Wraps host thread c) ∧
        ∀ f, a.Refused c f → ∃ y, a.kind.Carries (.fault f) y ∧
          X.step host thread = give X.store a.kind y (.cons (.program k) s)) := by
  subst hrun
  refine ⟨wraps_iff, ?_, ?_⟩
  · refine run_hasOneTopCall (.inr ?_) hgrounded n
    rw [show (start m p).store.inTopCall c = false from hfree]
    rfl
  · intro κ a k s hX
    constructor
    · intro hfree hentry
      rcases hentry with hopens | hcalls
      · have hknown := hgrounded n c (Opens.on ((opens_of_act hX).mpr hopens))
        exact existsUnique_wraps_of_opens hX hfree hknown hopens
      · have hknown := hgrounded n c (by rw [hX]; exact hcalls.on)
        exact existsUnique_wraps_of_calls hX hfree hknown hcalls
    · intro hcalled
      constructor
      · intro j hwithin
        exact not_wraps_of_inTopCall hX hcalled hwithin
      · intro f hrefused
        exact step_of_refused hX hcalled hrefused

/-- A call that accepts captures invokes the hook once. The host function that it reaches calls
back within the top call, and that invokes the hook no more. -/
theorem entry_wrapped_once_capturingCall :
    (∃! j, Within callingHost ⟨0⟩ oneContext
        (.callCapturing callArgument ⟨0⟩ ⟨0⟩ [.hostFunction ⟨⟨0⟩, "f"⟩]) j ∧
      ((start oneContext capturingCall).run callingHost ⟨0⟩ j).Wraps callingHost ⟨0⟩ ⟨0⟩) ∧
    ∀ j, Within callingHost ⟨0⟩ whileRunning innerCall j →
      ¬ (callbackConfig.run callingHost ⟨0⟩ j).Wraps callingHost ⟨0⟩ ⟨0⟩ := by
  constructor
  · obtain ⟨-, -, hactions⟩ := entry_wrapped_once (c := ⟨0⟩) (m := oneContext) rfl
      isGrounded_capturingCall (n := 0) rfl
    exact (hactions _ _ _ rfl).1 rfl (.inl rfl)
  · obtain ⟨-, -, hactions⟩ := entry_wrapped_once (c := ⟨0⟩) (m := oneContext) rfl
      isGrounded_capturingCall run_capturingCall
    exact ((hactions _ _ _ rfl).2 rfl).1

end Config

end ScriptMachine
