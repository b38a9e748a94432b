import ScriptMachine.Proofs.Capture.Turn
import ScriptMachine.Proofs.Machine.Bookkeeping
import ScriptMachine.Proofs.Machine.Sight

/-!
# Courses of a run

A `Course` follows a run that accepts captures from one host call of interpreted code to the
next. A host function may answer, or it may capture; then the run ends, and the course goes on
with any later run that resumes the continuation with a value. What was exchanged with the host
on the way is recorded: a capture that was resumed with a value counts as a host function that
returned the value at that time.
-/

namespace ScriptMachine

variable {σ : Type}

/-- The standard way to perform the outermost call of a context, as a program. -/
def Program.standardOutermost (f : Callable) (site : CallSite) : Program σ .completion :=
  .act (.call f site) fun (o : Outcome) =>
    match o with
    | .ok v => .ask (.value (.flatten v)) fun (w : Value) => .finish (κ := .completion) (.ok w)
    | .error e => .finish (κ := .completion) (.error e)

/-- What the standard way does with the outcome of the call: a string is made flat. -/
def Program.finishing (o : Outcome) : Program σ .completion :=
  match o with
  | .ok v => .ask (.value (.flatten v)) fun (w : Value) => .finish (κ := .completion) (.ok w)
  | .error e => .finish (κ := .completion) (.error e)

/-- The policy performs outermost calls in the standard way. -/
def Policy.IsDefault (host : Host σ) : Policy → Prop
  | .standard | .planned _ => True
  | .custom p => ∀ f site, host.outermost p f site = .standardOutermost f site

/-- A context on which a run may begin: it was made, it runs nothing and observes no
instructions, and its policy performs outermost calls in the standard way. -/
structure Store.Ready (host : Host σ) (m : Store σ) (c : Id .context) : Prop where
  known : m.Knows c
  idle : (m.context c).topCall = none
  unobserved : (m.context c).observerThreshold = 0
  isDefault : (m.factoryOf c).policy.IsDefault host

/-- The ways to start a run that accepts captures. -/
inductive Entry where
  | script (e : Executable) (h : e.routine.isScript) (scope : Id .scope)
  | function (e : Executable) (scope : Id .scope) (args : List Value)

/-- The action that starts a run on a context. -/
abbrev Entry.action (c : Id .context) : Entry → Action
  | .script e _ scope => .executeCapturing e c scope
  | .function e scope args => .callCapturing e c scope args

namespace Config

/-- An action under way on its own. -/
def ofAction (host : Host σ) (thread : Id .thread) (m : Store σ) (a : Action) :
    Config σ a.kind :=
  beginAction host thread m a .nil

/-- A run from an entry. -/
def ofEntry (host : Host σ) (thread : Id .thread) (m : Store σ) (c : Id .context) :
    Entry → Config σ .completion
  | .script e _ scope => ofAction host thread m (.executeCapturing e c scope)
  | .function e scope args => ofAction host thread m (.callCapturing e c scope args)

/-- Interpreted code calls a host function. -/
abbrev atHostCall (m : Store σ) (h : HostFunction) (site : CallSite) (a : Activation)
    (s : Stack σ .exit .completion) : Config σ .completion :=
  ⟨m, .calling (.hostFunction h) site (.cons (.called a) s)⟩

/-- What can be seen at the moment. -/
def report? (X : Config σ .completion) : Option Report :=
  match X.state with
  | .calling (.hostFunction h) site (.cons (.called _) _) =>
    some (.call ⟨h, site.scope, site.receiver, site.args, X.store.world⟩)
  | .returning o .nil => some (.ended o X.store.world)
  | _ => none

variable (host : Host σ) (thread : Id .thread)

/-- There is nothing to see for a number of steps. -/
def QuietFor (n : Nat) (X Y : Config σ .completion) : Prop :=
  X.run host thread n = Y ∧ ∀ k < n, (X.run host thread k).report? = none

/-- A run comes to a configuration without anything to see before. -/
def Quiet (X Y : Config σ .completion) : Prop := ∃ n, QuietFor host thread n X Y

/-- The next thing to see. -/
def Reports (X : Config σ .completion) (r : Report) : Prop :=
  ∃ Y, Quiet host thread X Y ∧ Y.report? = some r

/-- A host function that is called gives an outcome and leaves a store. -/
def Answers (m : Store σ) (h : HostFunction) (site : CallSite) (o : Outcome) (m' : Store σ) :
    Prop :=
  ∃ n, run host thread n ⟨m, .calling (.hostFunction h) site .nil⟩ =
    (⟨m', .returning (κ := .completion) o .nil⟩ : Config σ .completion)

/-- A host program asks for a capture on a context and is given a continuation. -/
def IsGiven (c : Id .context) (k : Id .continuation) {goal : Kind} (X : Config σ goal) : Prop :=
  ∃ (κ : Kind) (next : Except Fault Pending → Program σ κ) (s : Stack σ κ goal) (m : Store σ),
    X.state = .running (.ask (.context (.requestCapture c)) next) s ∧
      X.store.requestCapture c = .ok (⟨k, none⟩, m)

/-- A host function captures: it asks for a capture on its way and answers with the continuation
it is given, which nobody has used. -/
structure Captures (m : Store σ) (h : HostFunction) (site : CallSite) (p : Pending)
    (m' : Store σ) : Prop where
  answers : Answers host thread m h site (.error (.suspended p)) m'
  isGiven : ∃ n, IsGiven site.context p.continuation
    (run host thread n (⟨m, .calling (.hostFunction h) site .nil⟩ : Config σ .completion))
  pending : m'.continuations.get p.continuation = .pending

/-- The run ends with a continuation. -/
def Suspends (X : Config σ .completion) (p : Pending) (m : Store σ) : Prop :=
  ∃ n, X.run host thread n = ⟨m, .returning (κ := .completion) (.error (.suspended p)) .nil⟩

/-- From one host call of a run to the next, with a number of suspensions on the way. -/
inductive Course (limit : Nat) :
    Nat → Config σ .completion → List Exchange → Config σ .completion → Prop
  | here (X : Config σ .completion) : Course limit 0 X [] X
  /-- A host function answers. -/
  | answered {X Y : Config σ .completion} {m m' : Store σ} {h : HostFunction} {site : CallSite}
      {a : Activation} {s : Stack σ .exit .completion} {o : Outcome} {cuts : Nat}
      {exchanges : List Exchange}
      (hquiet : Quiet host thread X (atHostCall m h site a s))
      (hanswer : Answers host thread m h site o m')
      (hplain : ∀ p, o ≠ .error (.suspended p))
      (hunobserved : (m'.context site.context).observerThreshold = 0)
      (rest : Course limit cuts ⟨m', .returning (κ := .completion) o (.cons (.called a) s)⟩
        exchanges Y) :
      Course limit cuts X
        (⟨⟨h, site.scope, site.receiver, site.args, m.world⟩, o, m'.world⟩ :: exchanges) Y
  /-- A host function captures, the run ends, and the continuation is resumed with a value by a
  run on a context of the same limit, under any scope. -/
  | resumed {X Y : Config σ .completion} {m m₁ m₂ m₃ : Store σ} {h : HostFunction}
      {site : CallSite} {a : Activation} {s : Stack σ .exit .completion} {p : Pending}
      {c : Id .context} {scope : Id .scope} {v : Value} {cuts : Nat} {exchanges : List Exchange}
      (hquiet : Quiet host thread X (atHostCall m h site a s))
      (hcapture : Captures host thread m h site p m₁)
      (hend : Suspends host thread X p m₂)
      (hheld : m₃.continuations.get p.continuation = m₂.continuations.get p.continuation)
      (hready : m₃.Ready host c) (hlimit : (m₃.context c).frameLimit = limit)
      (rest : Course limit cuts (ofAction host thread m₃ (.resume p.continuation c scope v))
        exchanges Y) :
      Course limit (cuts + 1) X
        (⟨⟨h, site.scope, site.receiver, site.args, m.world⟩, .ok v, m₃.world⟩ :: exchanges) Y

variable {host thread} in
/-- An action begins on a stack of its own. -/
theorem step_of_act {goal κ : Kind} {X : Config σ goal} {a : Action}
    {k : a.kind.Result → Program σ κ} {s : Stack σ κ goal} (hX : X.state = .running (.act a k) s) :
    X.step host thread = (ofAction host thread X.store a).onto (.cons (.program k) s) := by
  obtain ⟨m, state⟩ := X
  obtain rfl : state = .running (.act a k) s := hX
  exact beginAction_append host thread m a .nil (.cons (.program k) s)

/-! ## Outermost calls -/

variable {host} in
/-- Where outermost calls are performed in the standard way, the call is begun at once, or by a
program that does nothing before. -/
theorem beginOutermost_of_isDefault {goal : Kind} (m : Store σ) (site : CallSite)
    (hknown : m.Knows site.context) (hidle : (m.context site.context).topCall = none)
    (hdefault : (m.factoryOf site.context).policy.IsDefault host) (f : Callable)
    (isStrict : Bool) (s : Stack σ .completion goal) :
    ∃ m' : Store σ, m' = (m.modifyContext site.context fun cx =>
        { cx with topCall := some ⟨site.scope, isStrict⟩ }) ∧
      (beginOutermost host m f site isStrict s =
          ⟨m', .calling f site (.cons .flattenResult (.cons (.clearTopCall site.context) s))⟩ ∨
        beginOutermost host m f site isStrict s =
          ⟨m', .running (.act (.call f site) Program.finishing)
            (.cons (.clearTopCall site.context) s)⟩) := by
  refine ⟨_, rfl, ?_⟩
  have hpolicy : ((m.modifyContext site.context fun cx =>
      { cx with topCall := some ⟨site.scope, isStrict⟩ }).factoryOf site.context).policy =
        (m.factoryOf site.context).policy := by
    simp only [Store.factoryOf, Store.context_modifyContext hknown]
    rfl
  simp only [beginOutermost, hidle, Option.isSome_none, Bool.false_eq_true, if_false, hpolicy]
  cases hp : (m.factoryOf site.context).policy with
  | standard => exact .inl rfl
  | planned plan => exact .inl rfl
  | custom p =>
    rw [hp] at hdefault
    have hstandard : host.outermost p f site = .standardOutermost f site := hdefault f site
    simp only [hstandard]
    exact .inr rfl

/-! ## Quiet runs -/

variable {host thread} {X Y Z : Config σ .completion} {n k : Nat}

theorem QuietFor.quiet (h : QuietFor host thread n X Y) : Quiet host thread X Y := ⟨n, h⟩

theorem QuietFor.refl (X : Config σ .completion) : QuietFor host thread 0 X X := ClearFor.refl X

theorem Quiet.refl (X : Config σ .completion) : Quiet host thread X X := Clear.refl X

theorem QuietFor.trans (h : QuietFor host thread n X Y) (h' : QuietFor host thread k Y Z) :
    QuietFor host thread (n + k) X Z := ClearFor.trans h h'

theorem Quiet.trans (h : Quiet host thread X Y) (h' : Quiet host thread Y Z) :
    Quiet host thread X Z := Clear.trans h h'

variable (host thread X) in
theorem quietFor_step (h : X.report? = none) : QuietFor host thread 1 X (X.step host thread) :=
  clearFor_step host thread _ X h

theorem quiet_step (h : X.report? = none) : Quiet host thread X (X.step host thread) :=
  clear_step h

/-- A quiet run comes past everything that is met before its end. -/
theorem QuietFor.split (h : QuietFor host thread n X Y) (h' : QuietFor host thread k X Z)
    (hZ : Z.report?.isSome) : ∃ j, k = n + j ∧ QuietFor host thread j Y Z :=
  ClearFor.split h h' hZ

/-- There is one next configuration with something to see. -/
theorem Quiet.unique (h : Quiet host thread X Y) (h' : Quiet host thread X Z)
    (hY : Y.report?.isSome) (hZ : Z.report?.isSome) : Y = Z := Clear.unique h h' hY hZ

theorem Reports.unique {r r' : Report} (h : X.Reports host thread r)
    (h' : X.Reports host thread r') : r = r' := Sees.unique h h'

/-- Nothing was missed on a quiet run. -/
theorem Quiet.reports_iff (h : Quiet host thread X Y) (r : Report) :
    X.Reports host thread r ↔ Y.Reports host thread r := Clear.sees_iff h r

theorem Quiet.exists_run (h : Quiet host thread X Y) : ∃ n, X.run host thread n = Y :=
  Clear.exists_run h

/-- A host function that answers on its own answers to the code that called it. -/
theorem Answers.exists_run {m m' : Store σ} {f : HostFunction} {site : CallSite} {o : Outcome}
    {goal : Kind} (h : Answers host thread m f site o m') (s : Stack σ .completion goal) :
    ∃ n, run host thread n ⟨m, .calling (.hostFunction f) site s⟩ =
      (⟨m', .returning (κ := .completion) o s⟩ : Config σ goal) := by
  obtain ⟨n, hn⟩ := h
  obtain ⟨k, -, hk⟩ := exists_run_onto host thread
    (⟨m, .calling (.hostFunction f) site .nil⟩ : Config σ .completion) s n
  refine ⟨k, ?_⟩
  rw [hn] at hk
  exact hk

/-- A course without a suspension is a run. -/
theorem Course.exists_run {limit : Nat} {exchanges : List Exchange}
    (h : Course host thread limit 0 X exchanges Y) : ∃ n, X.run host thread n = Y := by
  generalize hcuts : 0 = cuts at h
  induction h with
  | here X => exact ⟨0, rfl⟩
  | answered hquiet hanswer hplain hunobserved rest ih =>
    obtain ⟨n, hn⟩ := hquiet.exists_run
    obtain ⟨k, hk⟩ := hanswer.exists_run (.cons (.called _) _)
    obtain ⟨j, hj⟩ := ih hcuts
    exact ⟨n + k + j, by rw [run_add, run_add, hn, hk, hj]⟩
  | resumed => cases hcuts

end Config

end ScriptMachine
