import ScriptMachine.Proofs.Capture.Placement
import ScriptMachine.Proofs.Structured.Calls
import ScriptMachine.Proofs.Unwinding.Passage

/-!
# Structured code on a machine

Host functions take part in a run as the machine performs them: `Calls.Describes` is an account
of calls that says of a host function what comes of calling it on its own, and
`Calls.Describes.sound` puts it back into the activation that makes the call. With it a machine
that executes a script comes to the end that the evaluation of the script says, and to no other:
`Config.executes_iff`.
-/

namespace ScriptMachine

variable {σ : Type} {goal : Kind}

/-! ## The machine as a journey -/

namespace Config

variable (host : Host σ) (thread : Id .thread) (c : Id .context)

/-- A machine that observes no instructions on a context comes from one flow to another, and
still observes none. -/
def Leads (x : Flow) (m : Store σ) (y : Flow) (m' : Store σ) : Prop :=
  (m.context c).observerThreshold = 0 → (m'.context c).observerThreshold = 0 ∧
    ∀ {goal : Kind} (s : Stack σ .exit goal),
      ∃ n, run host thread n (follow m c x s) = follow m' c y s

/-- On a stack of its own a flow is left only by errors that cannot be caught, if it is left. -/
def Strays (x : Flow) (m : Store σ) : Prop :=
  (m.context c).observerThreshold = 0 → ∀ {n : Nat} {m' : Store σ} {r : Except Abrupt Exit},
    run host thread n (follow m c x .nil : Config σ .exit) = give m' .exit r .nil →
      ∃ e, r = .error e ∧ e.isCatchable = false

variable {host thread c} {x y z : Flow} {m m₁ m₂ : Store σ}

theorem Leads.refl (x : Flow) (m : Store σ) : Leads host thread c x m x m :=
  fun hm => ⟨hm, fun _ => ⟨0, rfl⟩⟩

theorem Leads.trans (h : Leads host thread c x m y m₁) (h' : Leads host thread c y m₁ z m₂) :
    Leads host thread c x m z m₂ := by
  intro hm
  obtain ⟨hm₁, hfirst⟩ := h hm
  obtain ⟨hm₂, hsecond⟩ := h' hm₁
  refine ⟨hm₂, fun s => ?_⟩
  obtain ⟨n, hn⟩ := hfirst s
  obtain ⟨k, hk⟩ := hsecond s
  exact ⟨n + k, by rw [run_add, hn, hk]⟩

theorem leads_step {a : Activation} (ha : a.context = c) (h : a.execute m = (.flow y, m₁)) :
    Leads host thread c (.next a) m y m₁ := by
  subst ha
  intro hm
  have hcontexts := (a.execute_frame m).1
  rw [h] at hcontexts
  constructor
  · rw [Store.context, hcontexts]
    exact hm
  · intro goal s
    refine ⟨2, (run_counting host thread hm s).trans ?_⟩
    simp only [execute, h]

theorem Leads.strays (h : Leads host thread c x m y m₁) (h' : Strays host thread c y m₁) :
    Strays host thread c x m := by
  intro hm n m' r hn
  obtain ⟨hm₁, hlead⟩ := h hm
  obtain ⟨k, hk⟩ := hlead .nil
  have hend : (run host thread n (follow m c x .nil : Config σ .exit)).ending? =
      some (.result r) := by
    rw [hn]
    rfl
  exact h' hm₁ ((run_of_run hk hend).trans hn)

end Config

/-- The journey of a machine that works on a context. -/
def Journey.machine (host : Host σ) (thread : Id .thread) (c : Id .context) : Journey σ where
  context := c
  Leads := Config.Leads host thread c
  Strays := Config.Strays host thread c
  refl := .refl
  trans := .trans
  step := Config.leads_step
  strays := Config.Leads.strays

/-! ## Host functions -/

/-- An account of the calls that a context makes, which knows host functions and nothing else. A
host function gives what it answers when it is called on its own, unless that is a continuation;
where it answers nothing else it is silent. Nothing is said about a host function that has the
instructions of the context observed. -/
structure Calls.Describes (host : Host σ) (thread : Id .thread) (c : Id .context)
    (others : Calls σ) : Prop where
  gives : ∀ {h scope receiver args m o m'},
    others (.hostFunction h) scope receiver args m = (.gives o, m') →
      Config.Answers host thread m h ⟨c, scope, receiver, args⟩ o m' ∧
        (∀ p, o ≠ .error (.suspended p)) ∧ (m'.context c).observerThreshold = 0
  unanswered : ∀ {h scope receiver args m m'},
    others (.hostFunction h) scope receiver args m = (.silent .unanswered, m') → ∀ {o m''},
      Config.Answers host thread m h ⟨c, scope, receiver, args⟩ o m'' →
        ∃ p, o = .error (.suspended p)
  observing : ∀ {h scope receiver args m m'},
    others (.hostFunction h) scope receiver args m = (.silent .foreign, m') → ∃ o m'',
      Config.Answers host thread m h ⟨c, scope, receiver, args⟩ o m'' ∧
        (m''.context c).observerThreshold ≠ 0
  foreign : ∀ {callee} scope receiver args m, (∀ h, callee ≠ .hostFunction h) →
    (others callee scope receiver args m).1 = .silent .foreign

/-- A host function answers with something other than a continuation. -/
def Config.Settles (host : Host σ) (thread : Id .thread) (m : Store σ) (h : HostFunction)
    (site : CallSite) (r : Outcome × Store σ) : Prop :=
  Answers host thread m h site r.1 r.2 ∧ ∀ p, r.1 ≠ .error (.suspended p)

open Classical in
/-- The account of host functions that a machine gives of them. -/
noncomputable def Host.calls (host : Host σ) (thread : Id .thread) (c : Id .context) : Calls σ :=
  fun callee scope receiver args m =>
    match callee with
    | .hostFunction h =>
      if hr : ∃ r, Config.Settles host thread m h ⟨c, scope, receiver, args⟩ r then
        if (hr.choose.2.context c).observerThreshold = 0 then (.gives hr.choose.1, hr.choose.2)
        else (.silent .foreign, m)
      else (.silent .unanswered, m)
    | _ => (.silent .foreign, m)

/-- Every machine describes its host functions. -/
theorem Host.describes_calls (host : Host σ) (thread : Id .thread) (c : Id .context) :
    (host.calls thread c).Describes host thread c := by
  refine ⟨?_, ?_, ?_, ?_⟩
  · intro h scope receiver args m o m' heq
    simp only [calls] at heq
    split at heq
    · next hr =>
      split at heq
      · next hobserver =>
        cases heq
        exact ⟨hr.choose_spec.1, hr.choose_spec.2, hobserver⟩
      · cases heq
    · cases heq
  · intro h scope receiver args m m' heq o m'' hanswer
    simp only [calls] at heq
    split at heq
    · split at heq <;> cases heq
    · next hnone =>
      refine Classical.byContradiction fun hsuspended => ?_
      exact hnone ⟨(o, m''), hanswer, fun p hp => hsuspended ⟨p, hp⟩⟩
  · intro h scope receiver args m m' heq
    simp only [calls] at heq
    split at heq
    · next hr =>
      split at heq
      · cases heq
      · next hobserver => exact ⟨_, _, hr.choose_spec.1, hobserver⟩
    · cases heq
  · intro callee scope receiver args m hcallee
    cases callee with
    | hostFunction h => exact absurd rfl (hcallee h)
    | _ => rfl

namespace Config

variable {host : Host σ} {thread : Id .thread} {m : Store σ} {a : Activation} {f : Frame}
  {callers : List Frame} {count : UInt16} {h : HostFunction}

/-- An activation calls a host function and waits for it. -/
theorem run_hostCall (hm : (m.context a.context).observerThreshold = 0)
    (hcode : f.body.routine.code[f.position]? = some (.call count))
    (hcallee : f.callee count.toNat = .hostFunction h) (s : Stack σ .exit goal) :
    run host thread 2 (follow m a.context (.next (a.running f callers)) s) =
      ⟨m, .calling (.hostFunction h)
        ⟨a.context, f.scope, f.calledOn count.toNat, (f.popMany count.toNat).1⟩
        (.cons (.called (a.running ({ f with position := f.position + 1 }.afterCall count.toNat)
          callers)) s)⟩ := by
  have hpopped : ({ f with position := f.position + 1 }.popMany count.toNat).2.pop.2.pop.1 =
      .hostFunction h := hcallee
  have hexecute : (a.running f callers).execute m =
      (.call (a.running ({ f with position := f.position + 1 }.afterCall count.toNat) callers)
        (.hostFunction h)
        ⟨a.context, f.scope, f.calledOn count.toNat, (f.popMany count.toNat).1⟩, m) := by
    simp only [Activation.execute, Activation.running, Frame.fetch?, hcode, Option.map_some,
      Activation.perform, Activation.call, hpopped]
    rfl
  refine (run_counting host thread (a := a.running f callers) hm s).trans ?_
  simp only [execute, hexecute]

/-- A call of a host function that answers goes on as it is answered. -/
theorem run_answer {m' : Store σ} {site : CallSite} {o : Outcome}
    (h' : Answers host thread m h site o m') (s : Stack σ .exit goal) :
    ∃ n, run host thread n ⟨m, .calling (.hostFunction h) site (.cons (.called a) s)⟩ =
      take host thread m' (.called a) o s := by
  obtain ⟨n, hn⟩ := h'.exists_run (.cons (.called a) s)
  refine ⟨n + 1, ?_⟩
  rw [run_add, hn]
  rfl

/-- A call of a host function that is left was answered before. -/
theorem exists_answer {m' : Store σ} {site : CallSite} {r : Except Abrupt Exit} {n : Nat}
    (hn : run host thread n ⟨m, .calling (.hostFunction h) site (.cons (.called a) .nil)⟩ =
      (give m' .exit r .nil : Config σ .exit)) :
    ∃ (o : Outcome) (m'' : Store σ) (k : Nat), Answers host thread m h site o m'' ∧
      run host thread k (take host thread m'' (.called a) o .nil) =
        (give m' .exit r .nil : Config σ .exit) := by
  let alone : Config σ .completion := ⟨m, .calling (.hostFunction h) site .nil⟩
  have hend : ((alone.onto (.cons (.called a) .nil)).run host thread n).ending? =
      some (.result r) := congrArg ending? hn
  obtain ⟨k, x, hx, honto⟩ := exists_ending_of_onto hend
  -- what comes next on the stack leads to the same end
  have hnext {Y : Config σ .exit} (hY : (alone.onto (.cons (.called a) .nil)).run host thread
      (k + 1) = Y) : Y.run host thread n = give m' .exit r .nil := (run_of_run hY hend).trans hn
  rcases ending_cases hx with ⟨m'', o, hrun⟩ | ⟨m'', hrun⟩ | ⟨m'', hrun⟩
  · refine ⟨o, m'', n, ⟨k, hrun⟩, hnext ?_⟩
    rw [run_add, honto, hrun]
    rfl
  · have hpanics : (alone.onto (.cons (.called a) .nil)).run host thread (k + 1) =
        ⟨changeDepth m'' a.context (· - 1), .panicking .nil⟩ := by
      rw [run_add, honto, hrun]
      rfl
    have hlast := hnext hpanics
    rw [run_of_ending host thread (x := .panicked) rfl] at hlast
    cases hlast
  · have hcrashes : (alone.onto (.cons (.called a) .nil)).run host thread (k + 1) =
        ⟨m'', .crashed⟩ := by
      rw [run_add, honto, hrun]
      rfl
    have hlast := hnext hcrashes
    rw [run_of_ending host thread (x := .crashed) rfl] at hlast
    cases hlast

/-- A call of a host function that answers nothing but continuations strays. -/
theorem strays_hostCall (hcode : f.body.routine.code[f.position]? = some (.call count))
    (hcallee : f.callee count.toNat = .hostFunction h)
    (hunanswered : ∀ {o m'}, Answers host thread m h
      ⟨a.context, f.scope, f.calledOn count.toNat, (f.popMany count.toNat).1⟩ o m' →
        ∃ p, o = .error (.suspended p)) :
    Strays host thread a.context (.next (a.running f callers)) m := by
  intro hm n m' r hn
  have hend : (run host thread n (follow m a.context (.next (a.running f callers)) .nil :
      Config σ .exit)).ending? = some (.result r) := congrArg ending? hn
  obtain ⟨o, m'', k, hanswer, hk⟩ :=
    exists_answer ((run_of_run (run_hostCall hm hcode hcallee .nil) hend).trans hn)
  obtain ⟨p, rfl⟩ := hunanswered hanswer
  let b := a.running ({ f with position := f.position + 1 }.afterCall count.toNat) callers
  obtain ⟨e, hbecomes, hflow, -⟩ := b.exists_fail m'' (e := .suspended p) rfl
  have htake : (take host thread m'' (.called b) (.error (.suspended p)) .nil : Config σ .exit) =
      give (changeDepth (b.fail (.suspended p) m'').2 a.context (· - 1)) .exit (.error e) .nil := by
    show follow (b.fail (.suspended p) m'').2 a.context (b.fail (.suspended p) m'').1 .nil = _
    rw [hflow]
    rfl
  rw [htake, run_give_nil] at hk
  cases hk
  exact ⟨e, rfl, hbecomes.uncatchable rfl⟩

end Config

/-- What is said of host functions is what the machine does with them. -/
theorem Calls.Describes.sound {host : Host σ} {thread : Id .thread} {c : Id .context}
    {others : Calls σ} (h : others.Describes host thread c) {a : Activation} (ha : a.context = c)
    (depth : Nat) : others.Sound (.machine host thread c) a depth := by
  subst ha
  intro f callers count m _ hcode
  obtain ⟨x, m', hx⟩ : ∃ x m', others (f.callee count.toNat) f.scope (f.calledOn count.toNat)
    (f.popMany count.toNat).1 m = (x, m') := ⟨_, _, rfl⟩
  rw [hx]
  by_cases hhost : ∃ g, f.callee count.toNat = .hostFunction g
  · obtain ⟨g, hcallee⟩ := hhost
    rw [hcallee] at hx
    cases x with
    | gives o =>
      obtain ⟨hanswer, ho, hobserver⟩ := h.gives hx
      have hleads {flow : Flow} (hflow : ∀ {goal : Kind} (s : Stack σ .exit goal),
          Config.take host thread m' (.called (a.running
            ({ f with position := f.position + 1 }.afterCall count.toNat) callers)) o s =
          Config.follow m' a.context flow s) :
          Config.Leads host thread a.context (.next (a.running f callers)) m flow m' := by
        intro hm
        refine ⟨hobserver, fun s => ?_⟩
        obtain ⟨n, hn⟩ := Config.run_answer hanswer s
        refine ⟨2 + n, ?_⟩
        rw [Config.run_add, Config.run_hostCall hm hcode hcallee, hn, hflow]
      cases o with
      | ok v => exact hleads fun s => rfl
      | error e =>
        cases e with
        | suspended p => exact absurd rfl (ho p)
        | thrown v => exact hleads fun s => rfl
        | aborted reason => exact hleads fun s => rfl
        | fault fault => exact hleads fun s => rfl
    | silent s =>
      cases s with
      | unanswered => exact Config.strays_hostCall hcode hcallee (h.unanswered hx)
      | foreign => trivial
  · -- nothing is said of other callees
    have hforeign := h.foreign f.scope (f.calledOn count.toNat) (f.popMany count.toNat).1 m
      fun g hg => hhost ⟨g, hg⟩
    rw [hx] at hforeign
    obtain rfl : x = .silent .foreign := hforeign
    trivial

/-! ## Scripts -/

/-- What becomes of a call for which nothing waits is how it is left. -/
theorem Journey.Leaves.leads {J : Journey σ} {start : Flow} {m m' : Store σ} {a : Activation}
    {o : Outcome} (h : J.Leaves start m a [] (.gives o, m')) :
    J.Leads start m (.leave (o.map .returned)) m' := by
  cases o with
  | ok v => exact h
  | error e => cases e <;> exact h

/-- A context on which a script may be executed: it was made and observes no instructions, and if
it runs nothing, its policy performs outermost calls in the standard way. -/
structure Store.Admits (host : Host σ) (m : Store σ) (c : Id .context) : Prop where
  known : m.Knows c
  unobserved : (m.context c).observerThreshold = 0
  isDefault : (m.context c).topCall = none → (m.factoryOf c).policy.IsDefault host

/-- The store in which a script runs on a context, of which it becomes the outermost call if
there is none. -/
def Store.entered (m : Store σ) (c : Id .context) (scope : Id .scope) (isStrict : Bool) :
    Store σ :=
  if (m.context c).topCall.isSome then Config.changeDepth m c (· + 1)
  else
    Config.changeDepth
      (m.modifyContext c fun cx => { cx with topCall := some ⟨scope, isStrict⟩ }) c (· + 1)

/-- What comes out of a script that is executed on a context: an outermost call gives a flat
string in place of a concatenation. -/
def Store.finish (m : Store σ) (c : Id .context) (o : Outcome) (w : World) : Outcome × World :=
  if (m.context c).topCall.isSome then (o, w) else o.finish w

namespace Config

variable {host : Host σ} {thread : Id .thread} {c : Id .context} {m : Store σ} {e : Executable}
  {scope : Id .scope}

/-- A run ends with an outcome, in a world. -/
def EndsWith (host : Host σ) (thread : Id .thread) (X : Config σ .completion) (o : Outcome)
    (w : World) : Prop :=
  ∃ (n : Nat) (m' : Store σ), X.run host thread n = give m' .completion o .nil ∧ m'.world = w

theorem EndsWith.unique {X : Config σ .completion} {o o' : Outcome} {w w' : World}
    (h : X.EndsWith host thread o w) (h' : X.EndsWith host thread o' w') : o = o' ∧ w = w' := by
  obtain ⟨n, m₁, hn, rfl⟩ := h
  obtain ⟨k, m₂, hk, rfl⟩ := h'
  have hend : (X.run host thread n).ending? = some (.result o) := congrArg ending? hn
  have hend' : (X.run host thread k).ending? = some (.result o') := congrArg ending? hk
  have hsame := run_unique hend hend'
  rw [hn, hk] at hsame
  cases hsame
  exact ⟨rfl, rfl⟩

theorem EndsWith.of_run {X Y : Config σ .completion} {o : Outcome} {w : World} {n : Nat}
    (hn : X.run host thread n = Y) (h : Y.EndsWith host thread o w) :
    X.EndsWith host thread o w := by
  obtain ⟨k, m', hk, hw⟩ := h
  exact ⟨n + k, m', by rw [run_add, hn, hk], hw⟩

end Config

end ScriptMachine
