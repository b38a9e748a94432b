import ScriptMachine.Proofs.Capture.Course
import ScriptMachine.Proofs.Coroutine.Reference
import ScriptMachine.Proofs.Machine.Resumptions

/-!
# The way of a resumption

A generator that is resumed within a top call is stepped at once. Otherwise the resumption is kept
aside, performed as the outermost call of the context, and its step is put together again from
what was kept. Where outermost calls are performed in the standard way nothing else happens on
the way: `Config.exists_clear_beginStep` says so for everything that a way of looking overlooks.
-/

namespace ScriptMachine

variable {σ : Type}

/-- A generator can be resumed on a context through an executable: the executable runs its body,
and if the resumption will be the outermost call of the context then the context performs it in
the standard way. -/
structure Store.Resumes (host : Host σ) (m : Store σ) (c : Id .context) (via : Executable)
    (g : Generator) : Prop where
  known : m.Knows c
  sameCode : g.body.sameCode via
  isDefault : (m.context c).topCall = none → (m.factoryOf c).policy.IsDefault host

/-- The circumstances of a resumption on a context. -/
def Store.setting (m : Store σ) (c : Id .context) : Setting :=
  ⟨(m.context c).frameLimit, (m.context c).topCall.isNone⟩

/-- The value of a resumption that was kept aside is taken. -/
def Store.spend (m : Store σ) (r : Id .resumption) : Store σ :=
  { m with resumptions := m.resumptions.modify r fun x => { x with value := none } }

/-- Whether a step is the last one does not depend on the setting. -/
theorem Setting.done_of_finish {setting : Setting} {x : Except Abrupt GeneratorStep} {w : World}
    {step : GeneratorStep} (h : (setting.finish x w).1 = .ok step) :
    ∃ step', x = .ok step' ∧ step'.done = step.done := by
  obtain ⟨limit, isOutermost⟩ := setting
  cases x with
  | ok step' =>
    refine ⟨step', rfl, ?_⟩
    cases isOutermost <;> cases h <;> rfl
  | error e => cases isOutermost <;> cases h

namespace Config

/-- A way to look at configurations has no eye for results that tasks take, for calls of
resumptions and for the program that performs an outermost call. -/
structure Overlooks {ρ : Type} (see : Config σ .step → Option ρ) : Prop where
  taken {α β : Kind} (m : Store σ) (x : α.Result) (t : Task σ α β) (s : Stack σ β .step) :
    see (give m α x (.cons t s)) = none
  resumed (m : Store σ) (r : Id .resumption) (g : Generator) (op : GeneratorOp) (site : CallSite)
    (s : Stack σ .completion .step) : see ⟨m, .calling (.resumption r g op) site s⟩ = none
  performed (m : Store σ) (p : Program σ .completion) (c : Id .context)
    (s : Stack σ .completion .step) : see ⟨m, .running p (.cons (.clearTopCall c) s)⟩ = none

variable {host : Host σ} {thread : Id .thread} {m : Store σ} {c : Id .context} {g : Generator}
  {via : Executable} {ρ : Type} {see : Config σ .step → Option ρ}

/-! ## The end of a resumption -/

/-- A resumption that was made knows in the end whether the generator is done. -/
theorem done_of_recalls {r : Id .resumption} (h : m.Recalls r) (done : Bool) :
    ((m.resumptions.modify r fun x => { x with done := some done }).get r).done = some done := by
  obtain ⟨x, hx⟩ := Option.isSome_iff_exists.mp h
  rw [Table.get, Table.get?_modify, if_pos rfl, hx]
  rfl

/-- The end of an outermost resumption. -/
def reporting (c : Id .context) (r : Id .resumption) : Stack σ .completion .step :=
  .cons (.clearTopCall c) (.cons (.reportStep r) .nil)

variable (host thread) in
theorem clear_reporting (hsee : Overlooks see) (c : Id .context) {r : Id .resumption}
    {o : Outcome} {done : Bool} (hdone : ∀ v, o = .ok v → (m.resumptions.get r).done = some done) :
    Clear host thread see (give m .completion o (reporting c r))
      (give (m.modifyContext c fun cx => { cx with topCall := none }) .step
        (o.map fun v => ⟨v, done⟩) .nil) := by
  have hclear : Clear host thread see (give m .completion o (reporting c r))
      (give (m.modifyContext c fun cx => { cx with topCall := none }) .completion o
        (.cons (.reportStep r) .nil)) := clear_step (hsee.taken _ _ _ _)
  refine hclear.trans ?_
  cases o with
  | ok v =>
    have hreport : Clear host thread see
        (give (m.modifyContext c fun cx => { cx with topCall := none }) .completion (.ok v)
          (.cons (.reportStep r) .nil))
        (give (m.modifyContext c fun cx => { cx with topCall := none }) .step
          (.ok ⟨v, (m.resumptions.get r).done.getD true⟩) .nil) := clear_step (hsee.taken _ _ _ _)
    rw [hdone v rfl] at hreport
    exact hreport
  | error e => exact clear_step (hsee.taken _ _ _ _)

variable (host thread see) in
/-- A stack takes the step of a generator to the outside, past everything that is overlooked. -/
def Relays (r : Option (Id .resumption)) (setting : Setting) (s : Stack σ .step .step) : Prop :=
  ∀ (m : Store σ) (x : Except Abrupt GeneratorStep), (∀ i ∈ r, m.Recalls i) →
    ∃ m' : Store σ,
      Clear host thread see (give m .step x s)
        (give m' .step (setting.finish x m.world).1 .nil) ∧
      m'.world = (setting.finish x m.world).2 ∧ m'.generators = m.generators

theorem relays_nil (limit : Nat) : Relays host thread see none ⟨limit, false⟩ .nil := by
  intro m x _
  exact ⟨m, Clear.refl _, rfl, rfl⟩

/-- A stack that makes a string flat and then ends an outermost resumption takes its step to the
outside. -/
theorem relays_of_finish (hsee : Overlooks see) (limit : Nat) {r : Id .resumption}
    {t : Stack σ .completion .completion}
    (ht : ∀ (m : Store σ) (o : Outcome), Clear host thread see
      (give m .completion o (t.append (reporting c r)))
      (give { m with texts := (o.finish m.world).2.texts } .completion (o.finish m.world).1
        (reporting c r))) :
    Relays host thread see (some r) ⟨limit, true⟩
      (.cons (.recordStep r) (t.append (reporting c r))) := by
  intro m x hr
  cases x with
  | ok step =>
    have hdone := done_of_recalls (hr r rfl) step.done
    have hrecord : Clear host thread see
        (give m .step (.ok step) (.cons (.recordStep r) (t.append (reporting c r)))) _ :=
      clear_step (hsee.taken _ _ _ _)
    exact ⟨_, hrecord.trans ((ht _ _).trans (clear_reporting host thread hsee c fun _ _ => hdone)),
      rfl, rfl⟩
  | error e =>
    have hrecord : Clear host thread see
        (give m .step (.error e) (.cons (.recordStep r) (t.append (reporting c r)))) _ :=
      clear_step (hsee.taken _ _ _ _)
    have hthrown : ∀ v, (Except.error e : Outcome) = .ok v →
        (m.resumptions.get r).done = some true := nofun
    exact ⟨_, hrecord.trans ((ht m (.error e)).trans (clear_reporting host thread hsee c hthrown)),
      rfl, rfl⟩

variable (host thread) in
theorem relays_flattenResult (hsee : Overlooks see) (limit : Nat) (c : Id .context)
    (r : Id .resumption) :
    Relays host thread see (some r) ⟨limit, true⟩
      (.cons (.recordStep r) (.cons .flattenResult (reporting c r))) := by
  refine relays_of_finish hsee (t := .cons .flattenResult .nil) limit ?_
  intro m o
  cases o <;> exact clear_step (hsee.taken _ _ _ _)

variable (host thread) in
theorem relays_finishing (hsee : Overlooks see) (limit : Nat) (c : Id .context)
    (r : Id .resumption) :
    Relays host thread see (some r) ⟨limit, true⟩
      (.cons (.recordStep r) (.cons (.program Program.finishing) (reporting c r))) := by
  refine relays_of_finish hsee (t := .cons (.program Program.finishing) .nil) limit ?_
  intro m o
  have htake : Clear host thread see
      (give m .completion o (.cons (.program Program.finishing) (reporting c r)))
      ⟨m, .running (Program.finishing o) (reporting c r)⟩ := clear_step (hsee.taken _ _ _ _)
  refine htake.trans ?_
  cases o with
  | ok v =>
    exact (clear_step (hsee.performed _ _ _ _)).trans (clear_step (hsee.performed _ _ _ _))
  | error e => exact clear_step (hsee.performed _ _ _ _)

/-! ## The beginning of a resumption -/

/-- A call of a resumption begins it with the value that was kept aside. -/
theorem clear_calling_resumption (hsee : Overlooks see) {r : Id .resumption} {v : Value}
    (op : GeneratorOp) (site : CallSite) (s : Stack σ .completion .step)
    (hvalue : (m.resumptions.get r).value.getD .undefined = v) :
    Clear host thread see ⟨m, .calling (.resumption r g op) site s⟩
      (beginStep (m.spend r) g op site.context v (.cons (.recordStep r) s)) := by
  have hstep := clearFor_step host thread see ⟨m, .calling (.resumption r g op) site s⟩
    (hsee.resumed _ _ _ _ _ _)
  simp only [step, beginCall, hvalue] at hstep
  exact hstep.clear

variable (thread) in
/-- An outermost resumption is kept aside, and its value taken back when it is called. -/
theorem exists_clear_outermost (hm : m.Resumes host c via g)
    (htop : (m.context c).topCall = none) (op : GeneratorOp) (scope : Id .scope) (v : Value) :
    ∃ (m' : Store σ) (r : Id .resumption) (s : Stack σ .completion .step),
      m'.Knows c ∧ (m'.context c).topCall.isSome ∧ m'.Recalls r ∧
      m'.world = m.world ∧ (m'.context c).frameLimit = (m.context c).frameLimit ∧ s.IsOpen ∧
      ∀ {ρ : Type} {see : Config σ .step → Option ρ}, Overlooks see →
        Relays host thread see (some r) ⟨(m.context c).frameLimit, true⟩ (.cons (.recordStep r) s) ∧
        Clear host thread see (ofAction host thread m (.step via g op c scope v))
          (beginStep (m'.spend r) g op c v (.cons (.recordStep r) s)) := by
  have hsame : (!g.body.sameCode via) = false := by rw [hm.sameCode]; rfl
  have hget : (m.resumptions.insert { value := some v }).2.get? m.resumptions.next =
      some { value := some v } := by
    rw [Table.get?_insert, if_pos rfl]
  have hbegin : ofAction host thread m (.step via g op c scope v) =
      beginOutermost host { m with resumptions := (m.resumptions.insert { value := some v }).2 }
        (.resumption m.resumptions.next g op) ⟨c, scope, .object scope, []⟩
        via.routine.isStrict (.cons (.reportStep m.resumptions.next) .nil) := by
    simp only [ofAction, beginAction, beginResumption, hsame, htop]
    rfl
  obtain ⟨m₁, hm₁, hcall⟩ := beginOutermost_of_isDefault
    { m with resumptions := (m.resumptions.insert { value := some v }).2 }
    ⟨c, scope, .object scope, []⟩ hm.known htop (hm.isDefault htop)
    (.resumption m.resumptions.next g op) via.routine.isStrict
    (.cons (.reportStep m.resumptions.next) .nil)
  have hresumptions : m₁.resumptions = (m.resumptions.insert { value := some v }).2 := by
    rw [hm₁]
    rfl
  have hc₁ : m₁.context c =
      { m.context c with topCall := some ⟨scope, via.routine.isStrict⟩ } := by
    rw [hm₁]
    exact Store.context_modifyContext (m := m) hm.known _
  have hk₁ : m₁.Knows c := by
    rw [hm₁]
    exact Store.knows_modifyContext (m := m) c _ hm.known
  have hr₁ : m₁.Recalls m.resumptions.next := by
    rw [Store.Recalls, hresumptions, hget]
    rfl
  have hcalled : (m₁.context c).topCall.isSome := by
    rw [hc₁]
    rfl
  have hworld : m₁.world = m.world := by
    rw [hm₁]
    rfl
  have hlimit : (m₁.context c).frameLimit = (m.context c).frameLimit := by rw [hc₁]
  have hvalue : (m₁.resumptions.get m.resumptions.next).value.getD .undefined = v := by
    rw [hresumptions, Table.get, hget]
    rfl
  have hcalling : ∀ {ρ : Type} {see : Config σ .step → Option ρ}, Overlooks see →
      ∀ s : Stack σ .completion .step, Clear host thread see
        ⟨m₁, .calling (.resumption m.resumptions.next g op) ⟨c, scope, .object scope, []⟩ s⟩
        (beginStep (m₁.spend m.resumptions.next) g op c v
          (.cons (.recordStep m.resumptions.next) s)) :=
    fun hsee s => clear_calling_resumption hsee op ⟨c, scope, .object scope, []⟩ s hvalue
  rw [hbegin]
  rcases hcall with hcall | hcall
  · rw [hcall]
    refine ⟨m₁, _, .cons .flattenResult (reporting c m.resumptions.next), hk₁, hcalled, hr₁,
      hworld, hlimit, ⟨trivial, trivial, trivial, trivial⟩, ?_⟩
    intro ρ see hsee
    exact ⟨relays_flattenResult host thread hsee _ c _, hcalling hsee _⟩
  · rw [hcall]
    refine ⟨m₁, _, .cons (.program Program.finishing) (reporting c m.resumptions.next), hk₁,
      hcalled, hr₁, hworld, hlimit, ⟨trivial, trivial, trivial, trivial⟩, ?_⟩
    intro ρ see hsee
    exact ⟨relays_finishing host thread hsee _ c _,
      (clear_step (hsee.performed _ _ _ _)).trans (hcalling hsee _)⟩

variable (thread) in
/-- A resumption begins in a top call of its context, which may be made for it. -/
theorem exists_clear_beginStep (hm : m.Resumes host c via g) (op : GeneratorOp)
    (scope : Id .scope) (v : Value) :
    ∃ (m' : Store σ) (r : Option (Id .resumption)) (s : Stack σ .step .step),
      m'.Knows c ∧ (m'.context c).topCall.isSome ∧ (∀ i ∈ r, m'.Recalls i) ∧
      m'.world = m.world ∧ (m'.context c).frameLimit = (m.context c).frameLimit ∧ s.IsOpen ∧
      ∀ {ρ : Type} {see : Config σ .step → Option ρ}, Overlooks see →
        Relays host thread see r (m.setting c) s ∧
        Clear host thread see (ofAction host thread m (.step via g op c scope v))
          (beginStep m' g op c v s) := by
  cases htop : (m.context c).topCall with
  | some top =>
    have hsame : (!g.body.sameCode via) = false := by rw [hm.sameCode]; rfl
    have hbegin : ofAction host thread m (.step via g op c scope v) = beginStep m g op c v .nil := by
      simp only [ofAction, beginAction, beginResumption, hsame, htop]
      rfl
    have hsetting : m.setting c = ⟨(m.context c).frameLimit, false⟩ := by
      simp only [Store.setting, htop, Option.isNone_some]
    refine ⟨m, none, .nil, hm.known, by rw [htop]; rfl, ?_, rfl, rfl, trivial, ?_⟩
    · rintro i ⟨⟩
    intro ρ see hsee
    rw [hsetting, hbegin]
    exact ⟨relays_nil _, Clear.refl _⟩
  | none =>
    have hsetting : m.setting c = ⟨(m.context c).frameLimit, true⟩ := by
      simp only [Store.setting, htop, Option.isNone_none]
    obtain ⟨m', r, s, hknown, hcalled, hr, hworld, hlimit, hopen, hs⟩ :=
      exists_clear_outermost thread hm htop op scope v
    refine ⟨m'.spend r, some r, .cons (.recordStep r) s, hknown, hcalled, ?_, hworld, hlimit,
      ⟨trivial, hopen⟩, ?_⟩
    · intro i hi
      cases hi
      exact hr.modify _ _
    · intro ρ see hsee
      rw [hsetting]
      exact hs hsee

end Config

end ScriptMachine
