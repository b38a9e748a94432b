import ScriptMachine.Proofs.Capture.Transparency
import ScriptMachine.Proofs.Coroutine.Delivery
import ScriptMachine.Proofs.Coroutine.Placement

/-!
# A generator is a coroutine

Every resumption of a generator is a run of its own: it takes the frame of the body out of the
store, and puts it back where the body yields. Between two resumptions anything may happen that
leaves the generator alone. A `Drive` records what happens to the body on the way, and
`Config.drive_is_coroutine` says that the machine is then seen to do what one run of the body
does that is never left.
-/

namespace ScriptMachine

variable {σ : Type}

/-- The frame of a generator is taken for its body to run. -/
def Store.lend (m : Store σ) (g : Id .generator) : Store σ :=
  { m with generators := m.generators.set g { frame := none, started := true } }

/-- The entry of a generator whose body is at some point. -/
def Coroutine.entry : Coroutine → GeneratorState
  | .going _ _ _ | .asking _ _ _ => { frame := none, started := true }
  | .paused _ _ frame _ => { frame := some frame, started := true }
  | .ended _ _ _ => { frame := none, started := true, finished := true }

namespace Config

variable (host : Host σ) (thread : Id .thread)

/-- An observer that is asked gives a verdict and leaves a store. -/
def Observes (m : Store σ) (p : Id .policy) (c : Id .context) (count : UInt32)
    (verdict : Except String Unit) (m' : Store σ) : Prop :=
  ∃ n, run host thread n ⟨m, .running (host.observe p c count) .nil⟩ =
    (⟨m', .returning (κ := .verdict) verdict .nil⟩ : Config σ .verdict)

/-- What happens to the body of a generator from one resumption to a later one. -/
inductive Drive (g : Generator) : Config σ .step → List Impulse → Config σ .step → Prop
  | here (X : Config σ .step) : Drive g X [] X
  /-- A host function that the body calls answers. -/
  | answer {X Y : Config σ .step} {m m' : Store σ} {h : HostFunction} {site : CallSite}
      {a : Activation} {s : Stack σ .exit .step} {o : Outcome} {impulses : List Impulse}
      (hplain : Plain host thread g.id X
        ⟨m, .calling (.hostFunction h) site (.cons (.called a) s)⟩)
      (hanswer : Answers host thread m h site o m')
      (rest : Drive g ⟨m', .returning (κ := .completion) o (.cons (.called a) s)⟩ impulses Y) :
      Drive g X
        (.answer ⟨h, site.scope, site.receiver, site.args, m.world⟩ o m'.world :: impulses) Y
  /-- An observer of the instructions of the body gives its verdict. -/
  | verdict {X Y : Config σ .step} {m m' : Store σ} {p : Id .policy} {c : Id .context}
      {count : UInt32} {a : Activation} {s : Stack σ .exit .step} {verdict : Except String Unit}
      {impulses : List Impulse}
      (hplain : Plain host thread g.id X
        ⟨m, .running (host.observe p c count) (.cons (.observed a) s)⟩)
      (hobserve : Observes host thread m p c count verdict m')
      (rest : Drive g ⟨m', .returning (κ := .verdict) verdict (.cons (.observed a) s)⟩ impulses
        Y) :
      Drive g X (.verdict a.frames m.world verdict m'.world :: impulses) Y
  /-- The resumption ends with a value that the body hands out, and later, with the generator
  left alone, there is another one, on any context, through any executable of the body and under
  any scope. -/
  | resumption {X Y : Config σ .step} {m m' : Store σ} {handed v : Value} {op : GeneratorOp}
      {c : Id .context} {via : Executable} {scope : Id .scope} {impulses : List Impulse}
      (hplain : Plain host thread g.id X (give m .step (.ok ⟨handed, false⟩) .nil))
      (hheld : m'.generators.get? g.id = m.generators.get? g.id)
      (hresumes : m'.Resumes host c via g)
      (rest : Drive g (ofAction host thread m' (.step via g op c scope v)) impulses Y) :
      Drive g X
        (.resumption handed (m.world.running g.id) op v (m'.setting c) (m'.world.running g.id) ::
          impulses) Y

/-- A resumption comes plainly to a place of a coroutine. -/
def Presents (g : Generator) (X : Config σ .step) (t : Coroutine) : Prop :=
  ∃ (m : Store σ) (c : Id .context) (r : Option (Id .resumption)) (s : Stack σ .step .step)
    (Z : Config σ .step), m.Runs c g.id r ∧ Delivers host thread g.id r t.setting s ∧
      Stands m c g s t Z ∧ Plain host thread g.id X Z

variable {host thread} {m : Store σ} {c : Id .context} {g : Generator} {via : Executable}

/-! ## The beginning of a resumption -/

theorem overlooks_sighting (g : Id .generator) : Overlooks (σ := σ) (sighting? g) where
  taken _ _ _ _ := by simp only [sighting?]
  resumed _ _ _ _ _ _ := rfl
  performed _ _ _ _ := rfl

variable (thread) in
/-- A resumption begins in a top call of its context, which may be made for it. -/
theorem exists_plain_beginStep (hm : m.Resumes host c via g) (op : GeneratorOp)
    (scope : Id .scope) (v : Value) :
    ∃ (m' : Store σ) (r : Option (Id .resumption)) (s : Stack σ .step .step),
      m'.Knows c ∧ (m'.context c).topCall.isSome ∧ (∀ i ∈ r, m'.Recalls i) ∧
      m'.world = m.world ∧ (m'.context c).frameLimit = (m.context c).frameLimit ∧
      Delivers host thread g.id r (m.setting c) s ∧
      Plain host thread g.id (ofAction host thread m (.step via g op c scope v))
        (beginStep m' g op c v s) := by
  obtain ⟨m', r, s, hknown, hcalled, hr, hworld, hlimit, -, hs⟩ :=
    exists_clear_beginStep thread hm op scope v
  obtain ⟨hdelivers, hplain⟩ := hs (overlooks_sighting g.id)
  exact ⟨m', r, s, hknown, hcalled, hr, hworld, hlimit, hdelivers, hplain⟩

/-! ## The frame of the body -/

variable (s : Stack σ .step .step) {r : Option (Id .resumption)}

/-- An activation that is begun with the frame of a generator, or is left at once. -/
theorem exists_stage_begin (hm : m.Runs c g.id r) {setting : Setting}
    (hlimit : (m.context c).frameLimit = setting.limit) (frame : Frame) {flow : Flow}
    (hflow : flow.Continues (.body setting.limit Turn.anywhere [frame])) :
    ∃ m' : Store σ, m'.Runs c g.id r ∧ m'.world = m.world ∧
      (match flow.moved c with
        | .next a => beginActivation m c a.frames true (.cons (.bodyEnd g) s)
        | .leave e => give m .exit e (.cons (.bodyEnd g) s)) =
      stage m' c g s (.ofFlow setting m.world flow) := by
  cases flow with
  | next b =>
    obtain ⟨f, callers, rfl⟩ := hflow
    refine ⟨changeDepth m c (· + 1), hm.modifyContext rfl, rfl, ?_⟩
    simp only [Flow.moved, beginActivation, hlimit]
    rfl
  | leave e =>
    refine ⟨m, hm, rfl, ?_⟩
    rcases e with e | (v | ⟨v, frame⟩) <;> rfl

/-- A generator that has been started is resumed where it waits. -/
theorem exists_stage_resume (hknown : m.Knows c) (hcalled : (m.context c).topCall.isSome)
    (hr : ∀ i ∈ r, m.Recalls i) (setting : Setting)
    (hlimit : (m.context c).frameLimit = setting.limit) {frame : Frame}
    (hg : m.generators.get? g.id = some { frame := some frame, started := true })
    (op : GeneratorOp) (v : Value) :
    ∃ m' : Store σ, m'.Runs c g.id r ∧ m'.world = m.world.running g.id ∧
      beginStep m g op c v s =
        stage m' c g s (.resume setting frame op v (m.world.running g.id)) := by
  have hm : (m.lend g.id).Runs c g.id r := ⟨hknown, hcalled, Table.get?_set _ _ hg _, hr⟩
  have hget : m.generators.get g.id = { frame := some frame, started := true } := by
    rw [Table.get, hg]
    rfl
  cases op with
  | next =>
    have hflow : Flow.Continues (.body setting.limit Turn.anywhere [frame])
        (.next (.body setting.limit Turn.anywhere [frame.push v])) := ⟨frame.push v, [], rfl⟩
    obtain ⟨m', hm', hw, hstage⟩ := exists_stage_begin s hm hlimit frame hflow
    refine ⟨m', hm', hw, Eq.trans ?_ hstage⟩
    simp only [beginStep, hget]
    rfl
  | throw =>
    have hflow := Activation.throw_continues (.body setting.limit Turn.anywhere [frame]) v
    obtain ⟨m', hm', hw, hstage⟩ := exists_stage_begin s hm hlimit frame hflow
    refine ⟨m', hm', hw, Eq.trans ?_ hstage⟩
    simp only [beginStep, hget, hlimit]
    rw [← Activation.throw_moved]
    rfl
  | «return» =>
    have hflow := Activation.returnValue_continues (.body setting.limit Turn.anywhere [frame]) v
    obtain ⟨m', hm', hw, hstage⟩ := exists_stage_begin s hm hlimit frame hflow
    refine ⟨m', hm', hw, Eq.trans ?_ hstage⟩
    simp only [beginStep, hget, hlimit]
    rw [← Activation.returnValue_moved]
    rfl

/-- A generator that has not been started begins with its frame. -/
theorem exists_stage_start (hknown : m.Knows c) (hcalled : (m.context c).topCall.isSome)
    (hr : ∀ i ∈ r, m.Recalls i) (setting : Setting)
    (hlimit : (m.context c).frameLimit = setting.limit) {frame : Frame}
    (hg : m.generators.get? g.id = some { frame := some frame }) (v : Value) :
    ∃ m' : Store σ, m'.Runs c g.id r ∧ m'.world = m.world.running g.id ∧
      beginStep m g .next c v s =
        stage m' c g s (.going setting [frame] (m.world.running g.id)) := by
  have hm : (m.lend g.id).Runs c g.id r := ⟨hknown, hcalled, Table.get?_set _ _ hg _, hr⟩
  have hget : m.generators.get g.id = { frame := some frame } := by
    rw [Table.get, hg]
    rfl
  have hflow : Flow.Continues (.body setting.limit Turn.anywhere [frame])
      (.next (.body setting.limit Turn.anywhere [frame])) := ⟨frame, [], rfl⟩
  obtain ⟨m', hm', hw, hstage⟩ := exists_stage_begin s hm hlimit frame hflow
  refine ⟨m', hm', hw, Eq.trans ?_ hstage⟩
  simp only [beginStep, hget]
  rfl

variable {s}

/-- A resumption of a generator that waits at a yield goes on there. -/
theorem presents_resume (hm : m.Resumes host c via g) {frame : Frame}
    (hg : m.generators.get? g.id = some { frame := some frame, started := true })
    (op : GeneratorOp) (scope : Id .scope) (v : Value) :
    Presents host thread g (ofAction host thread m (.step via g op c scope v))
      (.resume (m.setting c) frame op v (m.world.running g.id)) := by
  obtain ⟨m₁, r, s, hknown, hcalled, hr, hworld, hlimit, hs, hplain⟩ :=
    exists_plain_beginStep thread hm op scope v
  have hg₁ : m₁.generators.get? g.id = some { frame := some frame, started := true } := by
    rw [show m₁.generators = m.generators from congrArg World.generators hworld]
    exact hg
  obtain ⟨m₂, hm₂, hw, hstage⟩ :=
    exists_stage_resume s hknown hcalled hr (m.setting c) hlimit hg₁ op v
  rw [hstage, hworld] at hplain
  rw [hworld] at hw
  refine ⟨m₂, c, r, s, _, hm₂, ?_, .staged _ ?_, hplain⟩
  · rw [Coroutine.setting_resume]
    exact hs
  · rw [Coroutine.world_resume]
    exact hw

/-- The first resumption of a generator starts its body. -/
theorem presents_start (hm : m.Resumes host c via g) {frame : Frame}
    (hg : m.generators.get? g.id = some { frame := some frame }) (scope : Id .scope) (v : Value) :
    Presents host thread g (ofAction host thread m (.step via g .next c scope v))
      (.going (m.setting c) [frame] (m.world.running g.id)) := by
  obtain ⟨m₁, r, s, hknown, hcalled, hr, hworld, hlimit, hs, hplain⟩ :=
    exists_plain_beginStep thread hm .next scope v
  have hg₁ : m₁.generators.get? g.id = some { frame := some frame } := by
    rw [show m₁.generators = m.generators from congrArg World.generators hworld]
    exact hg
  obtain ⟨m₂, hm₂, hw, hstage⟩ :=
    exists_stage_start s hknown hcalled hr (m.setting c) hlimit hg₁ v
  rw [hstage, hworld] at hplain
  rw [hworld] at hw
  exact ⟨m₂, c, r, s, _, hm₂, hs, .staged _ hw, hplain⟩

/-! ## Answers and verdicts -/

/-- An answer of a host function goes to the body that called it. -/
theorem presents_answer {m' : Store σ} {setting : Setting} {h : HostFunction} {site : CallSite}
    {o : Outcome} (hm : m.Runs c g.id r) (hs : Delivers host thread g.id r setting s)
    (hanswer : Answers host thread m h site o m') (frames : List Frame) :
    Presents host thread g
      ⟨m', .returning (κ := .completion) o
        (.cons (.called (.body setting.limit c frames)) (.cons (.bodyEnd g) s))⟩
      (.answer setting frames o m'.world) := by
  obtain ⟨n, hn⟩ := hanswer
  have hm' : m'.Runs c g.id r := hm.of_run
    (.calling (.hostFunction h) site .nil : State σ .completion) rfl rfl hn
  obtain ⟨m₁, hm₁, hw, hstage⟩ := exists_stage_answer host thread s setting hm' frames o
  have hstep := clearFor_step host thread (sighting? g.id)
    (give m' .completion o
      (.cons (.called (.body setting.limit c frames)) (.cons (.bodyEnd g) s))) rfl
  rw [hstage] at hstep
  refine ⟨m₁, c, r, s, _, hm₁, ?_, .staged _ ?_, hstep.clear⟩
  · rw [Coroutine.setting_answer]
    exact hs
  · rw [Coroutine.world_answer]
    exact hw

/-- A body goes on, or is left, as an observer wants. -/
theorem presents_verdict {m' : Store σ} {setting : Setting} {p : Program σ .verdict}
    {verdict : Except String Unit} {n : Nat} (hm : m.Runs c g.id r)
    (hs : Delivers host thread g.id r setting s)
    (hn : run host thread n ⟨m, .running p .nil⟩ =
      (⟨m', .returning (κ := .verdict) verdict .nil⟩ : Config σ .verdict))
    (frames : List Frame) :
    Presents host thread g
      ⟨m', .returning (κ := .verdict) verdict
        (.cons (.observed (.body setting.limit c frames)) (.cons (.bodyEnd g) s))⟩
      (.heed setting frames verdict m'.world) := by
  have hm' : m'.Runs c g.id r := hm.of_run
    (.running p .nil : State σ .verdict) rfl rfl hn
  cases verdict with
  | ok u => exact ⟨m', c, r, s, _, hm', hs, .executing setting frames, clear_step rfl⟩
  | error reason =>
    exact ⟨changeDepth m' c (· - 1), c, r, s, _, hm'.modifyContext rfl, hs, .staged _ rfl,
      clear_step rfl⟩

/-! ## Drives -/

/-- What is seen of a resumption, its coroutine comes to. -/
theorem Presents.exists_stops {X Y : Config σ .step} {t : Coroutine}
    (hX : Presents host thread g X t) (hY : Plain host thread g.id X Y)
    (hsome : (sighting? g.id Y).isSome) : ∃ u, t.Reaches u ∧ Stops host thread g u Y := by
  obtain ⟨m, c, r, s, Z, hm, hs, hZ, n, hn⟩ := hX
  obtain ⟨k, hk⟩ := hY
  obtain ⟨j, rfl, hj⟩ := hn.split hk hsome
  exact hZ.exists_stops hm hs hj hsome

/-- What a coroutine comes to, its resumption is seen to do, unless an observer is asked
before. -/
theorem Presents.meets {X : Config σ .step} {t v : Coroutine} (hX : Presents host thread g X t)
    (hv : t.Reaches v) (hsome : v.sighting?.isSome) : Meets host thread g t X v := by
  obtain ⟨m, c, r, s, Z, hm, hs, hZ, hplain⟩ := hX
  exact (hZ.meets hm hs hv hsome).trans (.refl t) hplain

theorem give_nil_inj {m m' : Store σ} {x y : Except Abrupt GeneratorStep}
    (h : give m .step x (.nil : Stack σ .step .step) = give m' .step y .nil) : m = m' ∧ x = y := by
  simp only [mk.injEq, State.returning.injEq, heq_eq_eq, and_true, true_and] at h
  exact h

/-- The end of a resumption shows where its coroutine is and what is in the entry of the
generator. -/
theorem Stops.of_give {m : Store σ} {u : Coroutine} {x : Except Abrupt GeneratorStep}
    (h : Stops host thread g u (give m .step x .nil)) :
    u.sighting? = some (.step x (m.world.running g.id)) ∧
      m.generators.get? g.id = some u.entry := by
  generalize hend : give m .step x (.nil : Stack σ .step .step) = Y at h
  cases h with
  | asking | observing => cases hend
  | paused hg hw =>
    obtain ⟨rfl, rfl⟩ := give_nil_inj hend
    refine ⟨?_, hg⟩
    rw [hw]
    rfl
  | ended hg hw =>
    obtain ⟨rfl, rfl⟩ := give_nil_inj hend
    refine ⟨?_, hg⟩
    rw [hw]
    rfl

/-- What is seen where a resumption stops is what there is to see of its coroutine, or an observer
is asked. -/
theorem Stops.sighting_eq {u : Coroutine} {Y : Config σ .step} (h : Stops host thread g u Y) :
    sighting? g.id Y = u.sighting? ∨
      ∃ setting frames w, u = .going setting frames w ∧
        sighting? g.id Y = some (.observation frames w) := by
  cases h with
  | asking => exact .inl rfl
  | observing hm hs frames p count => exact .inr ⟨_, frames, _, rfl, rfl⟩
  | paused hg hw =>
    left
    simp only [sighting?, hw]
    rfl
  | ended hg hw =>
    left
    simp only [sighting?, hw]
    rfl

/-- A coroutine that is seen to hand something out waits at a yield. -/
theorem exists_paused {u : Coroutine} {handed : Value} {w : World}
    (h : u.sighting? = some (.step (.ok ⟨handed, false⟩) w)) :
    ∃ setting v frame w', u = .paused setting v frame w' := by
  cases u with
  | going | asking => cases h
  | paused setting v frame w' => exact ⟨setting, v, frame, w', rfl⟩
  | ended setting o w' =>
    obtain ⟨limit, isOutermost⟩ := setting
    cases isOutermost <;> cases o <;> simp [Coroutine.sighting?, Setting.finish, Except.map] at h

/-- The machine follows the body along a drive. -/
theorem Drive.exists_follows {X Y : Config σ .step} {impulses : List Impulse}
    (h : Drive host thread g X impulses Y) {t : Coroutine} (hX : Presents host thread g X t) :
    ∃ u, t.Follows impulses u ∧ Presents host thread g Y u := by
  induction h generalizing t with
  | here X => exact ⟨t, .here t, hX⟩
  | answer hplain hanswer rest ih =>
    obtain ⟨u, hu, hstops⟩ := hX.exists_stops hplain rfl
    cases hstops with
    | asking hm hs frames h scope receiver args =>
      obtain ⟨v, hv, hY⟩ := ih (presents_answer hm hs hanswer frames)
      exact ⟨v, .answer hu hv, hY⟩
  | verdict hplain hobserve rest ih =>
    obtain ⟨u, hu, hstops⟩ := hX.exists_stops hplain rfl
    obtain ⟨n, hn⟩ := hobserve
    -- which policy was asked does not matter, only the program it runs
    generalize host.observe _ _ _ = program at hstops hn
    generalize hobserved : (⟨_, .running program _⟩ : Config σ .step) = Z at hstops
    cases hstops with
    | observing hm hs frames p count =>
      cases hobserved
      obtain ⟨v, hv, hY⟩ := ih (presents_verdict hm hs hn frames)
      exact ⟨v, .verdict hu hv, hY⟩
    | asking | paused | ended => cases hobserved
  | resumption hplain hheld hresumes rest ih =>
    obtain ⟨u, hu, hstops⟩ := hX.exists_stops hplain rfl
    obtain ⟨hseen, hentry⟩ := hstops.of_give
    obtain ⟨setting, v, frame, w, rfl⟩ := exists_paused hseen
    obtain ⟨u, hfollows, hY⟩ := ih (presents_resume hresumes (hheld.trans hentry) _ _ _)
    exact ⟨u, .resumption hu hseen hfollows, hY⟩

/-- A generator that is driven from outside is one coroutine. Take a generator that has not been
started, its first resumption, and whatever happens then: host functions that its body calls
answer, observers of instructions give verdicts, and each time it has handed out a value it is
resumed with a value to go on with, to throw or to return, on any context that performs
outermost calls in the standard way.

Then one run of its frame, told the same, is at a point `t` from where it comes to what the
machine is seen to do next: the same call of a host function in the same world, or the same end
of the resumption, with the same value handed out, returned or thrown, in the same world. If the
machine asks an observer before, the run is about to carry out the instruction there. At the end
of a resumption the generator holds the frame that waits at the yield, or has finished. -/
theorem drive_is_coroutine {frame : Frame} {scope : Id .scope} {v : Value}
    {impulses : List Impulse} {X : Config σ .step} (hm : m.Resumes host c via g)
    (hfresh : m.generators.get? g.id = some { frame := some frame })
    (hX : Drive host thread g (ofAction host thread m (.step via g .next c scope v)) impulses X) :
    ∃ t, (Coroutine.going (m.setting c) [frame] (m.world.running g.id)).Follows impulses t ∧
      (∀ r, t.Settles r → Sees host thread (sighting? g.id) X r ∨
        ∃ frames w, Sees host thread (sighting? g.id) X (.observation frames w)) ∧
      (∀ r, Sees host thread (sighting? g.id) X r → t.Settles r ∨
        ∃ setting frames w, r = .observation frames w ∧ t.Reaches (.going setting frames w)) ∧
      ∀ m' x, Plain host thread g.id X (give m' .step x .nil) →
        ∃ u, t.Reaches u ∧ u.sighting? = some (.step x (m'.world.running g.id)) ∧
          m'.generators.get? g.id = some u.entry := by
  obtain ⟨t, ht, hpresents⟩ := hX.exists_follows (presents_start hm hfresh scope v)
  refine ⟨t, ht, ?_, ?_, ?_⟩
  · rintro r ⟨u, hu, hr⟩
    obtain ⟨u', Y, -, hY, hstops, heq⟩ := hpresents.meets hu (by rw [hr]; rfl)
    rcases hstops.sighting_eq with hsame | ⟨setting, frames, w, rfl, hobserved⟩
    · rcases heq with rfl | hnone
      · exact .inl ⟨Y, hY, hsame.trans hr⟩
      · have hsome := hstops.isSome_sighting
        rw [hsame, hnone] at hsome
        cases hsome
    · exact .inr ⟨frames, w, Y, hY, hobserved⟩
  · rintro r ⟨Y, hY, hr⟩
    obtain ⟨u, hu, hstops⟩ := hpresents.exists_stops hY (by rw [hr]; rfl)
    rcases hstops.sighting_eq with hsame | ⟨setting, frames, w, rfl, hobserved⟩
    · exact .inl ⟨u, hu, hsame.symm.trans hr⟩
    · obtain rfl : r = .observation frames w := Option.some.inj (hr.symm.trans hobserved)
      exact .inr ⟨setting, frames, w, rfl, hu⟩
  · intro m' x hplain
    obtain ⟨u, hu, hstops⟩ := hpresents.exists_stops hplain rfl
    exact ⟨u, hu, hstops.of_give⟩

/-! ## A generator that catches -/

/-- A generator that hands out true. What is thrown there it hands out too, and then returns what
it is given. -/
def catching : Executable where
  id := ⟨0⟩
  shared := ⟨⟨⟨0⟩, []⟩,
    { name := none
      kind := .function
      isGenerator := true
      isStrict := false
      isExpression := true
      paramCount := 0
      names := #[]
      isConst := #[]
      code := #[.enterTry (some 5) none, .bool true, .yield, .pop, .exitTry, .yield, .ret]
      nested := [] }⟩
  security := none
  valid := by decide

/-- The generator. -/
def catchingCoroutine : Generator := ⟨⟨0⟩, catching⟩

/-- The frame of its body. -/
def catchingFrame (position : Nat) (handlers : List Handler) : Frame :=
  { Frame.enter catching ⟨0⟩ .undefined [] with position, handlers }

/-- A store with one context and the generator. -/
def catchingStore (state : GeneratorState) : Store Unit :=
  { oneContext with generators := ⟨#[state]⟩ }

/-- It is resumed from outside. -/
def catchingStep (state : GeneratorState) (op : GeneratorOp) (v : Value) : Config Unit .step :=
  ofAction answeringHost ⟨0⟩ (catchingStore state) (.step catching catchingCoroutine op ⟨0⟩ ⟨0⟩ v)

theorem resumes_catching (state : GeneratorState) :
    (catchingStore state).Resumes answeringHost ⟨0⟩ catching catchingCoroutine :=
  ⟨rfl, rfl, fun _ => trivial⟩

theorem plain_of_isNone {i : Id .generator} {X Y : Config σ .step} {n : Nat}
    (hn : X.run host thread n = Y)
    (h : ∀ k < n, (sighting? i (X.run host thread k)).isNone) : Plain host thread i X Y :=
  ⟨n, hn, fun k hk => Option.isNone_iff_eq_none.mp (h k hk)⟩

/-- The world while its body runs. -/
def catchingWorld : World := { generators := ⟨#[{ frame := none, started := true }]⟩ }

/-- What happens to it: at the first yield null is thrown, at the second one false returned. -/
def catchingImpulses : List Impulse :=
  [.resumption (.bool true) catchingWorld .throw .null ⟨defaultFrameLimit, true⟩ catchingWorld,
    .resumption .null catchingWorld .return (.bool false) ⟨defaultFrameLimit, true⟩ catchingWorld]

/-- The first resumption. -/
def firstStep : Config Unit .step :=
  catchingStep { frame := some (catchingFrame 0 []) } .next .undefined

/-- Null is thrown. -/
def secondStep : Config Unit .step :=
  catchingStep { frame := some (catchingFrame 3 [⟨some 5, none, 0⟩]), started := true } .throw .null

/-- False is returned. -/
def lastStep : Config Unit .step :=
  catchingStep { frame := some (catchingFrame 6 []), started := true } .return (.bool false)

/-- The store after a resumption. -/
def catchingEnd (state : GeneratorState) (done : Bool) : Store Unit :=
  { catchingStore state with resumptions := ⟨#[{ value := none, done := some done }]⟩ }

theorem plain_firstStep :
    Plain answeringHost ⟨0⟩ ⟨0⟩ firstStep
      (give (catchingEnd { frame := some (catchingFrame 3 [⟨some 5, none, 0⟩]), started := true }
        false) .step (.ok ⟨.bool true, false⟩) .nil) := by
  have hclear : ∀ k < 12, (sighting? ⟨0⟩ (run answeringHost ⟨0⟩ k firstStep)).isNone := by
    decide +kernel
  exact plain_of_isNone rfl hclear

theorem plain_secondStep :
    Plain answeringHost ⟨0⟩ ⟨0⟩ secondStep
      (give (catchingEnd { frame := some (catchingFrame 6 []), started := true } false)
        .step (.ok ⟨.null, false⟩) .nil) := by
  have hclear : ∀ k < 8, (sighting? ⟨0⟩ (run answeringHost ⟨0⟩ k secondStep)).isNone := by
    decide +kernel
  exact plain_of_isNone rfl hclear

theorem plain_lastStep :
    Plain answeringHost ⟨0⟩ ⟨0⟩ lastStep
      (give (catchingEnd { frame := none, started := true, finished := true } true)
        .step (.ok ⟨.bool false, true⟩) .nil) := by
  have hclear : ∀ k < 6, (sighting? ⟨0⟩ (run answeringHost ⟨0⟩ k lastStep)).isNone := by
    decide +kernel
  exact plain_of_isNone rfl hclear

theorem drive_catching :
    Drive answeringHost ⟨0⟩ catchingCoroutine firstStep catchingImpulses lastStep := by
  have hrest : Drive answeringHost ⟨0⟩ catchingCoroutine secondStep catchingImpulses.tail
      lastStep := .resumption plain_secondStep (by rfl) (resumes_catching _) (.here _)
  exact .resumption plain_firstStep (by rfl) (resumes_catching _) hrest

/-- The body in one run: it hands out true, catches null and hands it out, and ends with
false. -/
theorem coroutine_catching :
    ∃ t, (Coroutine.going ⟨defaultFrameLimit, true⟩ [catchingFrame 0 []] catchingWorld).Follows
        catchingImpulses t ∧
      ∃ u, t.Reaches u ∧ u.sighting? = some (.step (.ok ⟨.bool false, true⟩) catchingWorld) := by
  obtain ⟨t, ht, -, -, hend⟩ :=
    drive_is_coroutine (resumes_catching { frame := some (catchingFrame 0 []) }) rfl drive_catching
  obtain ⟨u, hu, hseen, -⟩ := hend _ _ plain_lastStep
  exact ⟨t, ht, u, hu, hseen⟩

end Config

end ScriptMachine
