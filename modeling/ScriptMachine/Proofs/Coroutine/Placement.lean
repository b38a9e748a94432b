import ScriptMachine.Proofs.Coroutine.Reference
import ScriptMachine.Proofs.Machine.Bookkeeping
import ScriptMachine.Proofs.Machine.Generators
import ScriptMachine.Proofs.Machine.Resumptions
import ScriptMachine.Proofs.Machine.Sight

/-!
# Coroutines on a machine

While the body of a generator runs, its activation is on the stack and its entry of the store
holds no frame. `Config.place` puts a coroutine there. From such a place the machine comes to
what the coroutine comes to: `Config.exists_stops` reads off what the machine is seen to do
next, `Config.exists_clear_stops` says that it does it, unless an observer is asked before.
-/

namespace ScriptMachine

variable {σ : Type}

/-- The world while the body of a generator runs. -/
def World.running (g : Id .generator) (w : World) : World :=
  { w with generators := w.generators.set g { frame := none, started := true } }

/-- The body of a generator runs within a top call of a context. If it is resumed by the
outermost call, then that resumption was made. -/
structure Store.Runs (m : Store σ) (c : Id .context) (g : Id .generator)
    (r : Option (Id .resumption)) : Prop where
  known : m.Knows c
  called : (m.context c).topCall.isSome
  body : m.generators.get? g = some { frame := none, started := true }
  recalls : ∀ i ∈ r, m.Recalls i

/-! ## Worlds and stores -/

theorem Table.set_modify {noun : Noun} {α : Type} (t : Table noun α) (id : Id noun) {a : α}
    (h : t.get? id = some a) (f : α → α) : (t.modify id f).set id a = t := by
  obtain ⟨entries⟩ := t
  simp only [set, modify, mk.injEq]
  ext1
  · simp
  · next i hi hi' =>
    rw [Array.getElem_modify, Array.getElem_modify]
    split
    · next hid =>
      subst hid
      rw [get?, Array.getElem?_eq_getElem hi'] at h
      exact (Option.some.inj h).symm
    · rfl

theorem Table.get?_set {noun : Noun} {α : Type} (t : Table noun α) (id : Id noun) {a : α}
    (h : t.get? id = some a) (b : α) : (t.set id b).get? id = some b := by
  rw [set, get?_modify, if_pos rfl, h]
  rfl

theorem Table.get?_insert_of_some {noun : Noun} {α : Type} {t : Table noun α} {id : Id noun}
    {a : α} (h : t.get? id = some a) (b : α) : (t.insert b).2.get? id = some a := by
  rw [get?_insert]
  split
  · next hnext =>
    rw [hnext, get?, next, Array.getElem?_eq_none (Nat.le_refl _)] at h
    cases h
  · exact h

theorem World.running_modify {w : World} {g : Id .generator}
    (h : w.generators.get? g = some { frame := none, started := true })
    (f : GeneratorState → GeneratorState) :
    World.running g { w with generators := w.generators.modify g f } = w := by
  simp only [running, Table.set_modify w.generators g h f]

@[simp] theorem Coroutine.world_ofFlow (setting : Setting) (w : World) (flow : Flow) :
    (ofFlow setting w flow).world = w := by
  rcases flow with a | (e | (v | ⟨v, frame⟩)) <;> rfl

@[simp] theorem Coroutine.world_answer (setting : Setting) (frames : List Frame) (o : Outcome)
    (w : World) : (answer setting frames o w).world = w := by
  cases o <;> exact world_ofFlow _ _ _

@[simp] theorem Coroutine.world_resume (setting : Setting) (frame : Frame) (op : GeneratorOp)
    (v : Value) (w : World) : (resume setting frame op v w).world = w := by
  cases op with
  | next => rfl
  | throw | «return» => exact world_ofFlow _ _ _

theorem Setting.running_finish (setting : Setting) (x : Except Abrupt GeneratorStep) (w : World)
    (g : Id .generator) :
    ((setting.finish x w).1, (setting.finish x w).2.running g) =
      setting.finish x (w.running g) := by
  obtain ⟨limit, isOutermost⟩ := setting
  cases isOutermost <;> cases x <;> rfl

namespace Store.Runs

variable {m m' : Store σ} {c : Id .context} {g : Id .generator} {r : Option (Id .resumption)}

theorem of_eq (h : m.Runs c g r) (hc : m'.contexts = m.contexts)
    (hg : m'.generators.get? g = m.generators.get? g) (hr : m'.resumptions = m.resumptions) :
    m'.Runs c g r where
  known := by
    rw [Store.Knows, hc]
    exact h.known
  called := by
    rw [Store.context, hc]
    exact h.called
  body := hg.trans h.body
  recalls i hi := (h.recalls i hi).of_eq hr

theorem modifyContext (h : m.Runs c g r) {f : Context → Context}
    (htop : (f (m.context c)).topCall = (m.context c).topCall) :
    (m.modifyContext c f).Runs c g r where
  known := Store.knows_modifyContext c f h.known
  called := by
    rw [Store.context_modifyContext h.known, htop]
    exact h.called
  body := h.body
  recalls := h.recalls

/-- Code on a stack of its own that comes to a result leaves the body of a generator running. -/
theorem of_run {host : Host σ} {thread : Id .thread} {goal : Kind} {x : goal.Result} {n : Nat}
    (h : m.Runs c g r) (state : State σ goal)
    (hsettles : state.Settles c (m.ledger c) (m.ledger c)) (hbodies : state.bodies g = 0)
    (hn : Config.run host thread n ⟨m, state⟩ = Config.give m' goal x .nil) : m'.Runs c g r := by
  have hkeeps : Config.Keeps c (m.ledger c) ⟨m, state⟩ := ⟨h.known, hsettles⟩
  obtain ⟨hknown, hledger⟩ := Config.run_keeps host thread hkeeps n
  have hlife := Config.life_run_eq host thread (X := ⟨m, state⟩) h.body rfl hbodies n
  rw [hn] at hknown hledger hlife
  have htop : (m'.context c).topCall = (m.context c).topCall := congrArg Ledger.topCall hledger
  refine ⟨hknown, ?_, (congrArg GeneratorLife.state hlife).trans h.body, ?_⟩
  · rw [htop]
    exact h.called
  · intro i hi
    have hrecalls := Config.run_recalls host thread (X := ⟨m, state⟩) (h.recalls i hi) n
    rw [hn] at hrecalls
    exact hrecalls

end Store.Runs

namespace Config

variable (host : Host σ) (thread : Id .thread)

/-- What can be seen at the moment of a resumption of a generator. The entry of the generator
itself does not count as a part of the world. -/
def sighting? (g : Id .generator) (X : Config σ .step) : Option Sighting :=
  match X.state with
  | .calling (.hostFunction h) site (.cons (.called _) _) =>
    some (.call ⟨h, site.scope, site.receiver, site.args, X.store.world⟩)
  | .running _ (.cons (.observed a) _) => some (.observation a.frames X.store.world)
  | .returning x .nil => some (.step x (X.store.world.running g))
  | _ => none

/-- A resumption comes to a configuration without anything to see before. -/
abbrev Plain (g : Id .generator) (X Y : Config σ .step) : Prop :=
  Clear host thread (sighting? g) X Y

/-- A stack that takes the end of a resumption to the outside. -/
def Delivers (g : Id .generator) (r : Option (Id .resumption)) (setting : Setting)
    (s : Stack σ .step .step) : Prop :=
  ∀ (m : Store σ) (x : Except Abrupt GeneratorStep), (∀ i ∈ r, m.Recalls i) →
    ∃ m' : Store σ,
      Plain host thread g (give m .step x s) (give m' .step (setting.finish x m.world).1 .nil) ∧
        m'.world = (setting.finish x m.world).2 ∧ m'.generators = m.generators

/-- A coroutine on a context and on a stack. -/
def stage (m : Store σ) (c : Id .context) (g : Generator) (s : Stack σ .step .step) :
    Coroutine → Config σ .step
  | .going setting frames _ => ⟨m, .counting (.body setting.limit c frames) (.cons (.bodyEnd g) s)⟩
  | .asking setting frames call =>
    ⟨m, .calling (.hostFunction call.function) ⟨c, call.scope, call.receiver, call.args⟩
      (.cons (.called (.body setting.limit c frames)) (.cons (.bodyEnd g) s))⟩
  | .paused _ v frame _ => give m .exit (.ok (.yielded v frame)) (.cons (.bodyEnd g) s)
  | .ended _ o _ => give m .exit (o.map .returned) (.cons (.bodyEnd g) s)

/-- A coroutine in its place, perhaps with the next instruction counted already. -/
inductive Stands (m : Store σ) (c : Id .context) (g : Generator) (s : Stack σ .step .step) :
    Coroutine → Config σ .step → Prop
  | staged (t : Coroutine) (hw : m.world = t.world) : Stands m c g s t (stage m c g s t)
  | executing (setting : Setting) (frames : List Frame) :
      Stands m c g s (.going setting frames m.world)
        ⟨m, .executing (.body setting.limit c frames) (.cons (.bodyEnd g) s)⟩

/-- A resumption stops where there is something to see of its coroutine, or where an observer of
instructions is asked. -/
inductive Stops (g : Generator) : Coroutine → Config σ .step → Prop
  | asking {m : Store σ} {c : Id .context} {r : Option (Id .resumption)}
      {s : Stack σ .step .step} {setting : Setting} (hm : m.Runs c g.id r)
      (hs : Delivers host thread g.id r setting s) (frames : List Frame) (h : HostFunction)
      (scope : Id .scope) (receiver : Value) (args : List Value) :
      Stops g (.asking setting frames ⟨h, scope, receiver, args, m.world⟩)
        ⟨m, .calling (.hostFunction h) ⟨c, scope, receiver, args⟩
          (.cons (.called (.body setting.limit c frames)) (.cons (.bodyEnd g) s))⟩
  | observing {m : Store σ} {c : Id .context} {r : Option (Id .resumption)}
      {s : Stack σ .step .step} {setting : Setting} (hm : m.Runs c g.id r)
      (hs : Delivers host thread g.id r setting s) (frames : List Frame) (p : Id .policy)
      (count : UInt32) :
      Stops g (.going setting frames m.world)
        ⟨m, .running (host.observe p c count)
          (.cons (.observed (.body setting.limit c frames)) (.cons (.bodyEnd g) s))⟩
  | paused {m : Store σ} {setting : Setting} {v : Value} {frame : Frame} {w : World}
      (hg : m.generators.get? g.id = some { frame := some frame, started := true })
      (hw : m.world.running g.id = (setting.finish (.ok ⟨v, false⟩) w).2) :
      Stops g (.paused setting v frame w) (give m .step (setting.finish (.ok ⟨v, false⟩) w).1 .nil)
  | ended {m : Store σ} {setting : Setting} {o : Outcome} {w : World}
      (hg : m.generators.get? g.id = some { frame := none, started := true, finished := true })
      (hw : m.world.running g.id = (setting.finish (o.map fun v => ⟨v, true⟩) w).2) :
      Stops g (.ended setting o w)
        (give m .step (setting.finish (o.map fun v => ⟨v, true⟩) w).1 .nil)

variable {host thread} {m : Store σ} {c : Id .context} {g : Generator}
  {r : Option (Id .resumption)} {s : Stack σ .step .step} {setting : Setting}

/-! ## One instruction -/

variable (s) in
/-- The flow of the activation of a body leads to the place of its coroutine. -/
theorem exists_stage_follow (hm : m.Runs c g.id r) {flow : Flow} {frames : List Frame}
    (hflow : flow.Continues (.body setting.limit Turn.anywhere frames)) :
    ∃ m' : Store σ, m'.Runs c g.id r ∧ m'.world = m.world ∧
      follow m c (flow.moved c) (.cons (.bodyEnd g) s) =
        stage m' c g s (.ofFlow setting m.world flow) := by
  cases flow with
  | next b =>
    obtain ⟨f, callers, rfl⟩ := hflow
    exact ⟨m, hm, rfl, rfl⟩
  | leave e =>
    refine ⟨changeDepth m c (· - 1), hm.modifyContext rfl, rfl, ?_⟩
    rcases e with e | (v | ⟨v, frame⟩) <;> rfl

/-- Within the body of a generator nothing can be captured. -/
theorem fail_body (limit : Nat) (c : Id .context) (frames : List Frame) (e : Abrupt)
    (m : Store σ) :
    (Activation.body limit c frames).fail e m =
      (((Activation.body limit Turn.anywhere frames).fail e m.world.bare).1.moved c, m) := by
  by_cases he : ∃ p, e = .suspended p
  · obtain ⟨p, rfl⟩ := he
    rfl
  · have hne : ∀ p, e ≠ .suspended p := fun p h => he ⟨p, h⟩
    have hmoved := Activation.fail_moved (.body limit Turn.anywhere frames) m c hne
    rw [Activation.fail_eq (.body limit Turn.anywhere frames) m hne] at hmoved
    exact hmoved

variable (host thread s setting) in
/-- An answer to the body of a generator leads to the place of its coroutine. -/
theorem exists_stage_answer (hm : m.Runs c g.id r) (frames : List Frame) (o : Outcome) :
    ∃ m' : Store σ, m'.Runs c g.id r ∧ m'.world = m.world ∧
      step host thread (give m .completion o
        (.cons (.called (.body setting.limit c frames)) (.cons (.bodyEnd g) s))) =
          stage m' c g s (.answer setting frames o m.world) := by
  cases o with
  | ok v =>
    have hflow := Activation.deliver_continues (.body setting.limit Turn.anywhere frames) v
    have hstage := exists_stage_follow s hm hflow
    rw [← Activation.deliver_moved] at hstage
    exact hstage
  | error e =>
    have hflow := Activation.fail_continues (.body setting.limit Turn.anywhere frames)
      m.world.bare e
    obtain ⟨m', hm', hw, hfollow⟩ := exists_stage_follow s hm hflow
    refine ⟨m', hm', hw, ?_⟩
    rw [Coroutine.answer, ← hfollow]
    have hfail := fail_body setting.limit c frames e m
    simp only [step, take, hfail]
    rfl

variable (host thread s setting) in
/-- A call of a generator function makes a generator, and leads to the place of a coroutine. -/
theorem exists_clearFor_makeGenerator (hm : m.Runs c g.id r) (frames : List Frame)
    {e : Executable} (hgen : e.routine.isGenerator = true) (site : CallSite) :
    ∃ m' : Store σ, m'.Runs c g.id r ∧
      m'.world = (Coroutine.makeGenerator setting frames e site m.world).world ∧
      ClearFor host thread (sighting? g.id) 2
        ⟨m, .calling (.executable e) { site with context := c }
          (.cons (.called (.body setting.limit c frames)) (.cons (.bodyEnd g) s))⟩
        (stage m' c g s (Coroutine.makeGenerator setting frames e site m.world)) := by
  obtain ⟨made, hmade⟩ : ∃ made, m.newGenerator
      (Frame.enter e site.scope site.receiver site.args) = made := ⟨_, rfl⟩
  have hm₁ : made.2.Runs c g.id r := by
    rw [← hmade]
    exact hm.of_eq rfl ((Table.get?_insert_of_some hm.body _).trans hm.body.symm) rfl
  obtain ⟨m', hm', hw, hanswer⟩ := exists_stage_answer host thread s setting hm₁ frames
    (.ok (.generator made.1))
  have hfirst := clearFor_step host thread (sighting? g.id)
    ⟨m, .calling (.executable e) { site with context := c }
      (.cons (.called (.body setting.limit c frames)) (.cons (.bodyEnd g) s))⟩ rfl
  have hcalled : (m.context c).topCall.isSome = true := hm.called
  simp only [step, beginCall, interpret, hcalled, hgen, if_true, hmade] at hfirst
  have hsecond := clearFor_step host thread (sighting? g.id)
    (give made.2 .completion (.ok (.generator made.1))
      (.cons (.called (.body setting.limit c frames)) (.cons (.bodyEnd g) s))) rfl
  rw [hanswer] at hsecond
  subst hmade
  refine ⟨m', hm', ?_, hfirst.trans hsecond⟩
  rw [Coroutine.makeGenerator, Coroutine.world_answer]
  exact hw

variable (host thread s setting) in
/-- An instruction of the body of a generator leads to the place of its coroutine after it. -/
theorem exists_plain_executing (hm : m.Runs c g.id r) (frames : List Frame) :
    ∃ (n : Nat) (m' : Store σ), m'.Runs c g.id r ∧
      m'.world = ((Coroutine.going setting frames m.world).next).world ∧
      ClearFor host thread (sighting? g.id) (n + 1)
        ⟨m, .executing (.body setting.limit c frames) (.cons (.bodyEnd g) s)⟩
        (stage m' c g s (Coroutine.going setting frames m.world).next) := by
  -- the instruction does the same on this context as anywhere else
  have hmoved := (Activation.body setting.limit Turn.anywhere frames).execute_moved m c
  rw [(Activation.body setting.limit Turn.anywhere frames).execute_eq m] at hmoved
  have hcontinues := (Activation.body setting.limit Turn.anywhere frames).execute_continues
    m.world.bare
  have hgenerators := (Activation.body setting.limit Turn.anywhere frames).generators_execute
    m.world.bare
  simp only [Coroutine.next]
  generalize (Activation.body setting.limit Turn.anywhere frames).execute m.world.bare = moved
    at hmoved hcontinues hgenerators
  obtain ⟨move, mw⟩ := moved
  have hm₁ : (m.setWorld mw.world).Runs c g.id r :=
    hm.of_eq rfl (congrArg (Table.get? · g.id) hgenerators) rfl
  have hfirst := clearFor_step host thread (sighting? g.id)
    ⟨m, .executing (.body setting.limit c frames) (.cons (.bodyEnd g) s)⟩ rfl
  have hexecute : (Activation.body setting.limit c frames).execute m =
      (move.moved c, m.setWorld mw.world) := hmoved
  simp only [step, execute, hexecute] at hfirst
  cases move with
  | flow flow =>
    obtain ⟨m', hm', hw, hfollow⟩ := exists_stage_follow s hm₁ hcontinues
    refine ⟨0, m', hm', ?_, ?_⟩
    · rw [Coroutine.ofMove, Coroutine.world_ofFlow]
      exact hw
    · rw [Coroutine.ofMove, ← World.world_bare mw.world]
      exact hfollow ▸ hfirst
  | call b f site =>
    obtain ⟨⟨frame, callers, rfl⟩, -, hawaited⟩ := hcontinues
    cases f with
    | executable e =>
      obtain ⟨m', hm', hw, hcall⟩ := exists_clearFor_makeGenerator host thread s setting hm₁
        (frame :: callers) hawaited site
      exact ⟨2, m', hm', hw, hfirst.trans hcall⟩
    | hostFunction f => exact ⟨0, m.setWorld mw.world, hm₁, rfl, hfirst⟩
    | resumption i g op => exact absurd hawaited id
    | continuation k v => exact absurd hawaited id

variable (host thread s) in
/-- An instruction is counted, and an observer may be asked. -/
theorem exists_step_counting (hm : m.Runs c g.id r) (frames : List Frame) :
    ∃ m' : Store σ, m'.Runs c g.id r ∧ m'.world = m.world ∧
      (step host thread ⟨m, .counting (.body setting.limit c frames) (.cons (.bodyEnd g) s)⟩ =
          ⟨m', .executing (.body setting.limit c frames) (.cons (.bodyEnd g) s)⟩ ∨
        ∃ (p : Id .policy) (n : UInt32),
          step host thread ⟨m, .counting (.body setting.limit c frames) (.cons (.bodyEnd g) s)⟩ =
            ⟨m', .running (host.observe p c n)
              (.cons (.observed (.body setting.limit c frames)) (.cons (.bodyEnd g) s))⟩) := by
  have htop : ((m.context c).countInstruction).2.topCall = (m.context c).topCall :=
    congrArg Ledger.topCall (Context.ledger_countInstruction _)
  refine ⟨m.modifyContext c fun _ => ((m.context c).countInstruction).2, hm.modifyContext htop,
    rfl, ?_⟩
  simp only [step, count]
  split
  · exact .inr ⟨_, _, rfl⟩
  · exact .inl rfl

/-! ## The end of a resumption -/

/-- The entry of the generator is written, and the end of the resumption goes to the outside. -/
theorem exists_plain_delivered (hm : m.Runs c g.id r)
    (hs : Delivers host thread g.id r setting s) (f : GeneratorState → GeneratorState)
    (x : Except Abrupt GeneratorStep) :
    ∃ m' : Store σ,
      Plain host thread g.id
        (give { m with generators := m.generators.modify g.id f } .step x s)
        (give m' .step (setting.finish x m.world).1 .nil) ∧
      m'.world.running g.id = (setting.finish x m.world).2 ∧
      m'.generators.get? g.id = some (f { frame := none, started := true }) := by
  have hrecalls : ∀ i ∈ r, Store.Recalls { m with generators := m.generators.modify g.id f } i :=
    hm.recalls
  obtain ⟨m', hplain, hw, hg⟩ := hs { m with generators := m.generators.modify g.id f } x hrecalls
  have hfinish := setting.running_finish x
    (Store.world { m with generators := m.generators.modify g.id f }) g.id
  have hrunning : (Store.world { m with generators := m.generators.modify g.id f }).running g.id =
      m.world := World.running_modify (w := m.world) hm.body f
  rw [hrunning] at hfinish
  refine ⟨m', ?_, ?_, ?_⟩
  · rw [← hfinish]
    exact hplain
  · rw [hw, ← hfinish]
  · rw [hg, Table.get?_modify, if_pos rfl, hm.body]
    rfl

theorem exists_stops_paused (hm : m.Runs c g.id r) (hs : Delivers host thread g.id r setting s)
    (v : Value) (frame : Frame) :
    ∃ Y, Plain host thread g.id (stage m c g s (.paused setting v frame m.world)) Y ∧
      Stops host thread g (.paused setting v frame m.world) Y := by
  have hstep : Plain host thread g.id (stage m c g s (.paused setting v frame m.world)) _ :=
    clear_step rfl
  obtain ⟨m', hplain, hw, hg⟩ := exists_plain_delivered hm hs
    (fun state => { state with frame := some frame }) (.ok ⟨v, false⟩)
  exact ⟨_, hstep.trans hplain, .paused hg hw⟩

theorem exists_stops_ended (hm : m.Runs c g.id r) (hs : Delivers host thread g.id r setting s)
    (o : Outcome) :
    ∃ Y, Plain host thread g.id (stage m c g s (.ended setting o m.world)) Y ∧
      Stops host thread g (.ended setting o m.world) Y := by
  have hstep : Plain host thread g.id (stage m c g s (.ended setting o m.world)) _ :=
    clear_step rfl
  obtain ⟨m', hplain, hw, hg⟩ := exists_plain_delivered hm hs
    (fun state => { state with finished := true }) (o.map fun v => ⟨v, true⟩)
  refine ⟨_, hstep.trans ?_, .ended hg hw⟩
  cases o <;> exact hplain

/-! ## What is seen of a resumption -/

theorem Stops.isSome_sighting {t : Coroutine} {Y : Config σ .step}
    (h : Stops host thread g t Y) : (sighting? g.id Y).isSome := by
  cases h <;> rfl

/-- What the machine is seen to do at a place of a coroutine, the coroutine comes to. -/
theorem Stands.exists_stops {t : Coroutine} {Y Z : Config σ .step} {n : Nat}
    (hZ : Stands m c g s t Z) (hm : m.Runs c g.id r)
    (hs : Delivers host thread g.id r t.setting s)
    (hY : ClearFor host thread (sighting? g.id) n Z Y) (hsome : (sighting? g.id Y).isSome) :
    ∃ u, t.Reaches u ∧ Stops host thread g u Y := by
  induction n using Nat.strongRecOn generalizing m t Z with
  | ind n ih =>
    cases hZ with
    | executing setting frames =>
      obtain ⟨k, m', hm', hw, hplain⟩ := exists_plain_executing host thread s setting hm frames
      obtain ⟨j, rfl, hj⟩ := hplain.split hY hsome
      rw [← Coroutine.setting_next] at hs
      obtain ⟨u, hu, hstops⟩ := ih j (by omega) (.staged _ hw) hm' hs hj
      exact ⟨u, (Coroutine.reaches_next _).trans hu, hstops⟩
    | staged t hw =>
      cases t with
      | going setting frames w =>
        obtain rfl : m.world = w := hw
        obtain ⟨m', hm', hw, hcount⟩ := exists_step_counting host thread s hm frames
        have hstep := clearFor_step host thread (sighting? g.id)
          (stage m c g s (.going setting frames m.world)) rfl
        obtain ⟨j, rfl, hj⟩ := hstep.split hY hsome
        rcases hcount with hcount | ⟨p, count, hcount⟩
        · rw [show (stage m c g s (.going setting frames m.world)).step host thread = _ from hcount]
            at hj
          rw [← hw]
          exact ih j (by omega) (.executing setting frames) hm' hs hj
        · rw [show (stage m c g s (.going setting frames m.world)).step host thread = _ from hcount]
            at hj
          obtain rfl := (Clear.refl _).unique hj.clear rfl hsome
          refine ⟨_, .refl _, ?_⟩
          rw [← hw]
          exact .observing hm' hs frames p count
      | asking setting frames call =>
        obtain ⟨h, scope, receiver, args, w⟩ := call
        obtain rfl : m.world = w := hw
        obtain rfl := (Clear.refl _).unique hY.clear rfl hsome
        exact ⟨_, .refl _, .asking hm hs frames h scope receiver args⟩
      | paused setting v frame w =>
        obtain rfl : m.world = w := hw
        obtain ⟨Y', hplain, hstops⟩ := exists_stops_paused hm hs v frame
        obtain rfl := hplain.unique hY.clear hstops.isSome_sighting hsome
        exact ⟨_, .refl _, hstops⟩
      | ended setting o w =>
        obtain rfl : m.world = w := hw
        obtain ⟨Y', hplain, hstops⟩ := exists_stops_ended hm hs o
        obtain rfl := hplain.unique hY.clear hstops.isSome_sighting hsome
        exact ⟨_, .refl _, hstops⟩

variable (host thread) in
/-- The machine stops where a coroutine comes to, or before at an observer that is asked. -/
def Meets (g : Generator) (t : Coroutine) (Z : Config σ .step) (v : Coroutine) : Prop :=
  ∃ u Y, t.Reaches u ∧ Plain host thread g.id Z Y ∧ Stops host thread g u Y ∧
    (u = v ∨ u.sighting? = none)

theorem Meets.of_stops {t : Coroutine} {Y Z : Config σ .step} (hY : Plain host thread g.id Z Y)
    (hstops : Stops host thread g t Y) : Meets host thread g t Z t :=
  ⟨t, Y, .refl t, hY, hstops, .inl rfl⟩

theorem Meets.trans {t t' v : Coroutine} {Z Z' : Config σ .step} (h : Meets host thread g t' Z' v)
    (ht : t.Reaches t') (hZ : Plain host thread g.id Z Z') : Meets host thread g t Z v := by
  obtain ⟨u, Y, hu, hY, hstops, hv⟩ := h
  exact ⟨u, Y, ht.trans hu, hZ.trans hY, hstops, hv⟩

theorem meets_of_sighting {t : Coroutine} (hm : m.Runs c g.id r)
    (hs : Delivers host thread g.id r t.setting s) (hw : m.world = t.world)
    (hsome : t.sighting?.isSome) : Meets host thread g t (stage m c g s t) t := by
  cases t with
  | going setting frames w => simp [Coroutine.sighting?] at hsome
  | asking setting frames call =>
    obtain ⟨h, scope, receiver, args, w⟩ := call
    obtain rfl : m.world = w := hw
    exact .of_stops (Clear.refl _) (.asking hm hs frames h scope receiver args)
  | paused setting v frame w =>
    obtain rfl : m.world = w := hw
    obtain ⟨Y, hY, hstops⟩ := exists_stops_paused hm hs v frame
    exact .of_stops hY hstops
  | ended setting o w =>
    obtain rfl : m.world = w := hw
    obtain ⟨Y, hY, hstops⟩ := exists_stops_ended hm hs o
    exact .of_stops hY hstops

/-- What a coroutine comes to, the machine is seen to do, unless an observer is asked before. -/
theorem meets_stage (n : Nat) {t : Coroutine} (hm : m.Runs c g.id r)
    (hs : Delivers host thread g.id r t.setting s) (hw : m.world = t.world)
    (hsome : (t.run n).sighting?.isSome) :
    Meets host thread g t (stage m c g s t) (t.run n) := by
  induction n generalizing m t with
  | zero => exact meets_of_sighting hm hs hw hsome
  | succ n ih =>
    by_cases hnow : t.sighting?.isSome
    · rw [Coroutine.run_of_sighting hnow]
      exact meets_of_sighting hm hs hw hnow
    · cases t with
      | going setting frames w =>
        obtain rfl : m.world = w := hw
        obtain ⟨m', hm', hw, hcount⟩ := exists_step_counting host thread s hm frames
        have hstep : Plain host thread g.id (stage m c g s (.going setting frames m.world)) _ :=
          clear_step rfl
        rcases hcount with hcount | ⟨p, count, hcount⟩
        · -- the instruction is carried out, and the rest is one instruction shorter
          obtain ⟨k, m'', hm'', hw', hplain⟩ := exists_plain_executing host thread s setting
            hm' frames
          rw [show (stage m c g s (.going setting frames m.world)).step host thread = _ from hcount]
            at hstep
          rw [hw] at hw' hplain
          have hnext : Meets host thread g (Coroutine.going setting frames m.world).next
              (stage m'' c g s (Coroutine.going setting frames m.world).next)
              ((Coroutine.going setting frames m.world).next.run n) := by
            refine ih hm'' ?_ hw' hsome
            rw [Coroutine.setting_next]
            exact hs
          exact hnext.trans (Coroutine.reaches_next _) (hstep.trans hplain.clear)
        · rw [show (stage m c g s (.going setting frames m.world)).step host thread = _ from hcount]
            at hstep
          refine ⟨_, _, .refl _, hstep, ?_, .inr rfl⟩
          rw [← hw]
          exact .observing hm' hs frames p count
      | asking | paused | ended => exact absurd rfl hnow

/-- The same with the next instruction counted already. -/
theorem Stands.meets {t v : Coroutine} {Z : Config σ .step} (hZ : Stands m c g s t Z)
    (hm : m.Runs c g.id r) (hs : Delivers host thread g.id r t.setting s) (hv : t.Reaches v)
    (hsome : v.sighting?.isSome) : Meets host thread g t Z v := by
  obtain ⟨n, rfl⟩ := hv
  cases hZ with
  | staged t hw => exact meets_stage n hm hs hw hsome
  | executing setting frames =>
    cases n with
    | zero => simp [Coroutine.run, Coroutine.sighting?] at hsome
    | succ n =>
      obtain ⟨k, m', hm', hw, hplain⟩ := exists_plain_executing host thread s setting
        hm frames
      have hnext : Meets host thread g (Coroutine.going setting frames m.world).next
          (stage m' c g s (Coroutine.going setting frames m.world).next)
          ((Coroutine.going setting frames m.world).next.run n) := by
        refine meets_stage n hm' ?_ hw hsome
        rw [Coroutine.setting_next]
        exact hs
      exact hnext.trans (Coroutine.reaches_next _) hplain.clear

end Config

end ScriptMachine
