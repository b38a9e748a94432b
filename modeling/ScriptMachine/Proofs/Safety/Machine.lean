import ScriptMachine.Proofs.Safety.Activation

/-!
# Sound configurations

Everything that a machine holds is sound: the store, the activations on the stack, what is about
to be called and what is returned. Host code is a black box that is given executables and hands
executables on; `Program.Over P Q` says that it hands on none outside `P` as long as it is given
none, where `Q` is a property of the host's own state. `Config.Sound.step` says that a step
keeps a configuration sound, if what it makes is in `P`.
-/

namespace ScriptMachine

variable {σ : Type} {goal : Kind} (P : Executable → Prop) (Q : σ → Prop)

/-! ## Host code -/

/-- An optional value is over a set. -/
def OptionOver : Option Value → Prop
  | some v => v.Over P
  | none => True

/-- The end of a call is over a set. -/
def OutcomeOver : Outcome → Prop
  | .ok v => v.Over P
  | .error e => e.Over P

/-- A result is over a set. -/
def ResultOver : (κ : Kind) → κ.Result → Prop
  | .completion, o => OutcomeOver P o
  | .exit, .ok (.returned v) => v.Over P
  | .exit, .ok (.yielded v f) => v.Over P ∧ f.Sound P ∧ f.body.routine.isGenerator = true
  | .exit, .error e => e.Over P
  | .step, .ok s => s.value.Over P
  | .step, .error e => e.Over P
  | .entered, _ | .left, _ | .made, _ | .verdict, _ | .guarded, _ | .done, _ => True

/-- What a query hands to the store is over a set. -/
def Query.Over : Query σ → Prop
  | .scope (.put _ _ v) | .scope (.define _ _ v) | .value (.flatten v) => v.Over P
  | .code (.nested e _) => P e
  | .setHost s => Q s
  | _ => True

/-- What the store replies to a query is over a set. -/
def Query.ReplyOver : (q : Query σ) → q.Reply → Prop
  | .scope (.state _), s => s.Over P
  | .scope (.find _ _), v | .scope (.delete _ _), v => OptionOver P v
  | .value (.add _ _), v | .value (.concat _ _), v | .value (.flatten _), v => v.Over P
  | .code (.create _ _ _), .ok e | .code (.nested _ _), .ok e => P e
  | .generator _, s => s.Sound P
  | .continuation _, s => s.Sound P
  | .host, s => Q s
  | _, _ => True

/-- What an action hands on is over a set. -/
def Action.Over : Action → Prop
  | .call f site | .callOutermost f site _ => f.Over P ∧ site.Over P
  | .execute e _ _ | .executeCapturing e _ _ => P e
  | .callCapturing e _ _ args => P e ∧ ∀ v ∈ args, v.Over P
  | .resume _ _ _ v => v.Over P
  | .step via g _ _ _ v => P via ∧ P g.body ∧ v.Over P
  | .enter _ _ | .exit | .makeContext _ => True

/-- Host code that hands on executables of a set as long as it is given such. -/
def Program.Over : {κ : Kind} → Program σ κ → Prop
  | κ, .finish r => ResultOver P κ r
  | _, .panic => True
  | _, .ask q k => q.Over P Q ∧ ∀ r, q.ReplyOver P Q r → (k r).Over
  | _, .act a k => a.Over P ∧ ∀ r, ResultOver P a.kind r → (k r).Over
  | _, .bracket _ body k => (∀ c, (body c).Over) ∧ ∀ r, (k r).Over
  | _, .guard body k => body.Over ∧ ∀ r, (k r).Over

/-- A host all of whose code hands on executables of a set as long as it is given such. -/
structure Host.Over (host : Host σ) : Prop where
  run : ∀ f site, site.Over P → (host.run f site).Over P Q
  makeContext : ∀ p f, (host.makeContext p f).Over P Q
  outermost : ∀ p f site, f.Over P → site.Over P → (host.outermost p f site).Over P Q
  observe : ∀ p c n, (host.observe p c n).Over P Q
  notify : ∀ l event c, (host.notify l event c).Over P Q
  resolve : ∀ controller domain s, Q s → Q (host.resolve controller domain s).2

/-! ## Stacks and configurations -/

/-- A task is over a set. Host code never deals with the ends of activations. -/
def Task.Over {α β : Kind} : Task σ α β → Prop
  | .program (α := α) (κ := κ) k =>
    α ≠ .exit ∧ κ ≠ .exit ∧ ∀ r, ResultOver P α r → (k r).Over P Q
  | .called a | .observed a => a.Sound P
  | .bracketBody body => ∀ c, (body c).Over P Q
  | _ => True

/-- The task on top takes the end of an activation, which may be that of a generator or not. -/
def Stack.Takes (isGenerator : Bool) : {α : Kind} → Stack σ α goal → Prop
  | _, .cons .callEnd _ => isGenerator = false
  | _, .cons (.bodyEnd _) _ => isGenerator = true
  | _, _ => False

/-- An activation that waits is above the task that takes its end. -/
def Task.Fits {α β : Kind} : Task σ α β → Stack σ β goal → Prop
  | .called a, s | .observed a, s => s.Takes a.isGenerator
  | _, _ => True

/-- Every task is over a set and fits the one beneath. -/
def Stack.Sound : {α : Kind} → Stack σ α goal → Prop
  | _, .nil => True
  | _, .cons t rest => t.Over P Q ∧ t.Fits rest ∧ rest.Sound

/-- A frame is handed out with a result. -/
def IsYield : (κ : Kind) → κ.Result → Prop
  | .exit, .ok (.yielded _ _) => True
  | _, _ => False

/-- What runs is over a set and fits the stack. -/
def State.Sound : State σ goal → Prop
  | .running (κ := κ) p s => κ ≠ .exit ∧ p.Over P Q ∧ s.Sound P Q
  | .calling f site s => f.Over P ∧ site.Over P ∧ s.Sound P Q
  | .counting a s | .executing a s => a.Sound P ∧ s.Takes a.isGenerator ∧ s.Sound P Q
  | .returning (κ := κ) r s => ResultOver P κ r ∧ (IsYield κ r → s.Takes true) ∧ s.Sound P Q
  | .panicking s => s.Sound P Q
  | .crashed => True

/-- All that a configuration holds is sound. -/
structure Config.Sound (X : Config σ goal) : Prop where
  store : X.store.Sound P Q
  state : X.state.Sound P Q

/-! ## What is made -/

/-- What a query about code makes. -/
def CodeQuery.Makes (host : Host σ) (thread : Id .thread) (m : Store σ) (e : Executable) :
    CodeQuery → Prop
  | .share _ => False
  | .create kind r domain => (m.createExecutable host thread kind r domain).1 = .ok e
  | .nested f index => f.nested? (m.fresh .executable).1 index = some e

/-- The next step makes an executable: host code has a script or a function created or a nested
one made, or an instruction makes a closure. -/
def Config.Makes (host : Host σ) (thread : Id .thread) (X : Config σ goal) (e : Executable) :
    Prop :=
  match X.state with
  | .running (.ask (.code q) _) _ => q.Makes host thread X.store e
  | .executing a _ => a.Makes X.store e
  | _ => False

variable {P Q}

/-! ## Queries -/

theorem Store.Sound.createExecutable {m : Store σ} (h : m.Sound P Q) {host : Host σ}
    (hhost : host.Over P Q) (thread : Id .thread) (kind : RoutineKind) (r : SharedRoutine)
    (domain : Option Payload) :
    (m.createExecutable host thread kind r domain).2.Sound P Q := by
  unfold Store.createExecutable
  split
  · exact h
  · split
    · exact h
    · split
      · exact h
      · split
        · next controller _ =>
          have hm : Store.Sound P Q { m with host := (host.resolve controller domain m.host).2 } :=
            { h with host := hhost.resolve controller domain m.host h.host }
          exact hm.fresh .executable
        · split
          · exact h
          · exact h.fresh .executable

theorem Store.Sound.requestCapture {m m' : Store σ} (h : m.Sound P Q) {c : Id .context}
    {p : Pending} (hp : m.requestCapture c = .ok (p, m')) : m'.Sound P Q := by
  unfold Store.requestCapture at hp
  dsimp only at hp
  split at hp
  · cases hp
  · split at hp
    · cases hp
    · split at hp
      · cases hp
      · cases hp
        exact { h with continuations := h.continuations.insert trivial }

theorem Store.Sound.newContext {m : Store σ} (h : m.Sound P Q) (f : Id .factory) :
    (m.newContext f).2.Sound P Q :=
  ⟨h.scopes, h.generators, h.continuations, h.resumptions, h.host⟩

theorem Store.Sound.plannedContext {m : Store σ} (h : m.Sound P Q) (f : Id .factory)
    (plan : ContextPlan) : (m.plannedContext f plan).2.Sound P Q :=
  ⟨h.scopes, h.generators, h.continuations, h.resumptions, h.host⟩

theorem GeneratorState.sound_default : (default : GeneratorState).Sound P := by
  rintro f ⟨⟩

theorem CaptureState.sound_default : (default : CaptureState).Sound P := by
  show CaptureState.Sound P .resumed
  trivial

theorem Value.over_add (v w : Value) (texts : FlatTexts) : ((v.add w) texts).1.Over P :=
  over_applyBinary .add v w texts

/-- A query keeps a store sound, and so is its reply. -/
theorem Store.Sound.ask {m : Store σ} (h : m.Sound P Q) {host : Host σ} (hhost : host.Over P Q)
    (thread : Id .thread) {q : Query σ} (hq : q.Over P Q)
    (hmake : ∀ c e, q = .code c → c.Makes host thread m e → P e) :
    q.ReplyOver P Q (q.perform host thread m).1 ∧ (q.perform host thread m).2.Sound P Q := by
  cases q with
  | scope q =>
    cases q with
    | create parent => exact ⟨trivial, h.setScopes (Scopes.over_create h.scopes parent)⟩
    | state s => exact ⟨Scopes.over_get h.scopes s, h⟩
    | find s name =>
      refine ⟨?_, h⟩
      show OptionOver P (m.scopes.find? s name)
      cases hv : m.scopes.find? s name with
      | none => trivial
      | some v => exact Scopes.over_find h.scopes hv
    | has s name => exact ⟨trivial, h⟩
    | put s name v => exact ⟨trivial, h.setScopes (Scopes.over_put h.scopes s name hq)⟩
    | define s name v => exact ⟨trivial, h.setScopes (Scopes.over_define h.scopes s name hq)⟩
    | delete s name =>
      obtain ⟨hv, hs⟩ := Scopes.over_delete h.scopes s name
      refine ⟨?_, h.setScopes hs⟩
      show OptionOver P (m.scopes.delete s name).1
      cases hd : (m.scopes.delete s name).1 with
      | none => trivial
      | some v => exact hv v hd
  | value q =>
    cases q with
    | add v w => exact ⟨Value.over_add v w m.texts, h.flattening _⟩
    | flatten v => exact ⟨Value.over_flatten hq m.texts, h.flattening _⟩
    | _ => exact ⟨trivial, h.flattening _⟩
  | context q =>
    cases q with
    | create f => exact ⟨trivial, h.newContext f⟩
    | setController c controller =>
      simp only [Query.perform, ContextQuery.perform]
      split
      · exact ⟨trivial, h⟩
      · exact ⟨trivial, h.modifyContext _ _⟩
    | requestCapture c =>
      simp only [Query.perform, ContextQuery.perform]
      split
      · next hp => exact ⟨trivial, h.requestCapture hp⟩
      · exact ⟨trivial, h⟩
    | state | current | hasFeature => exact ⟨trivial, h⟩
    | setVersion | setThreshold | setFrameLimit | setCountsGenerated | setExtension =>
      exact ⟨trivial, h.modifyContext _ _⟩
  | factory q =>
    exact ⟨trivial, h.scopes, h.generators, h.continuations, h.resumptions, h.host⟩
  | code q =>
    cases q with
    | share r => exact ⟨trivial, h.fresh .routine⟩
    | create kind r domain =>
      refine ⟨?_, h.createExecutable hhost thread kind r domain⟩
      have hmade := fun e => hmake (.create kind r domain) e rfl
      show Query.ReplyOver P Q (.code (.create kind r domain))
        (m.createExecutable host thread kind r domain).1
      cases he : (m.createExecutable host thread kind r domain).1 with
      | error f => trivial
      | ok e => exact hmade e he
    | nested f index =>
      have hmade := fun e => hmake (.nested f index) e rfl
      simp only [Query.perform, CodeQuery.perform]
      split
      · next e he => exact ⟨hmade e he, h.fresh .executable⟩
      · exact ⟨trivial, h.fresh .executable⟩
  | loader q =>
    exact ⟨trivial, h.scopes, h.generators, h.continuations, h.resumptions, h.host⟩
  | generator g => exact ⟨h.generators.get GeneratorState.sound_default g.id, h⟩
  | continuation k => exact ⟨h.continuations.get CaptureState.sound_default k, h⟩
  | inspect v => exact ⟨trivial, h⟩
  | newHostFunction name => exact ⟨trivial, h.fresh .hostFunction⟩
  | newPolicy | newListener | newController | newTree => exact ⟨trivial, h.fresh _⟩
  | host => exact ⟨h.host, h⟩
  | setHost s => exact ⟨trivial, { h with host := hq }⟩

/-! ## The beginnings of activities -/

theorem Stack.Sound.push {α β : Kind} {s : Stack σ β goal} (h : s.Sound P Q) {t : Task σ α β}
    (ht : t.Over P Q) (hfits : t.Fits s) : (Stack.cons t s).Sound P Q := ⟨ht, hfits, h⟩

theorem Stack.takes_callEnd (s : Stack σ .completion goal) :
    (Stack.cons .callEnd s).Takes false := rfl

theorem Stack.takes_bodyEnd (g : Generator) (s : Stack σ .step goal) :
    (Stack.cons (.bodyEnd g) s).Takes true := rfl

theorem Exit.Sound.resultOver {isGenerator : Bool} {e : Except Abrupt Exit}
    (h : Exit.Sound P isGenerator e) : ResultOver P .exit e := by
  rcases e with e | (v | ⟨v, f⟩)
  · exact h
  · exact h
  · exact h.2

theorem Exit.Sound.takes {isGenerator : Bool} {e : Except Abrupt Exit}
    (h : Exit.Sound P isGenerator e) {s : Stack σ .exit goal} (hs : s.Takes isGenerator) :
    IsYield .exit e → s.Takes true := by
  intro hy
  rcases e with e | (v | ⟨v, f⟩)
  · exact absurd hy id
  · exact absurd hy id
  · rw [h.1] at hs
    exact hs

namespace Config

variable {host : Host σ} {thread : Id .thread} {m : Store σ}

theorem sound_give {κ : Kind} {r : κ.Result} {s : Stack σ κ goal} (hm : m.Sound P Q)
    (hr : ResultOver P κ r) (hκ : κ ≠ .exit) (hs : s.Sound P Q) :
    (give m κ r s).Sound P Q := by
  refine ⟨hm, hr, ?_, hs⟩
  intro hy
  cases κ with
  | exit => exact absurd rfl hκ
  | _ => exact absurd hy id

theorem sound_failCall {e : Abrupt} {s : Stack σ .completion goal} (hm : m.Sound P Q)
    (he : e.Over P) (hs : s.Sound P Q) : (failCall m e s).Sound P Q :=
  sound_give hm he nofun hs

theorem sound_follow {a : Activation} {flow : Flow} {s : Stack σ .exit goal} (hm : m.Sound P Q)
    (hflow : flow.Sound P a.isGenerator) (ht : s.Takes a.isGenerator) (hs : s.Sound P Q)
    (c : Id .context) : (follow m c flow s).Sound P Q := by
  cases flow with
  | next b =>
    refine ⟨hm, hflow.1, ?_, hs⟩
    rw [hflow.2]
    exact ht
  | leave e =>
    exact ⟨hm.modifyContext _ _, Exit.Sound.resultOver hflow, Exit.Sound.takes hflow ht, hs⟩

theorem sound_execute {a : Activation} {s : Stack σ .exit goal} (hm : m.Sound P Q)
    (ha : a.Sound P) (ht : s.Takes a.isGenerator) (hs : s.Sound P Q)
    (hmake : ∀ e, a.Makes m e → P e) : (execute m a s).Sound P Q := by
  obtain ⟨hmove, hm'⟩ := ha.execute hm hmake
  unfold execute
  split
  · next heq =>
    rw [heq] at hmove hm'
    exact sound_follow hm' hmove ht hs _
  · next b f site m' heq =>
    rw [heq] at hmove hm'
    obtain ⟨hb, hgen, hf, hsite⟩ := hmove
    refine ⟨hm', hf, hsite, hs.push hb ?_⟩
    show s.Takes b.isGenerator
    rw [hgen]
    exact ht

theorem sound_beginActivation {frames : List Frame} {isGenerator : Bool}
    {s : Stack σ .exit goal} (hm : m.Sound P Q) (hframes : ∀ f ∈ frames, f.Sound P)
    (hfit : FramesFit isGenerator frames) (ht : s.Takes isGenerator) (hs : s.Sound P Q)
    (c : Id .context) : (beginActivation m c frames isGenerator s).Sound P Q :=
  ⟨hm.modifyContext _ _, ⟨hframes, hfit⟩, ht, hs⟩

variable {s : Stack σ .completion goal}

theorem sound_interpret {e : Executable} {site : CallSite} (hm : m.Sound P Q) (he : P e)
    (hsite : site.Over P) (hs : s.Sound P Q) : (interpret m e site s).Sound P Q := by
  have hframe : (Frame.enter e site.scope site.receiver site.args).Sound P :=
    Frame.sound_enter he hsite.1 hsite.2
  unfold interpret
  dsimp only
  split
  · next hgen => exact sound_give (hm.newGenerator hframe hgen) he nofun hs
  · next hgen =>
    have hfit : FramesFit false [Frame.enter e site.scope site.receiver site.args] :=
      Bool.eq_false_iff.mpr hgen
    refine sound_beginActivation hm ?_ hfit (Stack.takes_callEnd s)
      (hs.push (t := .callEnd) trivial trivial) _
    intro f hf
    rcases List.mem_singleton.mp hf with rfl
    exact hframe

theorem sound_beginOutermost (hhost : host.Over P Q) {f : Callable} {site : CallSite}
    (hm : m.Sound P Q) (hf : f.Over P) (hsite : site.Over P) (hs : s.Sound P Q)
    (isStrict : Bool) : (beginOutermost host m f site isStrict s).Sound P Q := by
  have hcleared : (Stack.cons (.clearTopCall site.context) s).Sound P Q := hs.push trivial trivial
  unfold beginOutermost
  split
  · exact sound_failCall hm trivial hs
  · dsimp only
    split
    · exact ⟨hm.modifyContext _ _, nofun, hhost.outermost _ _ _ hf hsite, hcleared⟩
    · exact ⟨hm.modifyContext _ _, hf, hsite, hcleared.push trivial trivial⟩
    · exact ⟨hm.modifyContext _ _, hf, hsite, hcleared.push trivial trivial⟩

theorem sound_beginCapturing (hhost : host.Over P Q) {f : Callable} {args : List Value}
    (hm : m.Sound P Q) (hf : f.Over P) (hargs : ∀ v ∈ args, v.Over P) (hs : s.Sound P Q)
    (c : Id .context) (scope : Id .scope) (isStrict : Bool) :
    (beginCapturing host m f c scope args isStrict s).Sound P Q :=
  have hsite : CallSite.Over P ⟨c, scope, .object scope, args⟩ := ⟨trivial, hargs⟩
  sound_beginOutermost hhost (hm.modifyContext _ _) hf hsite
    (hs.push (t := .restoreCaptures c (m.context c).acceptsCaptures) trivial trivial) isStrict

/-- What a finished generator answers. -/
theorem sound_ended {v : Value} {s : Stack σ .step goal} (hm : m.Sound P Q) (hv : v.Over P)
    (hs : s.Sound P Q) (op : GeneratorOp) :
    Config.Sound P Q (match op with
      | .next => give m .step (.ok ⟨.undefined, true⟩) s
      | .return => give m .step (.ok ⟨v, true⟩) s
      | .throw => give m .step (.error (.thrown v)) s : Config σ goal) := by
  cases op with
  | next => exact sound_give hm trivial nofun hs
  | «return» => exact sound_give hm hv nofun hs
  | throw => exact sound_give hm hv nofun hs

/-- The body of a generator goes on, or is left. -/
theorem sound_resumed {g : Generator} {s : Stack σ .step goal} (hm : m.Sound P Q)
    (hbody : (Stack.cons (.bodyEnd g) s).Sound P Q) (c : Id .context) :
    ∀ flow : Flow, flow.Sound P true → Config.Sound P Q (match flow with
      | .next a => beginActivation m c a.frames true (.cons (.bodyEnd g) s)
      | .leave e => give m .exit e (.cons (.bodyEnd g) s) : Config σ goal) := by
  intro flow hflow
  cases flow with
  | next b =>
    obtain ⟨hb, hbgen⟩ := hflow
    have hfit := hb.fit
    rw [hbgen] at hfit
    exact sound_beginActivation hm hb.frames hfit (Stack.takes_bodyEnd g s) hbody c
  | leave e => exact ⟨hm, Exit.Sound.resultOver hflow, fun _ => rfl, hbody⟩

theorem sound_beginStep {g : Generator} {op : GeneratorOp} {v : Value} {s : Stack σ .step goal}
    (hm : m.Sound P Q) (hv : v.Over P) (hs : s.Sound P Q) (c : Id .context) :
    (beginStep m g op c v s).Sound P Q := by
  have hstate : (m.generators.get g.id).Sound P := hm.generators.get GeneratorState.sound_default _
  have hended (m' : Store σ) (hm' : m'.Sound P Q) := sound_ended hm' hv hs op
  have hbody : (Stack.cons (.bodyEnd g) s).Sound P Q := hs.push trivial trivial
  unfold beginStep
  dsimp only
  split
  · exact hended m hm
  · split
    · exact sound_give hm trivial nofun hs
    · next frame hframe =>
      obtain ⟨hsound, hgen⟩ := hstate frame hframe
      have hrunning : Store.Sound P Q { m with
          generators := m.generators.set g.id { frame := none, started := true } } :=
        hm.setGenerator _ (s := { frame := none, started := true }) (by rintro f ⟨⟩)
      let a : Activation :=
        { context := c, frames := [frame], limit := (m.context c).frameLimit, isGenerator := true }
      have ha : a.Sound P := by
        refine ⟨?_, hgen⟩
        intro f hf
        rcases List.mem_singleton.mp hf with rfl
        exact hsound
      have hgo := sound_resumed hrunning hbody c
      split
      · cases op with
        | next =>
          exact hgo (.next { a with frames := [frame.push v] })
            ⟨ha.replace rfl (hsound.push hv) rfl, rfl⟩
        | throw => exact hgo (a.throw v) (ha.throw hv)
        | «return» => exact hgo (a.returnValue v) (ha.returnValue hv)
      · cases op with
        | next => exact hgo (.next a) ⟨ha, rfl⟩
        | throw =>
          exact hended _ (hm.setGenerator _
            (s := { frame := none, started := true, finished := true }) (by rintro f ⟨⟩))
        | «return» =>
          exact hended _ (hm.setGenerator _
            (s := { frame := none, started := true, finished := true }) (by rintro f ⟨⟩))

theorem sound_beginResumption (hhost : host.Over P Q) {via : Executable} {g : Generator}
    {op : GeneratorOp} {v : Value} {s : Stack σ .step goal} (hm : m.Sound P Q) (hg : P g.body)
    (hv : v.Over P) (hs : s.Sound P Q) (c : Id .context) (scope : Id .scope) :
    (beginResumption host m via g op c scope v s).Sound P Q := by
  unfold beginResumption
  split
  · exact sound_give hm trivial nofun hs
  · split
    · exact sound_beginStep hm hv hs c
    · have hm' : Store.Sound P Q { m with
          resumptions := (m.resumptions.insert { value := some v }).2 } := by
        refine { hm with resumptions := hm.resumptions.insert ?_ }
        rintro w ⟨⟩
        exact hv
      have hf : Callable.Over P (.resumption m.resumptions.next g op) := hg
      have hsite : CallSite.Over P ⟨c, scope, .object scope, []⟩ := ⟨trivial, by simp⟩
      exact sound_beginOutermost hhost hm' hf hsite
        (hs.push (t := .reportStep m.resumptions.next) trivial trivial) _

theorem sound_beginContinuation {k : Id .continuation} {v : Value} (hm : m.Sound P Q)
    (hv : v.Over P) (hs : s.Sound P Q) (c : Id .context) :
    (beginContinuation m k v c s).Sound P Q := by
  have htaken : ∀ frames m', m.takeFrames k = .ok (frames, m') →
      (∀ f ∈ frames, f.Sound P) ∧ FramesFit false frames ∧ m'.Sound P Q := by
    intro frames m' htake
    have hk := hm.continuations.get CaptureState.sound_default k
    unfold Store.takeFrames at htake
    split at htake
    · next hcaptured =>
      rw [hcaptured] at hk
      cases htake
      exact ⟨hk.1, hk.2, hm.setContinuation k (s := .resumed) trivial⟩
    · cases htake
    · cases htake
  unfold beginContinuation
  split
  · exact sound_failCall hm trivial hs
  · next m' heq => exact absurd (htaken [] m' heq).2.1 id
  · next f callers m' heq =>
    obtain ⟨hall, hfit, hm'⟩ := htaken _ m' heq
    have hpushed : FramesFit false (f.push v :: callers) := hfit.replace rfl
    refine sound_beginActivation hm' ?_ hpushed (Stack.takes_callEnd s)
      (hs.push (t := .callEnd) trivial trivial) c
    intro x hx
    rcases List.mem_cons.mp hx with rfl | hx
    · exact (hall f (List.mem_cons_self ..)).push hv
    · exact hall x (List.mem_cons_of_mem f hx)

theorem sound_beginCall (hhost : host.Over P Q) {f : Callable} {site : CallSite}
    (hm : m.Sound P Q) (hf : f.Over P) (hsite : site.Over P) (hs : s.Sound P Q) :
    (beginCall host m f site s).Sound P Q := by
  cases f with
  | executable e =>
    simp only [beginCall]
    split
    · exact sound_interpret hm hf hsite hs
    · exact sound_beginOutermost hhost hm hf hsite hs _
  | hostFunction h => exact ⟨hm, nofun, hhost.run _ _ hsite, hs⟩
  | resumption r g op =>
    have hr : (m.resumptions.get r).Over P := by
      refine hm.resumptions.get ?_ r
      rintro v ⟨⟩
    have hvalue : ((m.resumptions.get r).value.getD .undefined).Over P := by
      cases hv : (m.resumptions.get r).value with
      | none => trivial
      | some v => exact hr v hv
    have hm' : Store.Sound P Q { m with
        resumptions := m.resumptions.modify r fun x => { x with value := none } } := by
      refine { hm with resumptions := hm.resumptions.modify r ?_ }
      rintro x - v ⟨⟩
    exact sound_beginStep hm' hvalue (hs.push (t := .recordStep r) trivial trivial) _
  | continuation k v => exact sound_beginContinuation hm hf hs _

/-! ## Bindings -/

theorem sound_beginMake (hhost : host.Over P Q) {s : Stack σ .made goal} (hm : m.Sound P Q)
    (hs : s.Sound P Q) (f : Id .factory) : (beginMake host m f s).Sound P Q := by
  unfold beginMake
  split
  · exact sound_give (hm.newContext f) trivial nofun hs
  · exact sound_give (hm.plannedContext f _) trivial nofun hs
  · exact ⟨hm, nofun, hhost.makeContext _ _, hs⟩

theorem sound_beginNotify {s : Stack σ .done goal} (hm : m.Sound P Q) (hs : s.Sound P Q)
    (event : ContextEvent) (c : Id .context) : (beginNotify m event c s).Sound P Q :=
  sound_give hm trivial nofun (hs.push (t := .notifying event c _) trivial trivial)

theorem sound_bindings (hm : m.Sound P Q) (bindings : List (Id .thread × Id .context)) :
    Store.Sound P Q { m with bindings } :=
  ⟨hm.scopes, hm.generators, hm.continuations, hm.resumptions, hm.host⟩

theorem sound_beginBind {s : Stack σ .entered goal} (hm : m.Sound P Q) (hs : s.Sound P Q)
    (c : Id .context) : (beginBind thread m c s).Sound P Q := by
  unfold beginBind
  split
  · exact sound_give hm trivial nofun hs
  · exact sound_beginNotify (sound_bindings (hm.modifyContext _ _) _)
      (hs.push (t := .entered c) trivial trivial) _ _

theorem sound_beginEnter (hhost : host.Over P Q) {s : Stack σ .entered goal} (hm : m.Sound P Q)
    (hs : s.Sound P Q) (f : Id .factory) (requested : Option (Id .context)) :
    (beginEnter host thread m f requested s).Sound P Q := by
  unfold beginEnter
  split
  · exact sound_give (hm.modifyContext _ _) trivial nofun hs
  · split
    · exact sound_beginBind hm hs _
    · exact sound_beginMake hhost hm (hs.push (t := .bindMade) trivial trivial) f

theorem sound_beginExit {s : Stack σ .left goal} (hm : m.Sound P Q) (hs : s.Sound P Q) :
    (beginExit thread m s).Sound P Q := by
  unfold beginExit
  split
  · exact sound_give hm trivial nofun hs
  · split
    · exact sound_give hm trivial nofun hs
    · exact sound_give (hm.modifyContext _ _) trivial nofun hs
    · exact sound_beginNotify (sound_bindings (hm.modifyContext _ _) _)
        (hs.push (t := .left) trivial trivial) _ _

/-! ## Actions, results and panics -/

theorem sound_beginCapturingCall (hhost : host.Over P Q) {e : Executable} {args : List Value}
    (hm : m.Sound P Q) (he : P e) (hargs : ∀ v ∈ args, v.Over P) (hs : s.Sound P Q)
    (c : Id .context) (scope : Id .scope) :
    (beginAction.beginCapturingCall host m e c scope args s).Sound P Q := by
  unfold beginAction.beginCapturingCall
  split
  · exact sound_failCall hm trivial hs
  · have hf : Callable.Over P (.executable e) := he
    exact sound_beginCapturing hhost hm hf hargs hs c scope _

theorem sound_beginAction (hhost : host.Over P Q) {a : Action} {s : Stack σ a.kind goal}
    (hm : m.Sound P Q) (ha : a.Over P) (hs : s.Sound P Q) :
    (beginAction host thread m a s).Sound P Q := by
  cases a with
  | call f site => exact ⟨hm, ha.1, ha.2, hs⟩
  | callOutermost f site isStrict => exact sound_beginOutermost hhost hm ha.1 ha.2 hs _
  | execute e c scope =>
    simp only [beginAction]
    split
    · exact sound_failCall hm trivial hs
    · exact ⟨hm, ha, ⟨trivial, by simp⟩, hs⟩
  | executeCapturing e c scope =>
    simp only [beginAction]
    split
    · exact sound_failCall hm trivial hs
    · exact sound_beginCapturingCall hhost hm ha (by simp) hs c scope
  | callCapturing e c scope args => exact sound_beginCapturingCall hhost hm ha.1 ha.2 hs c scope
  | resume k c scope v =>
    simp only [beginAction]
    split
    · exact sound_failCall hm trivial hs
    · split
      · exact sound_failCall hm trivial hs
      · have hf : Callable.Over P (.continuation k v) := ha
        exact sound_beginCapturing hhost hm hf (by simp) hs c scope _
  | step via g op c scope v => exact sound_beginResumption hhost hm ha.2.1 ha.2.2 hs c scope
  | enter f requested => exact sound_beginEnter hhost hm hs f requested
  | exit => exact sound_beginExit hm hs
  | makeContext f => exact sound_beginMake hhost hm hs f

theorem sound_endBody {g : Generator} {e : Except Abrupt Exit} {s : Stack σ .step goal}
    (hm : m.Sound P Q) (he : ResultOver P .exit e) (hs : s.Sound P Q) :
    (endBody m g e s).Sound P Q := by
  unfold endBody
  dsimp only
  split
  · next v f =>
    obtain ⟨hv, hf, hgen⟩ := he
    refine sound_give { hm with generators := hm.generators.modify g.id ?_ } hv nofun hs
    rintro x - f ⟨⟩
    exact ⟨hf, hgen⟩
  · next v =>
    have hm' : Store.Sound P Q { m with
        generators := m.generators.modify g.id fun state => { state with finished := true } } :=
      { hm with generators := hm.generators.modify g.id fun _ hx => hx }
    exact sound_give hm' he nofun hs
  · next e =>
    have hm' : Store.Sound P Q { m with
        generators := m.generators.modify g.id fun state => { state with finished := true } } :=
      { hm with generators := hm.generators.modify g.id fun _ hx => hx }
    exact sound_give hm' he nofun hs

theorem sound_take (hhost : host.Over P Q) {α β : Kind} {t : Task σ α β} {r : α.Result}
    {s : Stack σ β goal} (hm : m.Sound P Q) (hr : ResultOver P α r)
    (hy : IsYield α r → (Stack.cons t s).Takes true) (hs : (Stack.cons t s).Sound P Q) :
    (take host thread m t r s).Sound P Q := by
  obtain ⟨ht, hfits, hs⟩ := hs
  cases t with
  | program k => exact ⟨hm, ht.2.1, ht.2.2 r hr, hs⟩
  | clearTopCall c => exact sound_give (hm.modifyContext _ _) hr nofun hs
  | restoreCaptures c previous => exact sound_give (hm.modifyContext _ _) hr nofun hs
  | flattenResult =>
    cases r with
    | ok v => exact sound_give (hm.flattening _) (Value.over_flatten hr m.texts) nofun hs
    | error e => exact sound_failCall hm hr hs
  | called a =>
    cases r with
    | ok v => exact sound_follow hm (ht.deliver hr) hfits hs _
    | error e =>
      obtain ⟨hflow, hm'⟩ := ht.fail hr hm
      exact sound_follow hm' hflow hfits hs _
  | observed a =>
    cases r with
    | ok u => exact ⟨hm, ht, hfits, hs⟩
    | error reason =>
      have hleave : Flow.Sound P a.isGenerator (.leave (.error (.aborted reason))) := trivial
      exact sound_follow hm hleave hfits hs _
  | callEnd =>
    rcases r with e | (v | ⟨v, f⟩)
    · exact sound_failCall hm hr hs
    · exact sound_give hm hr nofun hs
    · exact absurd (hy trivial) (by rintro ⟨⟩)
  | bodyEnd g => exact sound_endBody hm hr hs
  | recordStep i =>
    cases r with
    | ok step =>
      refine sound_give { hm with resumptions := hm.resumptions.modify i ?_ } hr nofun hs
      intro x hx
      exact hx
    | error e => exact sound_failCall hm hr hs
  | reportStep i =>
    cases r with
    | ok v => exact sound_give hm hr nofun hs
    | error e => exact sound_give hm hr nofun hs
  | bindMade =>
    simp only [take]
    split
    · exact sound_give hm trivial nofun hs
    · exact sound_beginBind hm hs _
  | notifying event c rest =>
    cases rest with
    | nil => exact sound_give hm trivial nofun hs
    | cons l rest =>
      exact ⟨hm, nofun, hhost.notify _ _ _, hs.push (t := .notifying event c rest) trivial trivial⟩
  | entered c => exact sound_give hm trivial nofun hs
  | left => exact sound_give hm trivial nofun hs
  | bracketBody body =>
    cases r with
    | ok c => exact ⟨hm, nofun, ht c, hs.push (t := .release) trivial trivial⟩
    | error f => exact sound_give hm trivial nofun hs
  | release => exact sound_beginExit hm (hs.push (t := .released) trivial trivial)
  | released => exact sound_give hm trivial nofun hs
  | repanic => exact ⟨hm, hs⟩
  | guarded => exact sound_give hm trivial nofun hs

theorem sound_passPanic {α β : Kind} {t : Task σ α β} {s : Stack σ β goal} (hm : m.Sound P Q)
    (hs : (Stack.cons t s).Sound P Q) : (passPanic thread m t s).Sound P Q := by
  obtain ⟨-, -, hs⟩ := hs
  cases t with
  | clearTopCall | restoreCaptures | called | observed => exact ⟨hm.modifyContext _ _, hs⟩
  | release => exact sound_beginExit hm (hs.push (t := .repanic) trivial trivial)
  | repanic => exact ⟨hm, trivial⟩
  | guarded => exact sound_give hm trivial nofun hs
  | _ => exact ⟨hm, hs⟩

theorem kind_ne_exit (a : Action) : a.kind ≠ .exit := by
  cases a <;> nofun

theorem sound_runProgram (hhost : host.Over P Q) {κ : Kind} {p : Program σ κ}
    {s : Stack σ κ goal} (hm : m.Sound P Q) (hκ : κ ≠ .exit) (hp : p.Over P Q)
    (hs : s.Sound P Q)
    (hmake : ∀ e, Makes host thread (⟨m, .running p s⟩ : Config σ goal) e → P e) :
    (runProgram host thread m p s).Sound P Q := by
  cases p with
  | finish r => exact sound_give hm hp hκ hs
  | panic => exact ⟨hm, hs⟩
  | ask q k =>
    obtain ⟨hq, hk⟩ := hp
    have hmade : ∀ c e, q = .code c → c.Makes host thread m e → P e := by
      rintro c e rfl he
      exact hmake e he
    obtain ⟨hr, hm'⟩ := hm.ask hhost thread hq hmade
    exact ⟨hm', hκ, hk _ hr, hs⟩
  | act a k =>
    exact sound_beginAction hhost hm hp.1
      (hs.push (t := .program k) ⟨kind_ne_exit a, hκ, hp.2⟩ trivial)
  | bracket f body k =>
    have hprogram : (Stack.cons (.program (α := .left) k) s).Sound P Q :=
      ⟨⟨nofun, hκ, fun r _ => hp.2 r⟩, trivial, hs⟩
    exact sound_beginEnter hhost hm
      (hprogram.push (t := .bracketBody body) hp.1 trivial) f none
  | guard body k =>
    have hprogram : (Stack.cons (.program (α := .guarded) k) s).Sound P Q :=
      ⟨⟨nofun, hκ, fun r _ => hp.2 r⟩, trivial, hs⟩
    exact ⟨hm, nofun, hp.1, hprogram.push (t := .guarded) trivial trivial⟩

theorem sound_count (hhost : host.Over P Q) {a : Activation} {s : Stack σ .exit goal}
    (hm : m.Sound P Q) (ha : a.Sound P) (ht : s.Takes a.isGenerator) (hs : s.Sound P Q) :
    (count host m a s).Sound P Q := by
  unfold count
  dsimp only
  split
  · exact ⟨hm.modifyContext _ _, nofun, hhost.observe _ _ _, hs.push (t := .observed a) ha ht⟩
  · exact ⟨hm.modifyContext _ _, ha, ht, hs⟩

/-- A step keeps a configuration sound, if what it makes is in the set. -/
theorem Sound.step (hhost : host.Over P Q) {X : Config σ goal} (h : X.Sound P Q)
    (hmake : ∀ e, X.Makes host thread e → P e) : (X.step host thread).Sound P Q := by
  obtain ⟨m, state⟩ := X
  obtain ⟨hm, hstate⟩ := h
  cases state with
  | running p s => exact sound_runProgram hhost hm hstate.1 hstate.2.1 hstate.2.2 hmake
  | calling f site s => exact sound_beginCall hhost hm hstate.1 hstate.2.1 hstate.2.2
  | counting a s => exact sound_count hhost hm hstate.1 hstate.2.1 hstate.2.2
  | executing a s => exact sound_execute hm hstate.1 hstate.2.1 hstate.2.2 hmake
  | returning r s =>
    cases s with
    | nil => exact ⟨hm, hstate⟩
    | cons t s => exact sound_take hhost hm hstate.1 hstate.2.1 hstate.2.2
  | panicking s =>
    cases s with
    | nil => exact ⟨hm, hstate⟩
    | cons t s => exact sound_passPanic hm hstate
  | crashed => exact ⟨hm, hstate⟩

end Config

end ScriptMachine
