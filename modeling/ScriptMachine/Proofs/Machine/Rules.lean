import ScriptMachine.Proofs.Safety.Run
import ScriptMachine.Proofs.Threads.System

/-!
# Rules that frames keep

Frames come from calls, and after that an instruction, a value that was waited for or the end of
another call changes them, one at a time; in between they are held by an activation, a suspended
generator or a captured continuation. A `FrameRule` says what is asked of a frame that may execute
and what of one that waits for a value, and that the ways from the one to the other lead there.
What is left to show of a rule is that instructions keep it (`FrameRule.Allows`): then each step
of the machine keeps it everywhere (`Config.Obeys.step`).

Frames of generator functions are under no rule.
-/

namespace ScriptMachine

variable {σ : Type} {goal : Kind}

/-- What is asked of frames. -/
structure FrameRule where
  /-- Asked of a frame that may execute. -/
  ready : Frame → Prop
  /-- Asked of a frame that waits for a value. -/
  waiting : Frame → Prop
  /-- Asked of a frame that a thrown or a returned value leaves. -/
  left : Frame → Prop
  entered (e : Executable) (scope : Id .scope) (receiver : Value) (args : List Value) :
    ready (Frame.enter e scope receiver args)
  generator {f : Frame} (h : f.body.routine.isGenerator = true) : ready f ∧ waiting f
  resumed {f : Frame} (h : waiting f) (v : Value) : ready (f.push v)
  left_of_waiting {f : Frame} (h : waiting f) : left f
  thrown {f : Frame} (h : left f) (v : Value) (hgoes : (f.routeThrow v).1 = true) :
    ready (f.routeThrow v).2
  returned {f : Frame} (h : left f) (v : Value) (hgoes : (f.routeReturn v).1 = true) :
    ready (f.routeReturn v).2

namespace FrameRule

variable (R : FrameRule)

/-- The innermost frame may execute; the others wait for it. -/
def Ready : List Frame → Prop
  | [] => True
  | f :: callers => R.ready f ∧ ∀ g ∈ callers, R.waiting g

/-- All frames wait. -/
def Waits (frames : List Frame) : Prop := ∀ f ∈ frames, R.waiting f

/-- An instruction keeps the rule in a frame that has fetched it. -/
def Allows (m : Store σ) (f : Frame) : Instruction → Prop
  | .call count => R.waiting (f.popMany count.toNat).2.pop.2.pop.2
  | .ret | .throw => R.left f.pop.2
  | .yield => R.left f
  | .endFinally => R.ready f.endCleanup.2 ∧ R.left f.endCleanup.2
  | i => R.left (f.perform i m).2.1 ∧ ((f.perform i m).1 = .ok () → R.ready (f.perform i m).2.1)

theorem Ready.mono {R R' : FrameRule} (hready : ∀ f, R.ready f → R'.ready f)
    (hwaiting : ∀ f, R.waiting f → R'.waiting f) {frames : List Frame} (h : R.Ready frames) :
    R'.Ready frames := by
  cases frames with
  | nil => trivial
  | cons f callers => exact ⟨hready f h.1, fun g hg => hwaiting g (h.2 g hg)⟩

theorem allows_iff_of_isOwn {m : Store σ} {f : Frame} {i : Instruction} (h : i.isOwn = true) :
    R.Allows m f i ↔
      R.left (f.perform i m).2.1 ∧ ((f.perform i m).1 = .ok () → R.ready (f.perform i m).2.1) := by
  cases i <;> first | exact Iff.rfl | cases h

end FrameRule

variable {R : FrameRule}

/-! ## Activations -/

/-- The frames of an activation that goes on keep the rule. -/
def Flow.Obeys (R : FrameRule) : Flow → Prop
  | .next a => R.Ready a.frames
  | .leave _ => True

/-- The frames of an activation that goes on or waits keep the rule. -/
def Move.Obeys (R : FrameRule) : Move → Prop
  | .flow f => f.Obeys R
  | .call a _ _ => R.Waits a.frames

namespace Activation

variable {a : Activation} {f : Frame} {callers : List Frame} {m : Store σ}

/-- The frames beneath a frame that is left wait, up to the one that goes on. -/
theorem ready_unwind (hf : R.left f) (hcallers : R.Waits callers) (v : Value) :
    R.Ready (unwind v (f :: callers)) := by
  -- a frame beneath has waited until now, so the value leaves it as one that waits
  induction callers generalizing f with
  | nil =>
    have hthrown := R.thrown hf v
    unfold unwind
    split
    · next heq =>
      rw [heq] at hthrown
      exact ⟨hthrown rfl, hcallers⟩
    · trivial
  | cons g rest ih =>
    obtain ⟨hg, hrest⟩ := List.forall_mem_cons.mp hcallers
    have hthrown := R.thrown hf v
    unfold unwind
    split
    · next heq =>
      rw [heq] at hthrown
      exact ⟨hthrown rfl, hcallers⟩
    · exact ih (R.left_of_waiting hg) hrest

theorem obeys_throw (hframes : a.frames = f :: callers) (hf : R.left f)
    (hcallers : R.Waits callers) (v : Value) : (a.throw v).Obeys R := by
  have hready := ready_unwind hf hcallers v
  rw [← hframes] at hready
  unfold throw
  split
  · trivial
  · exact hready

theorem obeys_complete (hcallers : R.Waits callers) (v : Value) :
    (a.complete callers v).Obeys R := by
  unfold complete
  split
  · trivial
  · next caller rest =>
    obtain ⟨hcaller, hrest⟩ := List.forall_mem_cons.mp hcallers
    exact ⟨R.resumed hcaller v, hrest⟩

theorem obeys_returnValue (hframes : a.frames = f :: callers) (hf : R.left f)
    (hcallers : R.Waits callers) (v : Value) : (a.returnValue v).Obeys R := by
  have hreturned := R.returned hf v
  unfold returnValue
  rw [hframes]
  dsimp only
  split
  · next heq =>
    rw [heq] at hreturned
    exact ⟨hreturned rfl, hcallers⟩
  · exact obeys_complete hcallers v

theorem obeys_deliver (h : R.Waits a.frames) (v : Value) : (a.deliver v).Obeys R := by
  unfold deliver
  split
  · trivial
  · next f callers hframes =>
    rw [hframes] at h
    obtain ⟨hf, hcallers⟩ := List.forall_mem_cons.mp h
    exact ⟨R.resumed hf v, hcallers⟩

theorem obeys_fail (hframes : a.frames = f :: callers) (hf : R.left f)
    (hcallers : R.Waits callers) (e : Abrupt) (m : Store σ) : (a.fail e m).1.Obeys R := by
  cases e with
  | thrown v => exact obeys_throw hframes hf hcallers v
  | suspended p =>
    simp only [fail, capture]
    split
    · trivial
    · split <;> trivial
  | aborted | fault => trivial

theorem obeys_call (hf : R.waiting (f.popMany count).2.pop.2.pop.2) (hcallers : R.Waits callers) :
    (a.call f callers count m).1.Obeys R := by
  have hwaits : R.Waits ((f.popMany count).2.pop.2.pop.2 :: callers) :=
    List.forall_mem_cons.mpr ⟨hf, hcallers⟩
  unfold call
  dsimp only
  split
  · split
    · exact hwaits
    · split
      · trivial
      · exact ⟨R.entered .., hwaits⟩
  · exact hwaits
  · exact obeys_fail rfl (R.left_of_waiting hf) hcallers _ _

theorem obeys_perform {i : Instruction} (hallows : R.Allows m f i) (hcallers : R.Waits callers) :
    (a.perform f callers i m).1.Obeys R := by
  unfold perform
  -- calls, returns, yields, ends of cleanups and throws by themselves, all others at once
  split
  · exact obeys_call hallows hcallers
  · exact obeys_returnValue rfl hallows hcallers _
  · dsimp only
    split
    · exact obeys_fail rfl hallows hcallers _ _
    · trivial
  · obtain ⟨hready, hleft⟩ := hallows
    dsimp only
    split
    · next heq =>
      rw [heq] at hready
      exact ⟨hready, hcallers⟩
    · next heq =>
      rw [heq] at hleft
      exact obeys_throw rfl hleft hcallers _
    · next heq =>
      rw [heq] at hleft
      exact obeys_returnValue rfl hleft hcallers _
  · exact obeys_throw rfl hallows hcallers _
  · next hcall hret hyield hend hthrow =>
    have hown : i.isOwn = true := by
      cases i with
      | call count => exact absurd rfl (hcall count)
      | ret => exact absurd rfl hret
      | yield => exact absurd rfl hyield
      | endFinally => exact absurd rfl hend
      | throw => exact absurd rfl hthrow
      | _ => rfl
    obtain ⟨hleft, hready⟩ := (R.allows_iff_of_isOwn hown).mp hallows
    dsimp only
    split
    · next heq =>
      rw [heq] at hready
      exact ⟨hready rfl, hcallers⟩
    · next heq =>
      rw [heq] at hleft
      exact obeys_fail rfl hleft hcallers _ _

theorem obeys_execute (h : R.Ready a.frames)
    (hallows : ∀ f callers i g, a.frames = f :: callers → f.fetch? = some (i, g) →
      R.Allows m g i) : (a.execute m).1.Obeys R := by
  unfold execute
  split
  · trivial
  · next f callers hframes =>
    rw [hframes] at h
    split
    · exact obeys_complete h.2 _
    · next i g hfetch => exact obeys_perform (hallows f callers i g hframes hfetch) h.2

end Activation

/-! ## Configurations -/

/-- Captured frames wait for the value that they are resumed with. -/
def CaptureState.Obeys (R : FrameRule) (s : CaptureState) : Prop := R.Waits s.frames

/-- The frames that a store holds keep the rule. -/
def Store.Obeys (R : FrameRule) (m : Store σ) : Prop := m.continuations.All (CaptureState.Obeys R)

/-- The frames of an activation that waits keep the rule: they all wait while something else is
called, but the innermost may execute once the observer is done. -/
def Task.Obeys (R : FrameRule) {α β : Kind} : Task σ α β → Prop
  | .called a => R.Waits a.frames
  | .observed a => R.Ready a.frames
  | _ => True

/-- The frames of all activations that wait on a stack keep the rule. -/
def Stack.Obeys (R : FrameRule) : {α : Kind} → Stack σ α goal → Prop
  | _, .nil => True
  | _, .cons t rest => t.Obeys R ∧ rest.Obeys R

/-- The frames of all activations keep the rule. -/
def State.Obeys (R : FrameRule) : State σ goal → Prop
  | .counting a s | .executing a s => R.Ready a.frames ∧ s.Obeys R
  | .running _ s | .calling _ _ s | .returning _ s | .panicking s => s.Obeys R
  | .crashed => True

/-- All frames keep the rule. -/
structure Config.Obeys (R : FrameRule) (X : Config σ goal) : Prop where
  store : X.store.Obeys R
  state : X.state.Obeys R

/-- A task is on a stack. -/
inductive Stack.Holds {β γ : Kind} (t : Task σ β γ) : {α : Kind} → Stack σ α goal → Prop
  | top (rest : Stack σ γ goal) : Holds t (.cons t rest)
  | beneath {α δ : Kind} (u : Task σ α δ) {rest : Stack σ δ goal} (h : Holds t rest) :
      Holds t (.cons u rest)

/-- A task waits. -/
def State.Holds {β γ : Kind} (t : Task σ β γ) : State σ goal → Prop
  | .counting _ s | .executing _ s => s.Holds t
  | .running _ s | .calling _ _ s | .returning _ s | .panicking s => s.Holds t
  | .crashed => False

/-- An activation is about to execute an instruction, once it is counted and observed. -/
inductive State.Executes (a : Activation) : State σ goal → Prop
  | counting (s : Stack σ .exit goal) : Executes a (.counting a s)
  | executing (s : Stack σ .exit goal) : Executes a (.executing a s)
  | observed {state : State σ goal} (h : state.Holds (.observed a)) : Executes a state

/-- An activation waits for what it called. -/
def State.Awaits (a : Activation) (state : State σ goal) : Prop := state.Holds (.called a)

theorem Stack.Obeys.task {α β γ : Kind} {s : Stack σ α goal} {t : Task σ β γ} (h : s.Obeys R)
    (ht : s.Holds t) : t.Obeys R := by
  induction ht with
  | top rest => exact h.1
  | beneath u ht ih => exact ih h.2

theorem State.Obeys.task {β γ : Kind} {state : State σ goal} {t : Task σ β γ}
    (h : state.Obeys R) (ht : state.Holds t) : t.Obeys R := by
  cases state with
  | counting a s => exact h.2.task ht
  | executing a s => exact h.2.task ht
  | running p s => exact Stack.Obeys.task h ht
  | calling f site s => exact Stack.Obeys.task h ht
  | returning x s => exact Stack.Obeys.task h ht
  | panicking s => exact Stack.Obeys.task h ht
  | crashed => exact absurd ht id

theorem State.Obeys.ready {state : State σ goal} {a : Activation} (h : state.Obeys R)
    (ha : state.Executes a) : R.Ready a.frames := by
  cases ha with
  | counting s => exact h.1
  | executing s => exact h.1
  | observed ha => exact h.task ha

theorem State.Obeys.waits {state : State σ goal} {a : Activation} (h : state.Obeys R)
    (ha : state.Awaits a) : R.Waits a.frames :=
  h.task ha

theorem Stack.obeys_of_forall {α : Kind} {s : Stack σ α goal}
    (h : ∀ a, s.Waits a → R.Ready a.frames ∧ R.Waits a.frames) : s.Obeys R := by
  induction s with
  | nil => trivial
  | cons t rest ih =>
    refine ⟨?_, ih fun a ha => h a (.inr ha)⟩
    cases t with
    | called a => exact (h a (.inl rfl)).2
    | observed a => exact (h a (.inl rfl)).1
    | _ => trivial

/-- A configuration obeys a rule that all frames that it holds obey, whether they wait or not. -/
theorem Config.obeys_of_forall {X : Config σ goal}
    (h : ∀ f, X.HasFrame f → R.ready f ∧ R.waiting f) : X.Obeys R := by
  have hactivation : ∀ a, X.state.HasActivation a → R.Ready a.frames ∧ R.Waits a.frames := by
    intro a ha
    have hheld : ∀ f ∈ a.frames, R.ready f ∧ R.waiting f := fun f hf => h f (.activation a ha hf)
    refine ⟨?_, fun f hf => (hheld f hf).2⟩
    cases hframes : a.frames with
    | nil => trivial
    | cons f callers =>
      rw [hframes] at hheld
      obtain ⟨hf, hcallers⟩ := List.forall_mem_cons.mp hheld
      exact ⟨hf.1, fun g hg => (hcallers g hg).2⟩
  obtain ⟨m, state⟩ := X
  refine ⟨?_, ?_⟩
  · intro k state hk f hf
    cases state with
    | captured frames => exact (h f (.continuation k frames hk hf)).2
    | pending | resumed => cases hf
  · cases state with
    | counting a s =>
      exact ⟨(hactivation a (.inl rfl)).1,
        Stack.obeys_of_forall fun b hb => hactivation b (.inr hb)⟩
    | executing a s =>
      exact ⟨(hactivation a (.inl rfl)).1,
        Stack.obeys_of_forall fun b hb => hactivation b (.inr hb)⟩
    | running p s => exact Stack.obeys_of_forall (s := s) hactivation
    | calling f site s => exact Stack.obeys_of_forall (s := s) hactivation
    | returning x s => exact Stack.obeys_of_forall (s := s) hactivation
    | panicking s => exact Stack.obeys_of_forall (s := s) hactivation
    | crashed => trivial

theorem Stack.Obeys.mono {R' : FrameRule} (hready : ∀ f, R.ready f → R'.ready f)
    (hwaiting : ∀ f, R.waiting f → R'.waiting f) {α : Kind} {s : Stack σ α goal}
    (h : s.Obeys R) : s.Obeys R' := by
  induction s with
  | nil => trivial
  | cons t rest ih =>
    refine ⟨?_, ih h.2⟩
    cases t with
    | called a => exact fun f hf => hwaiting f (h.1 f hf)
    | observed a => exact h.1.mono hready hwaiting
    | _ => trivial

/-- What keeps a rule keeps one that asks for less. -/
theorem Config.Obeys.mono {R' : FrameRule} (hready : ∀ f, R.ready f → R'.ready f)
    (hwaiting : ∀ f, R.waiting f → R'.waiting f) {X : Config σ goal} (h : X.Obeys R) :
    X.Obeys R' := by
  obtain ⟨m, state⟩ := X
  obtain ⟨hm, hstate⟩ := h
  refine ⟨fun k s hs f hf => hwaiting f (hm k s hs f hf), ?_⟩
  cases state with
  | counting a s => exact ⟨hstate.1.mono hready hwaiting, hstate.2.mono hready hwaiting⟩
  | executing a s => exact ⟨hstate.1.mono hready hwaiting, hstate.2.mono hready hwaiting⟩
  | running p s => exact Stack.Obeys.mono hready hwaiting hstate
  | calling f site s => exact Stack.Obeys.mono hready hwaiting hstate
  | returning x s => exact Stack.Obeys.mono hready hwaiting hstate
  | panicking s => exact Stack.Obeys.mono hready hwaiting hstate
  | crashed => trivial

/-- Suspended generators have frames of generator functions. -/
def Store.HasGenerators (m : Store σ) : Prop :=
  ∀ g f, (m.generators.get g).frame = some f → f.body.routine.isGenerator = true

theorem Store.Sound.hasGenerators {P : Executable → Prop} {Q : σ → Prop} {m : Store σ}
    (h : m.Sound P Q) : m.HasGenerators :=
  fun g f hf => (h.generators.get GeneratorState.sound_default g f hf).2

theorem Store.obeys_initial (state : σ) : (Store.initial state).Obeys R := by
  intro k s hs
  simp [Store.initial, Table.get?] at hs

theorem FrameRule.waits_nil (R : FrameRule) : R.Waits [] := List.forall_mem_nil _

theorem CaptureState.obeys_default : (default : CaptureState).Obeys R := R.waits_nil

/-- An activation whose frames all wait keeps the rule when its callee fails. -/
theorem Activation.obeys_fail_of_waits {a : Activation} (h : R.Waits a.frames) (e : Abrupt)
    (m : Store σ) : (a.fail e m).1.Obeys R := by
  cases hframes : a.frames with
  | nil =>
    have hthrow (v : Value) : a.throw v = .leave (.error (.thrown v)) := by
      rw [throw, hframes, unwind]
    cases e with
    | thrown v =>
      rw [fail, hthrow]
      trivial
    | suspended p =>
      simp only [fail, capture]
      split
      · trivial
      · split <;> trivial
    | aborted | fault => trivial
  | cons f callers =>
    have hwaits : R.Waits (f :: callers) := hframes ▸ h
    obtain ⟨hf, hcallers⟩ := List.forall_mem_cons.mp hwaits
    exact obeys_fail hframes (R.left_of_waiting hf) hcallers e m

/-- Dealing with an abrupt end keeps the rule in the store: what is captured waits. -/
theorem Activation.obeys_captured {a : Activation} {m : Store σ} (h : R.Waits a.frames)
    (hm : m.Obeys R) (e : Abrupt) : (a.fail e m).2.Obeys R := by
  cases e with
  | suspended p =>
    simp only [fail, capture]
    split
    · exact hm
    · split
      · exact hm
      · dsimp only
        split
        · exact hm
        · exact Table.All.set hm _ h
  | thrown | aborted | fault => exact hm

/-- The frame of a generator is under no rule wherever its end leads. -/
theorem Activation.obeys_of_generator {a : Activation} {f : Frame} (hframes : a.frames = [f])
    (hf : f.body.routine.isGenerator = true) (v : Value) :
    (a.throw v).Obeys R ∧ (a.returnValue v).Obeys R := by
  have hleft : R.left f := R.left_of_waiting (R.generator hf).2
  exact ⟨obeys_throw hframes hleft R.waits_nil v, obeys_returnValue hframes hleft R.waits_nil v⟩

namespace Config

variable {host : Host σ} {thread : Id .thread} {m : Store σ}

theorem obeys_follow {flow : Flow} {s : Stack σ .exit goal} (hm : m.Obeys R)
    (hflow : flow.Obeys R) (hs : s.Obeys R) (c : Id .context) : (follow m c flow s).Obeys R := by
  cases flow with
  | next a => exact ⟨hm, hflow, hs⟩
  | leave e => exact ⟨hm, hs⟩

theorem obeys_execute {a : Activation} {s : Stack σ .exit goal} (hm : m.Obeys R)
    (h : R.Ready a.frames) (hs : s.Obeys R)
    (hallows : ∀ f callers i g, a.frames = f :: callers → f.fetch? = some (i, g) →
      R.Allows m g i) : (execute m a s).Obeys R := by
  have hmove := Activation.obeys_execute h hallows
  have hcontinuations : (a.execute m).2.continuations = m.continuations := (a.execute_frame m).2
  unfold execute
  split
  · next flow m' heq =>
    rw [heq] at hmove hcontinuations
    have hm' : m'.Obeys R := by
      rw [Store.Obeys, hcontinuations]
      exact hm
    exact obeys_follow hm' hmove hs _
  · next b f site m' heq =>
    rw [heq] at hmove hcontinuations
    have hm' : m'.Obeys R := by
      rw [Store.Obeys, hcontinuations]
      exact hm
    exact ⟨hm', hmove, hs⟩

theorem obeys_interpret (hm : m.Obeys R) (e : Executable) (site : CallSite)
    {s : Stack σ .completion goal} (hs : s.Obeys R) : (interpret m e site s).Obeys R := by
  unfold interpret
  dsimp only
  split
  · exact ⟨hm, hs⟩
  · exact ⟨hm, ⟨R.entered .., R.waits_nil⟩, trivial, hs⟩

theorem obeys_beginOutermost (hm : m.Obeys R) (f : Callable) (site : CallSite) (isStrict : Bool)
    {s : Stack σ .completion goal} (hs : s.Obeys R) :
    (beginOutermost host m f site isStrict s).Obeys R := by
  unfold beginOutermost
  split
  · exact ⟨hm, hs⟩
  · dsimp only
    split
    · exact ⟨hm, trivial, hs⟩
    · exact ⟨hm, trivial, trivial, hs⟩
    · exact ⟨hm, trivial, trivial, hs⟩

theorem obeys_beginCapturing (hm : m.Obeys R) (f : Callable) (c : Id .context)
    (scope : Id .scope) (args : List Value) (isStrict : Bool) {s : Stack σ .completion goal}
    (hs : s.Obeys R) : (beginCapturing host m f c scope args isStrict s).Obeys R :=
  obeys_beginOutermost (m := m.modifyContext c _) hm f _ isStrict ⟨trivial, hs⟩

theorem obeys_beginStep (hm : m.Obeys R) (hgenerators : m.HasGenerators) (g : Generator)
    (op : GeneratorOp) (c : Id .context) (v : Value) {s : Stack σ .step goal} (hs : s.Obeys R) :
    (beginStep m g op c v s).Obeys R := by
  unfold beginStep
  dsimp only
  split
  · cases op <;> exact ⟨hm, hs⟩
  · split
    · exact ⟨hm, hs⟩
    · next frame hframe =>
      have hgenerator := hgenerators g.id frame hframe
      obtain ⟨hready, hwaiting⟩ := R.generator hgenerator
      have hends := Activation.obeys_of_generator (R := R)
        (a := ⟨c, [frame], (m.context c).frameLimit, true⟩) rfl hgenerator v
      split
      · cases op with
        | next => exact ⟨hm, ⟨R.resumed hwaiting v, R.waits_nil⟩, trivial, hs⟩
        | throw =>
          dsimp only
          split
          · next heq =>
            have hflow := hends.1
            rw [heq] at hflow
            exact ⟨hm, hflow, trivial, hs⟩
          · exact ⟨hm, trivial, hs⟩
        | «return» =>
          dsimp only
          split
          · next heq =>
            have hflow := hends.2
            rw [heq] at hflow
            exact ⟨hm, hflow, trivial, hs⟩
          · exact ⟨hm, trivial, hs⟩
      · cases op with
        | next => exact ⟨hm, ⟨hready, R.waits_nil⟩, trivial, hs⟩
        | throw | «return» => exact ⟨hm, hs⟩

theorem obeys_beginResumption (hm : m.Obeys R) (hgenerators : m.HasGenerators) (via : Executable)
    (g : Generator) (op : GeneratorOp) (c : Id .context) (scope : Id .scope) (v : Value)
    {s : Stack σ .step goal} (hs : s.Obeys R) :
    (beginResumption host m via g op c scope v s).Obeys R := by
  unfold beginResumption
  split
  · exact ⟨hm, hs⟩
  · split
    · exact obeys_beginStep hm hgenerators g op c v hs
    · apply obeys_beginOutermost
      · exact hm
      · exact ⟨trivial, hs⟩

theorem obeys_beginContinuation (hm : m.Obeys R) (k : Id .continuation) (v : Value)
    (c : Id .context) {s : Stack σ .completion goal} (hs : s.Obeys R) :
    (beginContinuation m k v c s).Obeys R := by
  have htaken {frames : List Frame} {m' : Store σ} (htake : m.takeFrames k = .ok (frames, m')) :
      R.Waits frames ∧ m'.Obeys R := by
    have hk := hm.get CaptureState.obeys_default k
    unfold Store.takeFrames at htake
    split at htake
    · next heq =>
      rw [heq] at hk
      cases htake
      exact ⟨hk, Table.All.set hm _ R.waits_nil⟩
    · cases htake
    · cases htake
  unfold beginContinuation
  split
  · exact ⟨hm, hs⟩
  · next htake => exact ⟨(htaken htake).2, hs⟩
  · next frame callers m' htake =>
    obtain ⟨hwaits, hm'⟩ := htaken htake
    obtain ⟨hframe, hcallers⟩ := List.forall_mem_cons.mp hwaits
    exact ⟨hm', ⟨R.resumed hframe v, hcallers⟩, trivial, hs⟩

theorem obeys_beginCall (hm : m.Obeys R) (hgenerators : m.HasGenerators) (f : Callable)
    (site : CallSite) {s : Stack σ .completion goal} (hs : s.Obeys R) :
    (beginCall host m f site s).Obeys R := by
  cases f with
  | executable e =>
    simp only [beginCall]
    split
    · exact obeys_interpret hm e site hs
    · exact obeys_beginOutermost hm _ site _ hs
  | hostFunction f => exact ⟨hm, hs⟩
  | resumption r g op =>
    simp only [beginCall]
    apply obeys_beginStep
    · exact hm
    · exact hgenerators
    · exact ⟨trivial, hs⟩
  | continuation k v => exact obeys_beginContinuation hm k v site.context hs

theorem obeys_beginMake (hm : m.Obeys R) (f : Id .factory) {s : Stack σ .made goal}
    (hs : s.Obeys R) : (beginMake host m f s).Obeys R := by
  unfold beginMake
  split <;> exact ⟨hm, hs⟩

theorem obeys_beginBind (hm : m.Obeys R) (c : Id .context) {s : Stack σ .entered goal}
    (hs : s.Obeys R) : (beginBind thread m c s).Obeys R := by
  unfold beginBind
  split
  · exact ⟨hm, hs⟩
  · exact ⟨hm, trivial, trivial, hs⟩

theorem obeys_beginEnter (hm : m.Obeys R) (f : Id .factory) (requested : Option (Id .context))
    {s : Stack σ .entered goal} (hs : s.Obeys R) :
    (beginEnter host thread m f requested s).Obeys R := by
  unfold beginEnter
  split
  · exact ⟨hm, hs⟩
  · split
    · exact obeys_beginBind hm _ hs
    · exact obeys_beginMake hm f ⟨trivial, hs⟩

theorem obeys_beginExit (hm : m.Obeys R) {s : Stack σ .left goal} (hs : s.Obeys R) :
    (beginExit thread m s).Obeys R := by
  unfold beginExit
  split
  · exact ⟨hm, hs⟩
  · split
    · exact ⟨hm, hs⟩
    · exact ⟨hm, hs⟩
    · exact ⟨hm, trivial, trivial, hs⟩

theorem obeys_beginCapturingCall (hm : m.Obeys R) (e : Executable) (c : Id .context)
    (scope : Id .scope) (args : List Value) {s : Stack σ .completion goal} (hs : s.Obeys R) :
    (beginAction.beginCapturingCall host m e c scope args s).Obeys R := by
  unfold beginAction.beginCapturingCall
  split
  · exact ⟨hm, hs⟩
  · exact obeys_beginCapturing hm _ _ _ _ _ hs

theorem obeys_beginAction (hm : m.Obeys R) (hgenerators : m.HasGenerators) (action : Action)
    {s : Stack σ action.kind goal} (hs : s.Obeys R) :
    (beginAction host thread m action s).Obeys R := by
  cases action with
  | call f site => exact ⟨hm, hs⟩
  | callOutermost f site isStrict => exact obeys_beginOutermost hm _ _ _ hs
  | execute e c scope =>
    simp only [beginAction]
    split <;> exact ⟨hm, hs⟩
  | executeCapturing e c scope =>
    simp only [beginAction]
    split
    · exact ⟨hm, hs⟩
    · exact obeys_beginCapturingCall hm _ _ _ _ hs
  | callCapturing e c scope args => exact obeys_beginCapturingCall hm _ _ _ _ hs
  | resume k c scope v =>
    simp only [beginAction]
    split
    · exact ⟨hm, hs⟩
    · split
      · exact ⟨hm, hs⟩
      · exact obeys_beginCapturing hm _ _ _ _ _ hs
  | step via g op c scope v => exact obeys_beginResumption hm hgenerators via g op c scope v hs
  | enter f requested => exact obeys_beginEnter hm f requested hs
  | exit => exact obeys_beginExit hm hs
  | makeContext f => exact obeys_beginMake hm f hs

theorem obeys_endBody (hm : m.Obeys R) (g : Generator) (e : Except Abrupt Exit)
    {s : Stack σ .step goal} (hs : s.Obeys R) : (endBody m g e s).Obeys R := by
  unfold endBody
  dsimp only
  split <;> exact ⟨hm, hs⟩

/-- A task that takes a result keeps the rule: an activation that waited gets the value. -/
theorem obeys_take {α β : Kind} (hm : m.Obeys R) {t : Task σ α β} (ht : t.Obeys R) (x : α.Result)
    {s : Stack σ β goal} (hs : s.Obeys R) : (take host thread m t x s).Obeys R := by
  cases t with
  | called a =>
    cases x with
    | ok v => exact obeys_follow hm (Activation.obeys_deliver ht v) hs _
    | error e =>
      exact obeys_follow (Activation.obeys_captured ht hm e)
        (Activation.obeys_fail_of_waits ht e m) hs _
  | observed a =>
    cases x with
    | ok u => exact ⟨hm, ht, hs⟩
    | error reason => exact ⟨hm, hs⟩
  | flattenResult | recordStep | reportStep => cases x <;> exact ⟨hm, hs⟩
  | bracketBody body =>
    cases x with
    | ok c => exact ⟨hm, trivial, hs⟩
    | error f => exact ⟨hm, hs⟩
  | callEnd =>
    cases x with
    | ok exit => cases exit <;> exact ⟨hm, hs⟩
    | error e => exact ⟨hm, hs⟩
  | bodyEnd g => exact obeys_endBody hm g x hs
  | bindMade =>
    simp only [take]
    split
    · exact ⟨hm, hs⟩
    · exact obeys_beginBind hm _ hs
  | notifying event c rest =>
    cases rest with
    | nil => exact ⟨hm, hs⟩
    | cons l rest => exact ⟨hm, trivial, hs⟩
  | release => exact obeys_beginExit hm ⟨trivial, hs⟩
  | clearTopCall | restoreCaptures | program | entered | left | released | repanic | guarded =>
    exact ⟨hm, hs⟩

theorem obeys_passPanic {α β : Kind} (hm : m.Obeys R) (t : Task σ α β) {s : Stack σ β goal}
    (hs : s.Obeys R) : (passPanic thread m t s).Obeys R := by
  cases t with
  | release => exact obeys_beginExit hm ⟨trivial, hs⟩
  | repanic => exact ⟨hm, trivial⟩
  | _ => exact ⟨hm, hs⟩

theorem obeys_ask (hm : m.Obeys R) (q : Query σ) : (q.perform host thread m).2.Obeys R := by
  cases q with
  | context q =>
    cases q with
    | setController c controller =>
      simp only [Query.perform, ContextQuery.perform]
      split <;> exact hm
    | requestCapture c =>
      simp only [Query.perform, ContextQuery.perform]
      split
      · next p m' hp =>
        unfold Store.requestCapture at hp
        dsimp only at hp
        split at hp
        · cases hp
        · split at hp
          · cases hp
          · split at hp
            · cases hp
            · cases hp
              exact Table.All.insert hm R.waits_nil
      · exact hm
    | _ => exact hm
  | code q =>
    cases q with
    | create kind r domain =>
      simp only [Query.perform, CodeQuery.perform, Store.createExecutable]
      split
      · exact hm
      · split
        · exact hm
        · split
          · exact hm
          · split
            · exact hm
            · split <;> exact hm
    | nested e index =>
      simp only [Query.perform, CodeQuery.perform]
      split <;> exact hm
    | share r => exact hm
  | _ => exact hm

theorem obeys_runProgram {κ : Kind} (hm : m.Obeys R) (hgenerators : m.HasGenerators)
    (p : Program σ κ) {s : Stack σ κ goal} (hs : s.Obeys R) :
    (runProgram host thread m p s).Obeys R := by
  cases p with
  | finish result => exact ⟨hm, hs⟩
  | panic => exact ⟨hm, hs⟩
  | ask q k => exact ⟨obeys_ask hm q, hs⟩
  | act action k =>
    exact obeys_beginAction (s := .cons (.program k) s) hm hgenerators action ⟨trivial, hs⟩
  | bracket f body k => exact obeys_beginEnter hm f none ⟨trivial, trivial, hs⟩
  | guard body k => exact ⟨hm, trivial, trivial, hs⟩

theorem obeys_count (hm : m.Obeys R) {a : Activation} (h : R.Ready a.frames)
    {s : Stack σ .exit goal} (hs : s.Obeys R) : (count host m a s).Obeys R := by
  unfold count
  dsimp only
  split
  · exact ⟨hm, h, hs⟩
  · exact ⟨hm, h, hs⟩

/-- A step keeps a rule that its instruction keeps, if it executes one. -/
theorem Obeys.step {X : Config σ goal} (h : X.Obeys R) (hgenerators : X.store.HasGenerators)
    (hallows : ∀ a f callers i, X.IsAbout a f callers i →
      R.Allows X.store { f with position := f.position + 1 } i) :
    (X.step host thread).Obeys R := by
  obtain ⟨m, state⟩ := X
  obtain ⟨hm, hstate⟩ := h
  cases state with
  | running p s => exact obeys_runProgram hm hgenerators p hstate
  | calling f site s => exact obeys_beginCall hm hgenerators f site hstate
  | counting a s => exact obeys_count hm hstate.1 hstate.2
  | executing a s =>
    refine obeys_execute hm hstate.1 hstate.2 ?_
    intro f callers i g hframes hfetch
    have hallowed := hallows a f callers i ⟨s, g, rfl, hframes, hfetch⟩
    obtain ⟨-, rfl⟩ := Frame.fetch?_eq_some_iff.mp hfetch
    exact hallowed
  | returning x s =>
    cases s with
    | nil => exact ⟨hm, hstate⟩
    | cons t s => exact obeys_take hm hstate.1 x hstate.2
  | panicking s =>
    cases s with
    | nil => exact ⟨hm, hstate⟩
    | cons t s => exact obeys_passPanic hm t hstate.2
  | crashed => exact ⟨hm, trivial⟩

end Config

/-! ## Systems -/

/-- Every instruction that a frame may execute keeps the rule. -/
def FrameRule.IsClosed (σ : Type) (R : FrameRule) : Prop :=
  ∀ (m : Store σ) (f : Frame) (i : Instruction), R.ready f →
    f.body.routine.code[f.position]? = some i → R.Allows m { f with position := f.position + 1 } i

/-- A frame that is about to execute an instruction is ready for it. -/
theorem Config.Obeys.ready {X : Config σ goal} (h : X.Obeys R) {a : Activation} {f : Frame}
    {callers : List Frame} {i : Instruction} (habout : X.IsAbout a f callers i) :
    R.ready f ∧ f.body.routine.code[f.position]? = some i := by
  obtain ⟨s, g, hstate, hframes, hfetch⟩ := habout
  obtain ⟨hi, rfl⟩ := Frame.fetch?_eq_some_iff.mp hfetch
  have hexecutes : X.state.Executes a := by
    rw [hstate]
    exact .executing s
  have hready := h.state.ready hexecutes
  rw [hframes] at hready
  exact ⟨hready.1, hi⟩

theorem Config.Obeys.allows {X : Config σ goal} (h : X.Obeys R) (hclosed : R.IsClosed σ)
    {a : Activation} {f : Frame} {callers : List Frame} {i : Instruction}
    (habout : X.IsAbout a f callers i) :
    R.Allows X.store { f with position := f.position + 1 } i := by
  obtain ⟨hready, hi⟩ := h.ready habout
  exact hclosed X.store f i hready hi

namespace System

/-- What threads begin is the code of a host, which never deals with the end of an activation. -/
def Event.IsHostCode : Event σ → Prop
  | @Event.begins _ _ goal _ => goal ≠ .exit
  | .steps _ => True

/-- All frames keep the rule, and all that the system holds is sound. -/
structure Obeys (R : FrameRule) (S : System σ) : Prop where
  store : S.store.Obeys R
  sound : S.store.Sound (fun _ => True) fun _ => True
  jobs : ∀ thread job, S.jobs thread = some job →
    job.state.Obeys R ∧ job.state.Sound (fun _ => True) fun _ => True

theorem obeys_idle (state : σ) : (idle (Store.initial state)).Obeys R where
  store := Store.obeys_initial state
  sound := Store.sound_initial trivial
  jobs := by
    intro thread job hjob
    cases hjob

theorem Obeys.put {S : System σ} (h : S.Obeys R) (thread : Id .thread) {m : Store σ}
    {state : State σ goal} (hm : m.Obeys R) (hsound : m.Sound (fun _ => True) fun _ => True)
    (hstate : state.Obeys R ∧ state.Sound (fun _ => True) fun _ => True) :
    (S.put thread m state).Obeys R where
  store := hm
  sound := hsound
  jobs := by
    intro other job hjob
    rcases jobs_put_cases hjob with rfl | hjob
    · exact hstate
    · exact h.jobs other job hjob

theorem Obeys.play {S : System σ} (h : S.Obeys R) (hclosed : R.IsClosed σ) (host : Host σ)
    {e : Event σ} (he : e.IsHostCode) : (S.play host e).Obeys R := by
  rcases S.play_inversion host e with ⟨-, hplay⟩ | ⟨thread, goal, p, rfl, -, hplay⟩ |
    ⟨thread, job, rfl, hjob, hplay⟩ <;> rw [hplay]
  · exact h
  · exact h.put thread h.store h.sound ⟨trivial, he, Program.over_true he p, trivial⟩
  · obtain ⟨hobeys, hsound⟩ := h.jobs thread job hjob
    have hbefore : Config.Obeys R ⟨S.store, job.state⟩ := ⟨h.store, hobeys⟩
    have hstep := @Config.Obeys.step σ _ R host thread _ hbefore h.sound.hasGenerators
      fun _ _ _ _ habout => hbefore.allows hclosed habout
    have hsafe : (Config.step host thread ⟨S.store, job.state⟩).Sound (fun _ => True)
        fun _ => True :=
      Config.Sound.step (X := ⟨S.store, job.state⟩) host.over_true ⟨h.sound, hsound⟩
        fun _ _ => trivial
    exact h.put thread hstep.store hsafe.store ⟨hstep.state, hsafe.state⟩

/-- In every system that begins with nothing a rule is kept that every instruction keeps. -/
theorem obeys_run (hclosed : R.IsClosed σ) (host : Host σ) (state : σ) {events : List (Event σ)}
    (hevents : ∀ e ∈ events, e.IsHostCode) :
    ((idle (Store.initial state)).run host events).Obeys R := by
  have hrun : ∀ S : System σ, S.Obeys R → (S.run host events).Obeys R := by
    induction events with
    | nil => exact fun S h => h
    | cons e events ih =>
      obtain ⟨he, hrest⟩ := List.forall_mem_cons.mp hevents
      exact fun S h => ih hrest _ (h.play hclosed host he)
  exact hrun _ (obeys_idle state)

end System

end ScriptMachine
