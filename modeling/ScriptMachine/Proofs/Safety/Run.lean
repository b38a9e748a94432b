import ScriptMachine.Proofs.Safety.Machine

/-!
# Validation makes execution safe

No run comes to a failure of the library itself: code that was validated finds its slots and its
nested routines, yields only where there is a generator to leave, and never runs past its end;
there is always a frame to run, and a captured continuation always holds one. A run begins with
nothing and any host code, and every executable in it was made in it.
-/

namespace ScriptMachine

variable {σ : Type} {goal : Kind} {P : Executable → Prop} {Q : σ → Prop}

/-! ## Failures -/

/-- Errors that the library raises where it is at fault itself. -/
def Abrupt.IsInternal : Abrupt → Prop
  | .fault (.illegalState .noActiveFrame) => True
  | .fault (.illegalState (.strayDispatch _)) => True
  | .fault (.illegalState .noCapturedFrames) => True
  | .fault (.invalidArgument (.noNestedRoutine _)) => True
  | _ => False

/-- An activation is not left by a failure of the library. -/
def Flow.Expected (flow : Flow) : Prop := ∀ e, flow = .leave (.error e) → ¬ e.IsInternal

/-- An activation does not come to a failure of the library. -/
def Move.Expected (move : Move) : Prop := ∀ flow, move = .flow flow → flow.Expected

theorem Flow.expected_next (a : Activation) : (Flow.next a).Expected := by
  rintro e ⟨⟩

theorem Flow.expected_leave {e : Abrupt} (h : ¬ e.IsInternal) :
    (Flow.leave (.error e)).Expected := by
  rintro f ⟨⟩
  exact h

theorem Flow.Expected.move {flow : Flow} (h : flow.Expected) : (Move.flow flow).Expected := by
  rintro f ⟨⟩
  exact h

namespace Activation

variable (a : Activation) {m : Store σ}

theorem expected_throw (v : Value) : (a.throw v).Expected := by
  simp only [throw]
  cases unwind v a.frames with
  | nil => exact Flow.expected_leave id
  | cons f callers => exact Flow.expected_next _

theorem expected_complete (callers : List Frame) (v : Value) : (a.complete callers v).Expected := by
  cases callers with
  | nil => rintro e ⟨⟩
  | cons caller rest => exact Flow.expected_next _

theorem expected_returnValue (h : a.frames ≠ []) (v : Value) : (a.returnValue v).Expected := by
  unfold returnValue
  split
  · next hnil => exact absurd hnil h
  · split
    · exact Flow.expected_next _
    · exact expected_complete _ _ _

theorem expected_deliver (h : a.frames ≠ []) (v : Value) : (a.deliver v).Expected := by
  unfold deliver
  split
  · next hnil => exact absurd hnil h
  · exact Flow.expected_next _

theorem expected_capture (p : Pending) : (a.capture p m).1.Expected := by
  unfold capture
  split
  · exact Flow.expected_leave id
  · split
    · exact Flow.expected_leave id
    · exact Flow.expected_leave id

theorem expected_fail {e : Abrupt} (h : ¬ e.IsInternal) : (a.fail e m).1.Expected := by
  cases e with
  | thrown v => exact expected_throw _ _
  | suspended p => exact expected_capture _ _
  | aborted reason => exact Flow.expected_leave h
  | fault f => exact Flow.expected_leave h

theorem expected_call (f : Frame) (callers : List Frame) (count : Nat) :
    (a.call f callers count m).1.Expected := by
  simp only [call]
  split
  · split
    · rintro flow ⟨⟩
    · split
      · exact (Flow.expected_leave id).move
      · exact (Flow.expected_next _).move
  · rintro flow ⟨⟩
  · exact (expected_fail _ id).move

end Activation

/-- An instruction of valid code that touches its own frame alone does not fail by a fault of the
library. -/
theorem Frame.perform_not_internal {f g : Frame} {i : Instruction} (hi : f.fetch? = some (i, g))
    (hown : i.isOwn = true) (hcode : f.body.routine.code[f.position]? = some i)
    (hbody : g.body = f.body) {m : Store σ} {e : Abrupt} (he : (g.perform i m).1 = .error e) :
    ¬ e.IsInternal := by
  cases i with
  | loadName name =>
    simp only [Frame.perform] at he
    split at he <;> cases he
    exact id
  | storeName name =>
    simp only [Frame.perform] at he
    split at he <;> cases he
    exact id
  | closure index =>
    have hlt := f.body.valid.closure_lt hcode
    have hsome := Executable.nested?_isSome (m.fresh .executable).1 hlt
    simp only [Frame.perform, hbody] at he
    split at he
    · cases he
    · next hnone =>
      rw [hnone] at hsome
      cases hsome
  | call | ret | yield | endFinally | throw => cases hown
  | _ => cases he

/-- A sound activation does not come to a failure of the library. -/
theorem Activation.Sound.expected_execute {a : Activation} (h : a.Sound P) (m : Store σ) :
    (a.execute m).1.Expected := by
  cases hframes : a.frames with
  | nil => exact absurd hframes h.fit.ne_nil
  | cons f callers =>
    simp only [Activation.execute, hframes]
    split
    · exact (expected_complete _ _ _).move
    · next i g hi =>
      obtain ⟨hcode, rfl, -⟩ := (h.head hframes).fetch hi
      by_cases hown : i.isOwn = true
      · rw [Activation.perform_of_isOwn a callers hown m]
        have hinternal := fun e => Frame.perform_not_internal (e := e) (m := m) hi hown hcode rfl
        obtain ⟨r, g, m', heq⟩ : ∃ r g m', Frame.perform { f with position := f.position + 1 } i m =
          (r, g, m') := ⟨_, _, _, rfl⟩
        rw [heq] at hinternal ⊢
        cases r with
        | ok u => exact (Flow.expected_next _).move
        | error e => exact (expected_fail _ (hinternal e rfl)).move
      cases i with
      | call count => exact expected_call _ _ _ _
      | ret => exact (expected_returnValue _ (List.cons_ne_nil _ _) _).move
      | throw => exact (expected_throw _ _).move
      | yield =>
        simp only [Activation.perform]
        split
        · exact (expected_fail _ id).move
        · rintro flow ⟨⟩ e ⟨⟩
      | endFinally =>
        simp only [Activation.perform]
        split
        · exact (Flow.expected_next _).move
        · exact (expected_throw _ _).move
        · exact (expected_returnValue _ (List.cons_ne_nil _ _) _).move
      | _ => exact absurd rfl hown

/-! ## What a configuration holds -/

/-- A task is an activation that waits. -/
def Task.Waits (a : Activation) {α β : Kind} : Task σ α β → Prop
  | .called b | .observed b => b = a
  | _ => False

/-- An activation waits somewhere on a stack. -/
def Stack.Waits (a : Activation) : {α : Kind} → Stack σ α goal → Prop
  | _, .nil => False
  | _, .cons t rest => t.Waits a ∨ rest.Waits a

/-- An activation runs or waits. -/
def State.HasActivation (a : Activation) : State σ goal → Prop
  | .counting b s | .executing b s => b = a ∨ s.Waits a
  | .running _ s | .calling _ _ s | .returning _ s | .panicking s => s.Waits a
  | .crashed => False

/-- A frame is held by a running or waiting activation, a suspended generator or a captured
continuation. -/
inductive Config.HasFrame (X : Config σ goal) (f : Frame) : Prop
  | activation (a : Activation) (ha : X.state.HasActivation a) (hf : f ∈ a.frames)
  | generator (g : Id .generator) (s : GeneratorState) (hs : X.store.generators.get? g = some s)
      (hf : s.frame = some f)
  | continuation (k : Id .continuation) (frames : List Frame)
      (hk : X.store.continuations.get? k = some (.captured frames)) (hf : f ∈ frames)

theorem Stack.Sound.activation {α : Kind} {s : Stack σ α goal} (h : s.Sound P Q) {a : Activation}
    (ha : s.Waits a) : a.Sound P := by
  induction s with
  | nil => exact absurd ha id
  | cons t rest ih =>
    obtain ⟨ht, -, hrest⟩ := h
    rcases ha with ha | ha
    · cases t with
      | called b =>
        obtain rfl : b = a := ha
        exact ht
      | observed b =>
        obtain rfl : b = a := ha
        exact ht
      | _ => exact absurd ha id
    · exact ih hrest ha

theorem State.Sound.activation {state : State σ goal} (h : state.Sound P Q) {a : Activation}
    (ha : state.HasActivation a) : a.Sound P := by
  cases state with
  | running p s => exact h.2.2.activation ha
  | calling f site s => exact h.2.2.activation ha
  | counting b s =>
    rcases ha with rfl | ha
    · exact h.1
    · exact h.2.2.activation ha
  | executing b s =>
    rcases ha with rfl | ha
    · exact h.1
    · exact h.2.2.activation ha
  | returning r s => exact h.2.2.activation ha
  | panicking s => exact Stack.Sound.activation h ha
  | crashed => exact absurd ha id

theorem Config.Sound.frame {X : Config σ goal} (h : X.Sound P Q) {f : Frame} (hf : X.HasFrame f) :
    f.Sound P := by
  cases hf with
  | activation a ha hf => exact (h.state.activation ha).frames f hf
  | generator g s hs hf => exact (h.store.generators g s hs f hf).1
  | continuation k frames hk hf => exact (h.store.continuations k _ hk).1 f hf

/-! ## Safety -/

/-- The innermost frame of a running activation is about to carry out an instruction. -/
def Config.IsAbout (X : Config σ goal) (a : Activation) (f : Frame) (callers : List Frame)
    (i : Instruction) : Prop :=
  ∃ s g, X.state = .executing a s ∧ a.frames = f :: callers ∧ f.fetch? = some (i, g)

/-- Nothing goes wrong that is the fault of the library. -/
structure Config.Safe (X : Config σ goal) : Prop where
  /-- Every frame is within its code. -/
  positions : ∀ f, X.HasFrame f → f.position ≤ f.body.routine.code.size
  /-- A slot that is loaded or stored exists. -/
  slots : ∀ a f callers slot,
    X.IsAbout a f callers (.loadLocal slot) ∨ X.IsAbout a f callers (.storeLocal slot) →
      (f.local? slot).isSome
  /-- The nested routine of a closure exists. -/
  closures : ∀ a f callers index id, X.IsAbout a f callers (.closure index) →
    (f.body.nested? id index.toNat).isSome
  /-- A yield has a generator to leave. -/
  yields : ∀ a f callers, X.IsAbout a f callers .yield → a.isGenerator = true ∧ callers = []
  /-- A call does not end with a yield. -/
  callEnds : ∀ v f s, X.state ≠ .returning (κ := .exit) (.ok (.yielded v f)) (.cons .callEnd s)
  /-- There is always a frame to run. -/
  frames : ∀ a, X.state.HasActivation a → a.frames ≠ []
  /-- No instruction raises an error that is the fault of the library. -/
  instructions : ∀ a s, X.state = .executing a s → (a.execute X.store).1.Expected
  /-- No answer to a call raises one. -/
  answers : ∀ a s v, X.state = .returning (κ := .completion) (.ok v) (.cons (.called a) s) →
    (a.deliver v).Expected
  /-- A captured continuation that is resumed holds a frame. -/
  continuations : ∀ k v site s m, X.state = .calling (.continuation k v) site s →
    X.store.takeFrames k ≠ .ok ([], m)

/-- A sound configuration is safe. -/
theorem Config.Sound.safe {X : Config σ goal} (h : X.Sound P Q) : X.Safe where
  positions f hf := (h.frame hf).position
  slots := by
    have hexists : ∀ (a : Activation) (f : Frame) (callers : List Frame) (i : Instruction)
        (slot : UInt16), X.IsAbout a f callers i →
        (∀ position : Nat, f.body.routine.code[position]? = some i →
          slot.toNat < f.body.routine.names.size) → (f.local? slot).isSome := by
      rintro a f callers i slot ⟨s, g, hstate, hframes, hi⟩ hlt
      have hstate' := h.state
      rw [hstate] at hstate'
      have hf := hstate'.1.head hframes
      have hslot := hlt _ (hf.fetch hi).1
      rw [← hf.slots] at hslot
      simp [Frame.local?, hslot]
    rintro a f callers slot (habout | habout)
    · exact hexists a f callers _ slot habout fun _ => f.body.valid.loadLocal_lt
    · exact hexists a f callers _ slot habout fun _ => f.body.valid.storeLocal_lt
  closures := by
    rintro a f callers index id ⟨s, g, hstate, hframes, hi⟩
    have hstate' := h.state
    rw [hstate] at hstate'
    have hcode := ((hstate'.1.head hframes).fetch hi).1
    exact Executable.nested?_isSome id (f.body.valid.closure_lt hcode)
  yields := by
    rintro a f callers ⟨s, g, hstate, hframes, hi⟩
    have hstate' := h.state
    rw [hstate] at hstate'
    have hcode := ((hstate'.1.head hframes).fetch hi).1
    have hfit := hstate'.1.fit
    rw [hframes] at hfit
    exact (hfit.of_isGenerator (f.body.valid.isGenerator_of_yield hcode)).symm
  callEnds := by
    intro v f s hstate
    have hstate' := h.state
    rw [hstate] at hstate'
    have htakes : (Stack.cons .callEnd s).Takes true := hstate'.2.1 trivial
    cases htakes
  frames a ha := (h.state.activation ha).fit.ne_nil
  instructions := by
    intro a s hstate
    have hstate' := h.state
    rw [hstate] at hstate'
    exact hstate'.1.expected_execute X.store
  answers := by
    intro a s v hstate
    have hstate' := h.state
    rw [hstate] at hstate'
    have ha : a.Sound P := hstate'.2.2.1
    exact a.expected_deliver ha.fit.ne_nil v
  continuations := by
    intro k v site s m _ htake
    have hk := h.store.continuations.get CaptureState.sound_default k
    unfold Store.takeFrames at htake
    split at htake
    · next frames hcaptured =>
      rw [hcaptured] at hk
      cases htake
      exact hk.2
    · cases htake
    · cases htake

/-! ## Runs -/

/-- An executable was made in the first steps of a run. -/
def Config.MadeBefore (host : Host σ) (thread : Id .thread) (X : Config σ goal) (n : Nat)
    (e : Executable) : Prop :=
  ∃ k < n, (X.run host thread k).Makes host thread e

/-- A run keeps a configuration sound, if what it makes is in the set. -/
theorem Config.Sound.run {host : Host σ} {thread : Id .thread} (hhost : host.Over P Q)
    {X : Config σ goal} (h : X.Sound P Q) {n : Nat}
    (hmake : ∀ e, X.MadeBefore host thread n e → P e) : (X.run host thread n).Sound P Q := by
  induction n generalizing X with
  | zero => exact h
  | succ n ih =>
    have hfirst : (X.step host thread).Sound P Q := by
      apply h.step hhost
      intro e he
      exact hmake e ⟨0, Nat.succ_pos n, he⟩
    apply ih hfirst
    rintro e ⟨k, hk, he⟩
    exact hmake e ⟨k + 1, Nat.succ_lt_succ hk, he⟩

theorem Store.sound_initial {state : σ} (h : Q state) : (Store.initial state).Sound P Q where
  scopes := by
    intro s x hx
    simp [Store.initial, Table.get?] at hx
  generators := by
    intro g x hx
    simp [Store.initial, Table.get?] at hx
  continuations := by
    intro k x hx
    simp [Store.initial, Table.get?] at hx
  resumptions := by
    intro r x hx
    simp [Store.initial, Table.get?] at hx
  host := h

/-! Where executables come from does not matter for safety, so any host code will do. -/

theorem Value.over_true (v : Value) : v.Over fun _ => True := by
  cases v <;> trivial

theorem Abrupt.over_true (e : Abrupt) : e.Over fun _ => True := by
  cases e with
  | thrown v => exact v.over_true
  | _ => trivial

theorem resultOver_true {κ : Kind} (hκ : κ ≠ .exit) (r : κ.Result) :
    ResultOver (fun _ => True) κ r := by
  cases κ with
  | completion =>
    cases r with
    | ok v => exact v.over_true
    | error e => exact e.over_true
  | exit => exact absurd rfl hκ
  | step =>
    cases r with
    | ok s => exact s.value.over_true
    | error e => exact e.over_true
  | _ => trivial

theorem Query.over_true (q : Query σ) : q.Over (fun _ => True) fun _ => True := by
  unfold Query.Over
  split <;> first | exact Value.over_true _ | trivial

theorem Callable.over_true (f : Callable) : f.Over fun _ => True := by
  cases f with
  | continuation k v => exact v.over_true
  | _ => trivial

theorem CallSite.over_true (site : CallSite) : site.Over fun _ => True :=
  ⟨Value.over_true _, fun _ _ => Value.over_true _⟩

theorem Action.over_true (a : Action) : a.Over fun _ => True := by
  cases a with
  | call f site => exact ⟨f.over_true, site.over_true⟩
  | callOutermost f site isStrict => exact ⟨f.over_true, site.over_true⟩
  | callCapturing e c s args => exact ⟨trivial, fun _ _ => Value.over_true _⟩
  | resume k c s v => exact v.over_true
  | step via g op c s v => exact ⟨trivial, trivial, v.over_true⟩
  | _ => trivial

theorem Program.over_true {κ : Kind} (hκ : κ ≠ .exit) (p : Program σ κ) :
    p.Over (fun _ => True) fun _ => True := by
  induction p with
  | finish r => exact resultOver_true hκ r
  | panic => trivial
  | ask q k ih => exact ⟨q.over_true, fun r _ => ih r hκ⟩
  | act a k ih => exact ⟨a.over_true, fun r _ => ih r hκ⟩
  | bracket f body k ihBody ih => exact ⟨fun c => ihBody c nofun, fun r => ih r hκ⟩
  | guard body k ihBody ih => exact ⟨ihBody nofun, fun r => ih r hκ⟩

theorem Host.over_true (host : Host σ) : host.Over (fun _ => True) fun _ => True where
  run _ _ _ := Program.over_true (κ := .completion) nofun _
  makeContext _ _ := Program.over_true (κ := .made) nofun _
  outermost _ _ _ _ _ := Program.over_true (κ := .completion) nofun _
  observe _ _ _ := Program.over_true (κ := .verdict) nofun _
  notify _ _ _ := Program.over_true (κ := .done) nofun _
  resolve _ _ _ _ := trivial

/-- Host code that does not make up executables: whatever set of executables it is given from, it
hands on executables of that set only. The state of the host is under a condition that its own
code keeps. -/
def Host.IsHonest (host : Host σ) (state : σ) (p : Program σ goal) : Prop :=
  ∀ P : Executable → Prop, ∃ Q : σ → Prop, Q state ∧ host.Over P Q ∧ p.Over P Q

namespace Config

/-- Validation makes execution safe: in any run that begins with nothing, with any host code and
any program of the embedder, no failure of the library arises. If the code of the embedder makes
up no executables of its own, which it has no means to do, every executable that there is was
made in the run: created from a script or a function, or made from a nested routine. -/
theorem safe_of_run (hgoal : goal ≠ .exit) (host : Host σ) (thread : Id .thread) (state : σ)
    (p : Program σ goal) (n : Nat) :
    (run host thread n (start (Store.initial state) p)).Safe ∧
      (host.IsHonest state p → ∃ Q : σ → Prop,
        (run host thread n (start (Store.initial state) p)).Sound
          (MadeBefore host thread (start (Store.initial state) p) n) Q) := by
  constructor
  · have hstart : Sound (fun _ => True) (fun _ => True) (start (Store.initial state) p) :=
      ⟨Store.sound_initial trivial, hgoal, Program.over_true hgoal p, trivial⟩
    exact (hstart.run host.over_true fun _ _ => trivial).safe
  · intro hhonest
    obtain ⟨Q, hstate, hhost, hp⟩ := hhonest (MadeBefore host thread (start (.initial state) p) n)
    have hstart : Sound (MadeBefore host thread (start (.initial state) p) n) Q
        (start (.initial state) p) := ⟨Store.sound_initial hstate, hgoal, hp, trivial⟩
    exact ⟨Q, hstart.run hhost fun _ he => he⟩

/-! ## An embedder that creates a script and runs it -/

/-- A host whose code does nothing of note. -/
def plainHost : Host Unit where
  run _ _ := .finish (κ := .completion) (.ok .undefined)
  makeContext _ _ := .panic
  outermost _ f site := .act (.call f site) fun o => .finish (κ := .completion) o
  observe _ _ _ := .finish (κ := .verdict) (.ok ())
  hasFeature _ _ _ _ := false
  notify _ _ _ := .finish (κ := .done) ()
  resolve _ domain s := (domain, s)

/-- A script that returns a closure. -/
def closureScript : SharedRoutine :=
  let nested : Routine :=
    { name := none
      kind := .function
      isGenerator := false
      isStrict := false
      isExpression := true
      paramCount := 0
      names := #[]
      isConst := #[]
      code := #[]
      nested := [] }
  ⟨⟨⟨0⟩, []⟩, { nested with kind := .script, code := #[.closure 0, .ret], nested := [nested] }⟩

/-- Enter a context, create a script and run it. -/
def createAndRun : Program Unit .completion :=
  .act (.enter Store.globalFactory none) fun (r : Except Fault (Id .context)) =>
    match r with
    | .error f => .finish (κ := .completion) (.error (.fault f))
    | .ok c =>
      .ask (.code (.create .script closureScript none)) fun (r : Except Fault Executable) =>
        match r with
        | .error f => .finish (κ := .completion) (.error (.fault f))
        | .ok e => .act (.execute e c ⟨0⟩) fun (o : Outcome) => .finish (κ := .completion) o

theorem isHonest_createAndRun : plainHost.IsHonest () createAndRun := by
  intro P
  refine ⟨fun _ => True, trivial, ⟨?_, ?_, ?_, ?_, ?_, ?_⟩, trivial, ?_⟩
  · exact fun _ _ _ => trivial
  · exact fun _ _ => trivial
  · exact fun _ _ _ hf hsite => ⟨⟨hf, hsite⟩, fun _ ho => ho⟩
  · exact fun _ _ _ => trivial
  · exact fun _ _ _ => trivial
  · exact fun _ _ _ _ => trivial
  · intro r _
    cases r with
    | error f => trivial
    | ok c =>
      refine ⟨trivial, ?_⟩
      intro r hr
      cases r with
      | error f => trivial
      | ok e => exact ⟨hr, fun _ ho => ho⟩

/-- The embedder is safe at every point of its run, and runs what was made in it. -/
theorem safe_createAndRun :
    (run plainHost ⟨0⟩ 20 (start (Store.initial ()) createAndRun)).Safe ∧
      ∃ Q : Unit → Prop, (run plainHost ⟨0⟩ 20 (start (Store.initial ()) createAndRun)).Sound
        (MadeBefore plainHost ⟨0⟩ (start (Store.initial ()) createAndRun) 20) Q := by
  have hgoal : Kind.completion ≠ .exit := nofun
  obtain ⟨hsafe, hmade⟩ := safe_of_run hgoal plainHost ⟨0⟩ () createAndRun 20
  exact ⟨hsafe, hmade isHonest_createAndRun⟩

end Config

end ScriptMachine
