import Mathlib.Logic.ExistsUnique
import ScriptMachine.Proofs.Coroutine.Delivery
import ScriptMachine.Proofs.Generators.Phases
import ScriptMachine.Proofs.Unwinding.Uncatchable

/-!
# The life cycle of a generator

A resumption that finds the generator running, finished or not yet started may be answered
without running anything: `GeneratorLife.Replies` lists these answers. Both ways to a generator,
directly within a top call and through an outermost call of its own, come to the same answer in
one step. Where the body does run, a resumption that the context performs in the standard way
says that the generator is done exactly when it has finished.
-/

namespace ScriptMachine

variable {σ : Type} {α β goal : Kind}

/-! ## Replies without running the body -/

/-- What a generator that is over answers. -/
def GeneratorOp.ended (op : GeneratorOp) (v : Value) : Except Abrupt GeneratorStep :=
  match op with
  | .next => .ok ⟨.undefined, true⟩
  | .return => .ok ⟨v, true⟩
  | .throw => .error (.thrown v)

/-- The state of a generator that is over. -/
def GeneratorState.over : GeneratorState := { frame := none, started := true, finished := true }

/-- The replies to resumptions that run nothing, and the states in which they leave the
generator. -/
inductive GeneratorLife.Replies (op : GeneratorOp) (v : Value) :
    GeneratorLife → Except Abrupt GeneratorStep → GeneratorState → Prop
  | running : Replies op v ⟨some { frame := none, started := true }, 1⟩
      (.error (.typeError "generator is already running")) { frame := none, started := true }
  | finished : Replies op v ⟨some .over, 0⟩ (op.ended v) .over
  /-- What is thrown or returned into a generator that has not been started finishes it. -/
  | unstarted (frame : Frame) (hop : op ≠ .next) :
      Replies op v ⟨some { frame := some frame }, 0⟩ (op.ended v) .over

/-- Enter the state of a generator. -/
def Store.putGenerator (m : Store σ) (g : Id .generator) (state : GeneratorState) : Store σ :=
  { m with generators := m.generators.set g state }

theorem Store.putGenerator_of_get? {m : Store σ} {g : Id .generator} {state : GeneratorState}
    (h : m.generators.get? g = some state) : m.putGenerator g state = m := by
  have hget : m.generators.get g = state := by rw [Table.get, h]; rfl
  rw [putGenerator, Table.set, ← hget, Table.modify_get]

theorem Store.get?_putGenerator {m : Store σ} {g : Id .generator} {state : GeneratorState}
    (h : m.generators.get? g = some state) (after : GeneratorState) :
    (m.putGenerator g after).generators.get? g = some after := by
  rw [putGenerator, Table.set, Table.get?_modify, if_pos rfl, h]
  rfl

/-- Only a generator that was made has finished. -/
theorem Store.finished_of_get {m : Store σ} {g : Id .generator}
    (h : (m.generators.get g).finished = true) : m.Finished g := by
  cases hget : m.generators.get? g with
  | none =>
    rw [Table.get, hget] at h
    cases h
  | some state =>
    rw [Table.get, hget] at h
    exact ⟨state, hget, h⟩

namespace Config

section Steps

variable {m : Store σ} {g : Generator} {op : GeneratorOp} {v : Value}

/-- What a resumption is answered that finds the generator in such a state. -/
theorem beginStep_of_replies {n : Nat} {x : Except Abrupt GeneratorStep} {after : GeneratorState}
    (h : GeneratorLife.Replies op v ⟨m.generators.get? g.id, n⟩ x after) (c : Id .context)
    (s : Stack σ .step goal) :
    beginStep m g op c v s = give (m.putGenerator g.id after) .step x s := by
  generalize hstate : m.generators.get? g.id = state at h
  cases h with
  | running =>
    have hget : m.generators.get g.id = { frame := none, started := true } := by
      rw [Table.get, hstate]
      rfl
    rw [Store.putGenerator_of_get? hstate]
    simp only [beginStep, hget]
    rfl
  | finished =>
    have hget : m.generators.get g.id = .over := by
      rw [Table.get, hstate]
      rfl
    rw [Store.putGenerator_of_get? hstate]
    simp only [beginStep, hget]
    cases op <;> rfl
  | unstarted frame hop =>
    have hget : m.generators.get g.id = { frame := some frame } := by
      rw [Table.get, hstate]
      rfl
    simp only [beginStep, hget]
    cases op with
    | next => exact absurd rfl hop
    | throw | «return» => rfl

/-- The body of a generator runs, or is left at once by what is thrown or returned into it. -/
def enterBody (m : Store σ) (c : Id .context) : Flow → Config σ .exit
  | .next a => beginActivation m c a.frames true .nil
  | .leave e => give m .exit e .nil

theorem enterBody_spec (m : Store σ) (c : Id .context) (flow : Flow) (i : Id .generator) :
    (enterBody m c flow).store.generators = m.generators ∧
      (enterBody m c flow).state.bodies i = 0 := by
  cases flow <;> exact ⟨rfl, rfl⟩

/-- A resumption is refused, or finds or makes the generator finished, or runs its body. -/
theorem beginStep_cases (m : Store σ) (g : Generator) (op : GeneratorOp) (c : Id .context)
    (v : Value) (s : Stack σ .step goal) :
    ((m.generators.get g.id).isRunning = true ∧ beginStep m g op c v s =
        give m .step (.error (.typeError "generator is already running")) s) ∨
      (∃ m' : Store σ, m'.Finished g.id ∧ beginStep m g op c v s = give m' .step (op.ended v) s) ∨
      ∃ (m' : Store σ) (flow : Flow),
        m'.generators.get? g.id = some { frame := none, started := true } ∧
        beginStep m g op c v s = (enterBody m' c flow).onto (.cons (.bodyEnd g) s) := by
  generalize hstate : m.generators.get g.id = state
  by_cases hfinished : state.finished = true
  · refine .inr (.inl ⟨m, ?_, ?_⟩)
    · exact Store.finished_of_get (hstate ▸ hfinished)
    · simp only [beginStep, hstate, if_pos hfinished]
      cases op <;> rfl
  · cases hframe : state.frame with
    | none =>
      refine .inl ⟨?_, ?_⟩
      · simp [GeneratorState.isRunning, hfinished, hframe]
      · simp only [beginStep, hstate, if_neg hfinished, hframe]
    | some frame =>
      have hget : m.generators.get? g.id = some (m.generators.get g.id) :=
        get?_of_frame m (by rw [hstate, hframe])
      have hput := Store.get?_putGenerator hget
      let a : Activation :=
        { context := c, frames := [frame], limit := (m.context c).frameLimit, isGenerator := true }
      by_cases hstarted : state.started = true
      · refine .inr (.inr ⟨m.putGenerator g.id { frame := none, started := true }, ?_⟩)
        cases op with
        | next =>
          refine ⟨.next { a with frames := [frame.push v] }, hput _, ?_⟩
          simp only [beginStep, hstate, if_neg hfinished, hframe, if_pos hstarted]
          rfl
        | throw =>
          refine ⟨a.throw v, hput _, ?_⟩
          simp only [beginStep, hstate, if_neg hfinished, hframe, if_pos hstarted]
          cases a.throw v <;> rfl
        | «return» =>
          refine ⟨a.returnValue v, hput _, ?_⟩
          simp only [beginStep, hstate, if_neg hfinished, hframe, if_pos hstarted]
          cases a.returnValue v <;> rfl
      · cases op with
        | next =>
          refine .inr (.inr ⟨m.putGenerator g.id { frame := none, started := true }, .next a,
            hput _, ?_⟩)
          simp only [beginStep, hstate, if_neg hfinished, hframe, if_neg hstarted]
          rfl
        | throw | «return» =>
          refine .inr (.inl ⟨m.putGenerator g.id .over, ⟨.over, hput _, rfl⟩, ?_⟩)
          simp only [beginStep, hstate, if_neg hfinished, hframe, if_neg hstarted]
          rfl

variable {host : Host σ} {thread : Id .thread}

/-- The end of a body says that the generator is done exactly when it finishes it. -/
theorem done_iff_finished_of_endBody (x : Except Abrupt Exit) {m' : Store σ} {t : GeneratorStep}
    (hstored : m.generators.get? g.id = some { frame := none, started := true })
    (h : (endBody m g x .nil : Config σ .step) = give m' .step (.ok t) .nil) :
    t.done = true ↔ m'.Finished g.id := by
  have hleft : m'.generators.get? g.id =
      some (GeneratorState.leave x { frame := none, started := true }) := by
    have hlife := congrArg GeneratorLife.state (life_endBody g.id m g x (.nil : Stack σ .step .step))
    rw [h] at hlife
    refine hlife.trans ?_
    rw [if_pos rfl, hstored]
    rfl
  rcases x with e | (v | ⟨v, frame⟩)
  · cases h
  · cases h
    exact iff_of_true rfl ⟨_, hleft, rfl⟩
  · cases h
    refine iff_of_false nofun ?_
    rintro ⟨state, hstate, hfinished⟩
    rw [hleft] at hstate
    cases hstate
    cases hfinished

variable {host : Host σ} {thread : Id .thread}

/-- A step that a generator gives is the last one exactly when the generator has finished. -/
theorem done_iff_finished_of_beginStep {c : Id .context} {n : Nat} {m' : Store σ}
    {t : GeneratorStep}
    (h : (beginStep m g op c v .nil).run host thread n = give m' .step (.ok t) .nil) :
    t.done = true ↔ m'.Finished g.id := by
  rcases beginStep_cases m g op c v (.nil : Stack σ .step .step) with
    ⟨-, heq⟩ | ⟨m₁, hfinished, heq⟩ | ⟨m₁, flow, hstored, heq⟩
  · rw [heq, run_give_nil] at h
    cases h
  · rw [heq, run_give_nil] at h
    cases op <;> cases h <;> exact iff_of_true rfl hfinished
  · -- the body was left, and until then nobody touched the generator
    rw [heq] at h
    have hopen : (Stack.cons (.bodyEnd g) .nil : Stack σ .exit .step).IsOpen :=
      And.intro trivial trivial
    obtain ⟨k, m₂, x, -, hk, -, hrest⟩ := exists_result_of_onto hopen h
    obtain ⟨hgenerators, hbodies⟩ := enterBody_spec m₁ c flow g.id
    have hrunning : (enterBody m₁ c flow).store.generators.get? g.id =
        some { frame := none, started := true } := by
      rw [hgenerators, hstored]
    have hlife := life_run_eq host thread hrunning rfl hbodies k
    rw [hk] at hlife
    have hleft : m₂.generators.get? g.id = some { frame := none, started := true } :=
      (congrArg GeneratorLife.state hlife).trans hrunning
    have hend := run_step_of_give hrest
    have hstep : step host thread (give m₂ .exit x (.cons (.bodyEnd g) .nil) : Config σ .step) =
        endBody m₂ g x .nil := rfl
    have hentered : (endBody m₂ g x .nil : Config σ .step).run host thread n =
        endBody m₂ g x .nil := by
      rcases x with e | (w | ⟨w, frame⟩) <;> exact run_give_nil host thread _ _ n
    rw [hstep, hentered] at hend
    exact done_iff_finished_of_endBody x hleft hend

end Steps

/-! ## Whole resumptions -/

/-- The activation of interpreted code that is at work. -/
def instruction? (X : Config σ goal) : Option Activation :=
  match X.state with
  | .counting a _ | .executing a _ => some a
  | _ => none

theorem overlooks_instruction : Overlooks (σ := σ) instruction? where
  taken _ _ _ _ := rfl
  resumed _ _ _ _ _ _ := rfl
  performed _ _ _ _ := rfl

theorem instruction?_onto (X : Config σ α) (s : Stack σ α β) :
    (X.onto s).instruction? = X.instruction? := by
  obtain ⟨m, state⟩ := X
  cases state <;> rfl

variable {host : Host σ} {thread : Id .thread}

/-- What runs no interpreted code on a stack of its own runs none on top of another one. -/
theorem clear_onto {X Y : Config σ α} (s : Stack σ α β)
    (h : Clear host thread instruction? X Y) :
    Clear host thread instruction? (X.onto s) (Y.onto s) := by
  obtain ⟨n, hn⟩ := h
  induction n generalizing X with
  | zero =>
    obtain ⟨rfl, -⟩ := hn
    exact Clear.refl _
  | succ n ih =>
    obtain ⟨hrun, hnone⟩ := hn
    cases hend : X.ending? with
    | some x =>
      rw [run_of_ending host thread hend] at hrun
      rw [hrun]
      exact Clear.refl _
    | none =>
      have hrest : ClearFor host thread instruction? n (X.step host thread) Y :=
        ⟨hrun, fun k hk => hnone (k + 1) (Nat.succ_lt_succ hk)⟩
      have hfirst : (X.onto s).instruction? = none :=
        (instruction?_onto X s).trans (hnone 0 (Nat.succ_pos n))
      refine (clear_step hfirst).trans ?_
      rw [step_onto host thread s hend]
      exact ih hrest

variable {m : Store σ} {c : Id .context} {via : Executable} {g : Generator} {op : GeneratorOp}
  {v : Value}

variable (thread) in
/-- A resumption whose answer needs no body comes to that answer without an instruction. -/
theorem exists_clear_reply (hm : m.Resumes host c via g) (scope : Id .scope) {n : Nat}
    {x : Except Abrupt GeneratorStep} {after : GeneratorState}
    (h : GeneratorLife.Replies op v ⟨m.generators.get? g.id, n⟩ x after) :
    ∃ m' : Store σ,
      Clear host thread instruction? (ofAction host thread m (.step via g op c scope v))
        (give m' .step ((m.setting c).finish x (m.putGenerator g.id after).world).1 .nil) ∧
      m'.world = ((m.setting c).finish x (m.putGenerator g.id after).world).2 := by
  obtain ⟨m₁, r, s, -, -, hr, hworld, -, -, hs⟩ := exists_clear_beginStep thread hm op scope v
  obtain ⟨hrelays, hclear⟩ := hs overlooks_instruction
  have hgenerators : m₁.generators = m.generators := congrArg World.generators hworld
  rw [beginStep_of_replies (hgenerators ▸ h)] at hclear
  obtain ⟨m', hrest, hw, -⟩ := hrelays (m₁.putGenerator g.id after) x hr
  have hput : (m₁.putGenerator g.id after).world = (m.putGenerator g.id after).world := by
    have hset : (m₁.putGenerator g.id after).world =
        { m₁.world with generators := m₁.world.generators.set g.id after } := rfl
    rw [hset, hworld]
    rfl
  rw [hput] at hrest hw
  exact ⟨m', hclear.trans hrest, hw⟩

/-- A resumption that is performed in the standard way says that the generator is done exactly
when it has finished. -/
theorem done_iff_finished (hm : m.Resumes host c via g) {scope : Id .scope} {n : Nat}
    {m' : Store σ} {t : GeneratorStep}
    (h : (ofAction host thread m (.step via g op c scope v)).run host thread n =
      give m' .step (.ok t) .nil) :
    t.done = true ↔ m'.Finished g.id := by
  obtain ⟨m₁, r, s, -, -, hr, -, -, hopen, hs⟩ := exists_clear_beginStep thread hm op scope v
  obtain ⟨hrelays, hclear⟩ := hs overlooks_instruction
  obtain ⟨i, hi⟩ := hclear.exists_run
  have hend : ((ofAction host thread m (.step via g op c scope v)).run host thread n).ending? =
      some (.result (.ok t)) := by
    rw [h]
    rfl
  have hrun := run_of_run hi hend
  rw [h, ← Stack.nil_append s, beginStep_append] at hrun
  obtain ⟨k, m₂, x, -, hk, -, hrest⟩ := exists_result_of_onto hopen hrun
  -- what the step itself comes to is handed on as it is
  have hr₂ : ∀ j ∈ r, m₂.Recalls j := by
    intro j hj
    have hbegin : (beginStep m₁ g op c v (.nil : Stack σ .step .step)).store.Recalls j :=
      (hr j hj).of_eq (resumptions_beginStep m₁ g op c v .nil)
    have hrecalls := run_recalls host thread hbegin k
    rw [hk] at hrecalls
    exact hrecalls
  obtain ⟨m₃, hrelay, -, hgenerators⟩ := hrelays m₂ x hr₂
  obtain ⟨j, hj⟩ := hrelay.exists_run
  obtain ⟨rfl, hfinish⟩ := eq_of_run_give hj hrest
  obtain ⟨t', rfl, hdone⟩ := Setting.done_of_finish hfinish
  rw [← hdone, done_iff_finished_of_beginStep hk, Store.Finished, Store.Finished, hgenerators]

/-! ## The life cycle -/

variable (host thread) in
/-- What resumptions come to that a configuration is about to begin. -/
structure Resuming (X : Config σ goal) : Prop where
  /-- Beneath a top call, what needs no body is answered in one step. -/
  direct {κ : Kind} {via : Executable} {g : Generator} {op : GeneratorOp} {c : Id .context}
    {scope : Id .scope} {v : Value} {k : Except Abrupt GeneratorStep → Program σ κ}
    {s : Stack σ κ goal} (hX : X.state = .running (.act (.step via g op c scope v) k) s)
    (hvia : g.body.sameCode via) (hcalled : (X.store.context c).topCall.isSome)
    {x : Except Abrupt GeneratorStep} {after : GeneratorState}
    (h : (X.life g.id).Replies op v x after) :
    X.step host thread = give (X.store.putGenerator g.id after) .step x (.cons (.program k) s)
  /-- It is answered in one step where a policy calls a resumption that it performs. -/
  called {r : Id .resumption} {g : Generator} {op : GeneratorOp} {site : CallSite}
    {s : Stack σ .completion goal} (hX : X.state = .calling (.resumption r g op) site s)
    {v : Value} (hvalue : (X.store.resumptions.get r).value = some v)
    {x : Except Abrupt GeneratorStep} {after : GeneratorState}
    (h : (X.life g.id).Replies op v x after) :
    X.step host thread =
      give ((X.store.spend r).putGenerator g.id after) .step x (.cons (.recordStep r) s)
  /-- With the default policy the answer comes to what asked for it, and no instruction is carried
  out; of the store that code works on, only the entry of the generator is another one, and a
  string that comes out of an outermost call has been made flat. -/
  answered {κ : Kind} {via : Executable} {g : Generator} {op : GeneratorOp} {c : Id .context}
    {scope : Id .scope} {v : Value} {k : Except Abrupt GeneratorStep → Program σ κ}
    {s : Stack σ κ goal} (hX : X.state = .running (.act (.step via g op c scope v) k) s)
    (hvia : X.store.Resumes host c via g) {x : Except Abrupt GeneratorStep}
    {after : GeneratorState} (h : (X.life g.id).Replies op v x after) :
    ∃ m : Store σ,
      Clear host thread instruction? X
        (give m .step ((X.store.setting c).finish x (X.store.putGenerator g.id after).world).1
          (.cons (.program k) s)) ∧
      m.world = ((X.store.setting c).finish x (X.store.putGenerator g.id after).world).2
  /-- With the default policy a step that is given is the last one exactly when the generator has
  finished. -/
  reported {κ : Kind} {via : Executable} {g : Generator} {op : GeneratorOp} {c : Id .context}
    {scope : Id .scope} {v : Value} {k : Except Abrupt GeneratorStep → Program σ κ}
    {s : Stack σ κ goal} (hX : X.state = .running (.act (.step via g op c scope v) k) s)
    (hvia : X.store.Resumes host c via g) {n : Nat} {m : Store σ} {t : GeneratorStep}
    (h : (ofAction host thread X.store (.step via g op c scope v)).run host thread n =
      give m .step (.ok t) .nil) :
    (∃ i, X.run host thread i = give m .step (.ok t) (.cons (.program k) s)) ∧
      (t.done = true ↔ m.Finished g.id)

variable (host thread) in
theorem resuming (X : Config σ goal) : X.Resuming host thread where
  direct {κ via g op c scope v k s} hX hvia hcalled {x after} h := by
    have hsame : (!g.body.sameCode via) = false := by rw [hvia]; rfl
    have hbegin : ofAction host thread X.store (.step via g op c scope v) =
        beginStep X.store g op c v .nil := by
      simp only [ofAction, beginAction, beginResumption, hsame, hcalled, if_true]
      rfl
    rw [step_of_act hX, hbegin, beginStep_of_replies h]
    rfl
  called {r g op site s} hX {v} hvalue {x after} h := by
    obtain ⟨m, state⟩ := X
    obtain rfl : state = .calling (.resumption r g op) site s := hX
    have hv : (m.resumptions.get r).value.getD .undefined = v := by rw [hvalue]; rfl
    show beginStep (m.spend r) g op site.context ((m.resumptions.get r).value.getD .undefined)
      (.cons (.recordStep r) s) = _
    rw [hv]
    exact beginStep_of_replies (m := m.spend r) h _ _
  answered {κ via g op c scope v k s} hX hvia {x after} h := by
    obtain ⟨m, hclear, hw⟩ := exists_clear_reply thread hvia scope h
    have hfirst : X.instruction? = none := by
      rw [instruction?, hX]
    refine ⟨m, (clear_step hfirst).trans ?_, hw⟩
    rw [step_of_act hX]
    exact clear_onto (.cons (.program k) s) hclear
  reported {κ via g op c scope v k s} hX hvia {n m t} h := by
    refine ⟨?_, done_iff_finished hvia h⟩
    obtain ⟨i, -, hi⟩ := exists_run_onto host thread
      (ofAction host thread X.store (.step via g op c scope v)) (.cons (.program k) s) n
    refine ⟨1 + i, ?_⟩
    rw [run_add, run_one, step_of_act hX, hi, h]
    rfl

/-- Take any host code, run it for a while from a store at rest, and let nobody panic. The code
may make and resume any generators on any contexts, and be called back by what it runs.

Then every generator that was made is in exactly one phase: it is suspended and holds its frame,
or it is running with its body waited for once, or it has finished and holds no frame; at most
one activation runs its body. Once finished it stays so. An error that leaves its body finishes
it. And resumptions are answered as `Resuming` says: a running generator throws a type error, one
that is over or was never started answers by itself, and with the default policy a step is the
last one exactly when the generator has finished. -/
theorem generator_life_cycle (host : Host σ) (thread : Id .thread) {m : Store σ}
    (hrest : m.AtRest) (p : Program σ goal) {n : Nat}
    (hcalm : ∀ j ≤ n, ((start m p).run host thread j).state.IsCalm) {X : Config σ goal}
    (hX : (start m p).run host thread n = X) :
    (∀ i, (X.store.generators.get? i).isSome →
      (∃! phase, (X.life i).IsIn phase) ∧ X.state.bodyActivations i ≤ 1) ∧
    (∀ i, X.store.Finished i → ∀ k, (X.run host thread k).store.Finished i) ∧
    (∀ (g : Generator) (e : Abrupt) (s : Stack σ .step goal),
      X.state = .returning (κ := .exit) (.error e) (.cons (.bodyEnd g) s) →
      ∃ m', X.step host thread = give m' .step (.error e) s ∧ m'.Finished g.id) ∧
    X.Resuming host thread := by
  have hlawful : ∀ i, (X.life i).IsLawful := hX ▸ run_isLawful host thread hrest p hcalm
  refine ⟨?_, fun i hi k => finished_run host thread hi k, ?_, X.resuming host thread⟩
  · intro i hknown
    obtain ⟨phase, hphase⟩ := (hlawful i).exists_phase hknown
    refine ⟨⟨phase, hphase, fun q hq => hq.unique hphase⟩, ?_⟩
    exact Nat.le_trans (X.state.bodyActivations_le i) hphase.bodies_le
  · intro g e s hstate
    have hpos : 0 < (X.life g.id).bodies := by
      rw [life, hstate]
      simp only [State.bodies, Stack.bodies_cons, Task.bodies, if_true]
      omega
    have hrunning := (hlawful g.id).of_bodies hpos
    obtain ⟨m', state⟩ := X
    obtain rfl : state = .returning (κ := .exit) (.error e) (.cons (.bodyEnd g) s) := hstate
    have hsingle : (life g.id ⟨m', .returning (κ := .exit) (.error e)
        (.cons (.bodyEnd g) s)⟩ : GeneratorLife).IsSingle := by
      rw [hrunning]
      exact .inr ⟨rfl, rfl⟩
    exact ⟨_, rfl, finished_step_of_bodyEnd host thread hsingle rfl⟩

/-! ## A generator that resumes itself -/

/-- A store with a generator that will call the host function that resumes it. -/
def selfResuming : Store Unit :=
  { oneContext with generators :=
      ⟨#[{ frame := some (.enter (catchingCall true) ⟨0⟩ .undefined [.hostFunction ⟨⟨1⟩, "g"⟩]) }]⟩ }

/-- The embedder resumes the generator. -/
def firstResumption : Program Unit .step :=
  .act (.step (catchingCall true) catchingGenerator .next ⟨0⟩ ⟨0⟩ .undefined) (.finish (κ := .step))

/-- With a generator that was not started nothing is under way. -/
theorem atRest_of_frame (frame : Frame) :
    Store.AtRest { oneContext with generators := ⟨#[{ frame := some frame }]⟩ } := by
  intro i
  by_cases hi : i = ⟨0⟩
  · subst hi
    exact .inr ⟨_, .suspended _ false⟩
  · refine .inl ?_
    have hne : i.index ≠ 0 := fun h => hi (congrArg Id.mk h)
    obtain ⟨d, hd⟩ := Nat.exists_eq_succ_of_ne_zero hne
    rw [Table.get?, hd]
    rfl

theorem atRest_selfResuming : selfResuming.AtRest := atRest_of_frame _

/-- What is under way beneath the host function. -/
def beneathSelfResumption : Stack Unit .completion .step :=
  .cons (.called (catchingActivation true ⟨⟨1⟩, "g"⟩)) (.cons (.bodyEnd catchingGenerator)
    (.cons (.recordStep ⟨0⟩) (.cons .flattenResult (.cons (.clearTopCall ⟨0⟩)
      (.cons (.reportStep ⟨0⟩) (.cons (.program (.finish (κ := .step))) .nil))))))

/-- The store while the body of the generator runs. -/
def whileSelfResuming : Store Unit :=
  { selfResuming with
    generators := ⟨#[{ frame := none, started := true }]⟩
    resumptions := ⟨#[{ value := none }]⟩
    contexts := ⟨#[{ factory := ⟨0⟩, topCall := some ⟨⟨0⟩, false⟩, depth := 1 }]⟩ }

/-- The host function is about to resume the generator. -/
def atSelfResumption : Config Unit .step :=
  ⟨whileSelfResuming, .running
    (.act (.step (catchingCall true) catchingGenerator .next ⟨0⟩ ⟨0⟩ .undefined) forwardStep)
    beneathSelfResumption⟩

theorem run_firstResumption :
    (start selfResuming firstResumption).run abortingHost ⟨0⟩ 11 = atSelfResumption := rfl

/-- The body of the generator calls a host function, which resumes the generator. At that moment
it is running, by one activation, and the resumption throws a type error and leaves it so. -/
theorem life_cycle_selfResuming :
    (∃! phase, (atSelfResumption.life ⟨0⟩).IsIn phase) ∧
      atSelfResumption.state.bodyActivations ⟨0⟩ = 1 ∧
      atSelfResumption.step abortingHost ⟨0⟩ = give whileSelfResuming .step
        (.error (.typeError "generator is already running"))
        (.cons (.program forwardStep) beneathSelfResumption) := by
  have hcalm : ∀ j ≤ 11,
      ((start selfResuming firstResumption).run abortingHost ⟨0⟩ j).state.IsCalm := by
    decide +kernel
  obtain ⟨hphases, -, -, hresuming⟩ := generator_life_cycle abortingHost ⟨0⟩ atRest_selfResuming
    firstResumption hcalm run_firstResumption
  have hreply : (atSelfResumption.life ⟨0⟩).Replies .next .undefined
      (.error (.typeError "generator is already running")) { frame := none, started := true } :=
    .running
  exact ⟨(hphases ⟨0⟩ rfl).1, rfl, hresuming.direct rfl rfl rfl hreply⟩

end Config

end ScriptMachine
