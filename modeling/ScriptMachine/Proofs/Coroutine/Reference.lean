import ScriptMachine.Proofs.Capture.Turn

/-!
# Coroutines

The body of a generator as one run that is never left: where it yields it hands out a value and
waits in place, and is told how to go on. `Coroutine` knows no generator, no table of suspended
frames and no entry of a machine. A value that is thrown or returned into it is pushed and then
thrown or returned by the instruction of that name (`Coroutine.resume`).

What happens to a coroutine from outside is an `Impulse`: a host function answers, an observer of
instructions gives its verdict, or somebody resumes it.
-/

namespace ScriptMachine

variable {σ : Type}

/-- The body of a generator as an activation on some context. -/
def Activation.body (limit : Nat) (c : Id .context) (frames : List Frame) : Activation :=
  { context := c, frames, limit, isGenerator := true }

/-- The circumstances of a resumption. -/
structure Setting where
  /-- Frames that the activation may have. -/
  limit : Nat
  /-- The resumption is the outermost call of its context, which gives a flat string in place of
  a concatenation. -/
  isOutermost : Bool

/-- What a resumption gives, and the world afterwards. -/
def Setting.finish (setting : Setting) (x : Except Abrupt GeneratorStep) (w : World) :
    Except Abrupt GeneratorStep × World :=
  match setting.isOutermost, x with
  | true, .ok step =>
    (.ok { step with value := (step.value.flatten w.texts).1 },
      { w with texts := (step.value.flatten w.texts).2 })
  | _, x => (x, w)

/-- What can be seen of the body of a generator from outside. -/
inductive Sighting where
  /-- It calls a host function. -/
  | call (h : HostCall)
  /-- An observer of instructions is asked. -/
  | observation (frames : List Frame) (w : World)
  /-- The resumption came to its end. -/
  | step (x : Except Abrupt GeneratorStep) (w : World)

/-- What happens to the body of a generator from outside. -/
inductive Impulse where
  /-- A host function answers a call and leaves a world. -/
  | answer (call : HostCall) (o : Outcome) (w : World)
  /-- An observer that is asked gives its verdict and leaves a world. -/
  | verdict (frames : List Frame) (before : World) (verdict : Except String Unit) (w : World)
  /-- Once the body has handed out a value, it is resumed in some world. -/
  | resumption (handed : Value) (before : World) (op : GeneratorOp) (v : Value)
      (setting : Setting) (w : World)

/-- The body of a generator with a world around it. -/
inductive Coroutine where
  /-- About to carry out an instruction. -/
  | going (setting : Setting) (frames : List Frame) (w : World)
  /-- Waiting for a host function. -/
  | asking (setting : Setting) (frames : List Frame) (call : HostCall)
  /-- Waiting at a yield that handed out a value. -/
  | paused (setting : Setting) (v : Value) (frame : Frame) (w : World)
  | ended (setting : Setting) (o : Outcome) (w : World)

namespace Coroutine

/-- Where leaving an activation leads. -/
def ofExit (setting : Setting) (w : World) : Except Abrupt Exit → Coroutine
  | .ok (.returned v) => .ended setting (.ok v) w
  | .ok (.yielded v frame) => .paused setting v frame w
  | .error e => .ended setting (.error e) w

/-- Where the flow of an activation leads. -/
def ofFlow (setting : Setting) (w : World) : Flow → Coroutine
  | .next a => .going setting a.frames w
  | .leave e => ofExit setting w e

/-- The code goes on with the answer to a call. -/
def answer (setting : Setting) (frames : List Frame) (o : Outcome) (w : World) : Coroutine :=
  let a := Activation.body setting.limit Turn.anywhere frames
  match o with
  | .ok v => ofFlow setting w (a.deliver v)
  | .error e => ofFlow setting w (a.fail e w.bare).1

/-- A generator function is called, which makes a generator. -/
def makeGenerator (setting : Setting) (frames : List Frame) (e : Executable) (site : CallSite)
    (w : World) : Coroutine :=
  let (g, m) := w.bare.newGenerator (Frame.enter e site.scope site.receiver site.args)
  answer setting frames (.ok (.generator g)) m.world

/-- Where the move of an activation leads. -/
def ofMove (setting : Setting) (w : World) : Move → Coroutine
  | .flow flow => ofFlow setting w flow
  | .call a (.executable e) site => makeGenerator setting a.frames e site w
  | .call a (.hostFunction h) site =>
    .asking setting a.frames ⟨h, site.scope, site.receiver, site.args, w⟩
  | .call _ (.resumption _ _ _) _ | .call _ (.continuation _ _) _ =>
    .ended setting (.ok .undefined) w

/-- Carry out an instruction. A body that waits or has ended stays as it is. -/
def next : Coroutine → Coroutine
  | .going setting frames w =>
    let (move, m) := (Activation.body setting.limit Turn.anywhere frames).execute w.bare
    ofMove setting m.world move
  | t => t

/-- The body acts as if the next instruction of its frame was some other one. -/
def carryOut (setting : Setting) (frame : Frame) (i : Instruction) (w : World) : Coroutine :=
  let (move, m) := (Activation.body setting.limit Turn.anywhere [frame]).perform frame [] i w.bare
  ofMove setting m.world move

/-- A body that waits at a yield goes on with a value as the result of the yield, or throws it
there, or returns it there. -/
def resume (setting : Setting) (frame : Frame) (op : GeneratorOp) (v : Value) (w : World) :
    Coroutine :=
  match op with
  | .next => .going setting [frame.push v] w
  | .throw => carryOut setting (frame.push v) .throw w
  | .return => carryOut setting (frame.push v) .ret w

/-- The body goes on as an observer of instructions wants. -/
def heed (setting : Setting) (frames : List Frame) (verdict : Except String Unit) (w : World) :
    Coroutine :=
  match verdict with
  | .ok () => .going setting frames w
  | .error reason => .ended setting (.error (.aborted reason)) w

/-- The world around the body. -/
def world : Coroutine → World
  | .going _ _ w | .paused _ _ _ w | .ended _ _ w => w
  | .asking _ _ call => call.world

/-- What can be seen: nothing while instructions are carried out. -/
def sighting? : Coroutine → Option Sighting
  | .going _ _ _ => none
  | .asking _ _ call => some (.call call)
  | .paused setting v _ w =>
    let (x, w) := setting.finish (.ok ⟨v, false⟩) w
    some (.step x w)
  | .ended setting o w =>
    let (x, w) := setting.finish (o.map fun v => ⟨v, true⟩) w
    some (.step x w)

/-- Carry out a number of instructions. -/
def run : Nat → Coroutine → Coroutine
  | 0, t => t
  | n + 1, t => run n t.next

/-- Instructions lead from one point of the body to another. -/
def Reaches (t u : Coroutine) : Prop := ∃ n, t.run n = u

/-- The body comes to a point at which there is something to see. -/
def Settles (t : Coroutine) (r : Sighting) : Prop := ∃ u, t.Reaches u ∧ u.sighting? = some r

/-- One impulse after the other. -/
inductive Follows : Coroutine → List Impulse → Coroutine → Prop
  | here (t : Coroutine) : Follows t [] t
  | answer {t u : Coroutine} {setting : Setting} {frames : List Frame} {call : HostCall}
      {o : Outcome} {w : World} {impulses : List Impulse}
      (hask : t.Reaches (.asking setting frames call))
      (rest : Follows (answer setting frames o w) impulses u) :
      Follows t (.answer call o w :: impulses) u
  | verdict {t u : Coroutine} {setting : Setting} {frames : List Frame} {before w : World}
      {verdict : Except String Unit} {impulses : List Impulse}
      (hgo : t.Reaches (.going setting frames before))
      (rest : Follows (heed setting frames verdict w) impulses u) :
      Follows t (.verdict frames before verdict w :: impulses) u
  | resumption {t u : Coroutine} {setting setting' : Setting} {v v' handed : Value}
      {frame : Frame} {w w' before : World} {op : GeneratorOp} {impulses : List Impulse}
      (hpause : t.Reaches (.paused setting v frame w))
      (hseen : (paused setting v frame w).sighting? = some (.step (.ok ⟨handed, false⟩) before))
      (rest : Follows (resume setting' frame op v' w') impulses u) :
      Follows t (.resumption handed before op v' setting' w' :: impulses) u

variable {t u v : Coroutine}

theorem next_of_sighting (h : t.sighting?.isSome) : t.next = t := by
  cases t with
  | going setting frames w => simp [sighting?] at h
  | asking | paused | ended => rfl

theorem run_of_sighting (h : t.sighting?.isSome) (n : Nat) : t.run n = t := by
  induction n with
  | zero => rfl
  | succ n ih => rw [run, next_of_sighting h, ih]

theorem run_add (t : Coroutine) (n k : Nat) : t.run (n + k) = (t.run n).run k := by
  induction n generalizing t with
  | zero => simp [run]
  | succ n ih => rw [Nat.succ_add, run, run, ih]

theorem Reaches.refl (t : Coroutine) : t.Reaches t := ⟨0, rfl⟩

theorem reaches_next (t : Coroutine) : t.Reaches t.next := ⟨1, rfl⟩

theorem Reaches.trans (h : t.Reaches u) (h' : u.Reaches v) : t.Reaches v := by
  obtain ⟨n, rfl⟩ := h
  obtain ⟨k, rfl⟩ := h'
  exact ⟨n + k, run_add t n k⟩

/-- There is one point at which there is something to see. -/
theorem Reaches.unique (hu : t.Reaches u) (hv : t.Reaches v) (hsu : u.sighting?.isSome)
    (hsv : v.sighting?.isSome) : u = v := by
  obtain ⟨n, rfl⟩ := hu
  obtain ⟨k, rfl⟩ := hv
  have hn := run_of_sighting hsu k
  have hk := run_of_sighting hsv n
  rw [← run_add] at hn hk
  rw [← hn, ← hk, Nat.add_comm]

/-! ## One run -/

/-- The circumstances of the current resumption. -/
def setting : Coroutine → Setting
  | .going setting _ _ | .asking setting _ _ | .paused setting _ _ _ | .ended setting _ _ => setting

theorem setting_ofFlow (setting : Setting) (w : World) (flow : Flow) :
    (ofFlow setting w flow).setting = setting := by
  rcases flow with a | (e | (v | ⟨v, frame⟩)) <;> rfl

theorem setting_answer (setting : Setting) (frames : List Frame) (o : Outcome) (w : World) :
    (answer setting frames o w).setting = setting := by
  cases o <;> exact setting_ofFlow _ _ _

theorem setting_resume (setting : Setting) (frame : Frame) (op : GeneratorOp) (v : Value)
    (w : World) : (resume setting frame op v w).setting = setting := by
  cases op with
  | next => rfl
  | throw | «return» => exact setting_ofFlow _ _ _

theorem setting_next (t : Coroutine) : t.next.setting = t.setting := by
  cases t with
  | going setting frames w =>
    simp only [next]
    generalize (Activation.body setting.limit Turn.anywhere frames).execute w.bare = r
    obtain ⟨move, m⟩ := r
    rcases move with flow | ⟨a, f, site⟩
    · exact setting_ofFlow _ _ _
    · cases f with
      | executable e => exact setting_answer setting a.frames (.ok _) _
      | hostFunction | resumption | continuation => rfl
  | asking | paused | ended => rfl

theorem Reaches.setting (h : t.Reaches u) : u.setting = t.setting := by
  obtain ⟨n, rfl⟩ := h
  induction n generalizing t with
  | zero => rfl
  | succ n ih => rw [run, ih, setting_next]

/-- The same impulses drive a coroutine to the same next sighting: it is one run. -/
theorem Follows.settles_iff {impulses : List Impulse} {u' : Coroutine}
    (h : Follows t impulses u) (h' : Follows t impulses u') (r : Sighting) :
    u.Settles r ↔ u'.Settles r := by
  induction h with
  | here t =>
    cases h'
    rfl
  | answer hask rest ih =>
    cases h' with
    | answer hask' rest' =>
      cases hask.unique hask' rfl rfl
      exact ih rest'
  | verdict hgo rest ih =>
    cases h' with
    | verdict hgo' rest' =>
      cases hgo.setting.trans hgo'.setting.symm
      exact ih rest'
  | resumption hpause hseen rest ih =>
    cases h' with
    | resumption hpause' hseen' rest' =>
      cases hpause.unique hpause' rfl rfl
      exact ih rest'

end Coroutine

end ScriptMachine
