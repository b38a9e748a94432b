import ScriptMachine.Proofs.Machine.Moves

/-!
# Interpreted code between host calls

Seen from outside, interpreted code calls host functions and comes to an end: a `Report` is one
of the two. In between it works on its frames and on the world alone. `Turn.next` carries out
one instruction in this narrow view, with no context, stack or table of continuations, and
`Turn.Follows` answers one host call after the other. Both are deterministic
(`Turn.Follows.settles_iff`), whatever a machine may do around them.
-/

namespace ScriptMachine

variable {σ : Type}

/-- A call of a host function as interpreted code makes it. -/
structure HostCall where
  function : HostFunction
  scope : Id .scope
  receiver : Value
  args : List Value
  world : World

/-- A host call, how it was answered and the world afterwards. -/
structure Exchange where
  call : HostCall
  outcome : Outcome
  world : World

/-- What can be seen of running code from outside. -/
inductive Report where
  | call (h : HostCall)
  | ended (o : Outcome) (w : World)

/-- The end of a call of interpreted code. A yield does not belong there. -/
def Exit.outcome : Except Abrupt Exit → Outcome
  | .ok (.returned v) => .ok v
  | .ok (.yielded _ _) => .error (.typeError "yield outside a generator")
  | .error e => .error e

/-- An outermost call gives a flat string in place of a concatenation. -/
def Outcome.finish (o : Outcome) (w : World) : Outcome × World :=
  match o with
  | .ok v => (.ok (v.flatten w.texts).1, { w with texts := (v.flatten w.texts).2 })
  | .error e => (.error e, w)

/-- An activation that is no generator, on some context. -/
def Activation.plain (limit : Nat) (c : Id .context) (frames : List Frame) : Activation :=
  { context := c, frames, limit, isGenerator := false }

/-- Interpreted code with a world around it. -/
inductive Turn where
  /-- About to carry out an instruction. -/
  | going (frames : List Frame) (w : World)
  /-- Waiting for a host function. -/
  | waiting (frames : List Frame) (call : HostCall)
  | left (o : Outcome) (w : World)

namespace Turn

/-- Where the flow of an activation leads. -/
def ofFlow (w : World) : Flow → Turn
  | .next a => .going a.frames w
  | .leave e => .left (Exit.outcome e) w

/-- Some context; the code does not know which one it runs on. -/
def anywhere : Id .context := ⟨0⟩

/-- The code goes on with the answer to a call. -/
def answer (limit : Nat) (frames : List Frame) (o : Outcome) (w : World) : Turn :=
  let a := Activation.plain limit anywhere frames
  match o with
  | .ok v => ofFlow w (a.deliver v)
  | .error e => ofFlow w (a.fail e w.bare).1

/-- A generator function is called, which makes a generator. -/
def makeGenerator (limit : Nat) (frames : List Frame) (e : Executable) (site : CallSite)
    (w : World) : Turn :=
  let (g, m) := w.bare.newGenerator (Frame.enter e site.scope site.receiver site.args)
  answer limit frames (.ok (.generator g)) m.world

/-- Where the move of an activation leads. -/
def ofMove (limit : Nat) (w : World) : Move → Turn
  | .flow flow => ofFlow w flow
  | .call a (.executable e) site => makeGenerator limit a.frames e site w
  | .call a (.hostFunction h) site =>
    .waiting a.frames ⟨h, site.scope, site.receiver, site.args, w⟩
  | .call _ (.resumption _ _ _) _ | .call _ (.continuation _ _) _ => .left (.ok .undefined) w

/-- Carry out an instruction. Code that waits or was left stays as it is. -/
def next (limit : Nat) : Turn → Turn
  | .going frames w =>
    let (move, m) := (Activation.plain limit anywhere frames).execute w.bare
    ofMove limit m.world move
  | t => t

/-- The world around the code. -/
def world : Turn → World
  | .going _ w | .left _ w => w
  | .waiting _ call => call.world

/-- What can be seen: nothing while instructions are carried out. -/
def report? : Turn → Option Report
  | .going _ _ => none
  | .waiting _ call => some (.call call)
  | .left o w => some (.ended (o.finish w).1 (o.finish w).2)

/-- Carry out a number of instructions. -/
def run (limit : Nat) : Nat → Turn → Turn
  | 0, t => t
  | n + 1, t => run limit n (t.next limit)

/-- Instructions lead from one turn to another. -/
def Reaches (limit : Nat) (t u : Turn) : Prop := ∃ n, t.run limit n = u

/-- The turn at which there is something to see. -/
def Settles (limit : Nat) (t u : Turn) : Prop := t.Reaches limit u ∧ u.report?.isSome

/-- The host calls of the code are answered one after the other. -/
inductive Follows (limit : Nat) : Turn → List Exchange → Turn → Prop
  | nil (t : Turn) : Follows limit t [] t
  | cons {t u : Turn} {frames : List Frame} {x : Exchange} {exchanges : List Exchange}
      (hcall : t.Settles limit (.waiting frames x.call))
      (rest : Follows limit (answer limit frames x.outcome x.world) exchanges u) :
      Follows limit t (x :: exchanges) u

variable {limit : Nat} {t u v : Turn}

theorem next_of_report (h : t.report?.isSome) : t.next limit = t := by
  cases t with
  | going frames w => simp [report?] at h
  | waiting | left => rfl

variable (limit) in
theorem run_of_report (h : t.report?.isSome) (n : Nat) : t.run limit n = t := by
  induction n with
  | zero => rfl
  | succ n ih => rw [run, next_of_report h, ih]

theorem run_add (t : Turn) (n k : Nat) : t.run limit (n + k) = (t.run limit n).run limit k := by
  induction n generalizing t with
  | zero => simp [run]
  | succ n ih => rw [Nat.succ_add, run, run, ih]

theorem Reaches.refl (t : Turn) : t.Reaches limit t := ⟨0, rfl⟩

theorem reaches_next (t : Turn) : t.Reaches limit (t.next limit) := ⟨1, rfl⟩

theorem Reaches.trans (h : t.Reaches limit u) (h' : u.Reaches limit v) : t.Reaches limit v := by
  obtain ⟨n, rfl⟩ := h
  obtain ⟨k, rfl⟩ := h'
  exact ⟨n + k, run_add t n k⟩

theorem settles_of_report (h : t.report?.isSome) : t.Settles limit t := ⟨Reaches.refl t, h⟩

/-- There is one turn at which there is something to see. -/
theorem Settles.unique (h : t.Settles limit u) (h' : t.Settles limit v) : u = v := by
  obtain ⟨⟨n, rfl⟩, hu⟩ := h
  obtain ⟨⟨k, rfl⟩, hv⟩ := h'
  have hn := run_of_report limit hu k
  have hk := run_of_report limit hv n
  rw [← run_add] at hn hk
  rw [← hn, ← hk, Nat.add_comm]

theorem Reaches.settles_iff (h : t.Reaches limit u) : u.Settles limit v ↔ t.Settles limit v := by
  constructor
  · rintro ⟨hv, hs⟩
    exact ⟨h.trans hv, hs⟩
  · rintro ⟨⟨n, rfl⟩, hs⟩
    obtain ⟨k, rfl⟩ := h
    refine ⟨⟨n, ?_⟩, hs⟩
    rw [← run_add, Nat.add_comm, run_add, run_of_report limit hs]

/-- The same answers to the host calls of the same code lead to the same report. -/
theorem Follows.settles_iff {exchanges : List Exchange} {u' : Turn}
    (h : Follows limit t exchanges u) (h' : Follows limit t exchanges u') :
    u.Settles limit v ↔ u'.Settles limit v := by
  induction h with
  | nil t =>
    cases h'
    rfl
  | cons hcall rest ih =>
    cases h' with
    | cons hcall' rest' =>
      cases hcall.unique hcall'
      exact ih rest'

end Turn

end ScriptMachine
