import ScriptMachine.Machine.Activation

/-!
# Where a throw goes

A throw goes to the innermost handler of an activation. `Frame.Caught` is what it makes of the frame
of that handler, and `Activation.throw_goes` is the statement about the activation: frames further
in are gone, frames further out are as they were, and without a handler the value leaves the
activation.
-/

namespace ScriptMachine

/-- A throw goes no further than a handler that catches or has a finally block. -/
def Handler.stopsThrow (h : Handler) : Bool := h.catchAt.isSome || h.finallyAt.isSome

namespace Frame

variable {f g : Frame} {h : Handler} {outer : List Handler} {v : Value}

/-- What a throw makes of the frame it stays in. The handler is gone, or down to its finally block
if it caught. The frame goes on at the catch block with the value as an operand, or at the finally
block with the throw to be taken up after it. -/
structure Caught (f : Frame) (h : Handler) (outer : List Handler) (v : Value) (g : Frame) :
    Prop where
  position : some g.position = h.catchAt.or h.finallyAt
  handlers : g.handlers =
    (if h.catchAt.isSome && h.finallyAt.isSome then [⟨none, h.finallyAt, h.height⟩] else []) ++
      outer
  operands : g.operands.reverse =
    f.operands.reverse.take h.height ++ if h.catchAt.isSome then [v] else []
  cleanups : g.cleanups =
    (if h.catchAt.isSome then [] else [⟨.throw v, outer.length⟩]) ++
      f.cleanups.dropWhile (outer.length < ·.depth)
  completion : h.catchAt = none → g.endCleanup.1 = .throw v
  body : g.body = f.body
  locals : g.locals = f.locals
  scope : g.scope = f.scope
  receiver : g.receiver = f.receiver

theorem reverse_operands_truncate (f : Frame) (height : Nat) :
    (f.truncate height).operands.reverse = f.operands.reverse.take height :=
  List.take_reverse.symm

/-- The innermost handler is the one that the throw goes to. -/
theorem caught_routeThrowThrough (hstops : h.stopsThrow) :
    ∃ g, routeThrowThrough v f (h :: outer) = (true, g) ∧ f.Caught h outer v g := by
  obtain ⟨catchAt, finallyAt, height⟩ := h
  have hcut := reverse_operands_truncate f height
  have hkept : (f.truncate height).operands.reverse = f.operands.reverse.take height ++ [] := by
    rw [hcut, List.append_nil]
  have hpushed : (v :: (f.truncate height).operands).reverse =
      f.operands.reverse.take height ++ [v] := by
    rw [List.reverse_cons, hcut]
  cases catchAt with
  | some target =>
    cases finallyAt with
    | none => exact ⟨_, rfl, rfl, rfl, hpushed, rfl, nofun, rfl, rfl, rfl, rfl⟩
    | some cleanup => exact ⟨_, rfl, rfl, rfl, hpushed, rfl, nofun, rfl, rfl, rfl, rfl⟩
  | none =>
    cases finallyAt with
    | none => cases hstops
    | some target => exact ⟨_, rfl, rfl, rfl, hkept, rfl, fun _ => rfl, rfl, rfl, rfl, rfl⟩

end Frame

namespace Activation

variable {f : Frame} {above callers frames : List Frame} {v : Value}

/-- Frames without handlers are passed by. -/
theorem unwind_past (habove : ∀ g ∈ above, g.handlers = []) :
    unwind v (above ++ frames) = unwind v frames := by
  induction above with
  | nil => rfl
  | cons g above ih =>
    obtain ⟨hg, habove⟩ := List.forall_mem_cons.mp habove
    have hleft : g.routeThrow v = (false, { g with handlers := [] }) := by
      rw [Frame.routeThrow, hg, Frame.routeThrowThrough]
    rw [List.cons_append, unwind, hleft]
    exact ih habove

theorem unwind_eq_nil (hframes : ∀ f ∈ frames, f.handlers = []) : unwind v frames = [] := by
  have h : unwind v (frames ++ []) = unwind v [] := unwind_past hframes
  rwa [List.append_nil] at h

/-- The frames behind the innermost one that has a handler. -/
theorem exists_innermost (h : ∃ f ∈ frames, f.handlers ≠ []) :
    ∃ above f callers, frames = above ++ f :: callers ∧ (∀ g ∈ above, g.handlers = []) ∧
      f.handlers ≠ [] := by
  induction frames with
  | nil => simp at h
  | cons f frames ih =>
    by_cases hf : f.handlers = []
    · obtain ⟨above, g, callers, rfl, habove, hg⟩ := ih (by simpa [hf] using h)
      exact ⟨f :: above, g, callers, rfl, List.forall_mem_cons.mpr ⟨hf, habove⟩, hg⟩
    · exact ⟨[], f, frames, rfl, nofun, hf⟩

/-- A throw goes to the innermost handler of the activation, if it has one, and else leaves it. -/
theorem throw_goes (a : Activation) (v : Value)
    (htargets : ∀ f ∈ a.frames, ∀ h ∈ f.handlers, h.stopsThrow) :
    ((∃ f ∈ a.frames, f.handlers ≠ []) →
      ∃ above f h outer callers g, a.frames = above ++ f :: callers ∧
        (∀ x ∈ above, x.handlers = []) ∧ f.handlers = h :: outer ∧
        a.throw v = .next { a with frames := g :: callers } ∧ f.Caught h outer v g) ∧
      ((∀ f ∈ a.frames, f.handlers = []) → a.throw v = .leave (.error (.thrown v))) := by
  constructor
  · intro hsome
    obtain ⟨above, f, callers, hframes, habove, hf⟩ := exists_innermost hsome
    obtain ⟨h, outer, hhandlers⟩ := List.exists_cons_of_ne_nil hf
    have hstops : h.stopsThrow := htargets f (by simp [hframes]) h (by simp [hhandlers])
    obtain ⟨g, hroute, hcaught⟩ : ∃ g, f.routeThrow v = (true, g) ∧ f.Caught h outer v g := by
      rw [Frame.routeThrow, hhandlers]
      exact Frame.caught_routeThrowThrough hstops
    have hunwound : unwind v a.frames = g :: callers := by
      rw [hframes, unwind_past habove, unwind, hroute]
    refine ⟨above, f, h, outer, callers, g, hframes, habove, hhandlers, ?_, hcaught⟩
    rw [throw, hunwound]
  · intro hnone
    rw [throw, unwind_eq_nil hnone]

/-! ## A throw out of a callee -/

/-- A try statement with a catch and a finally block. -/
def guardingRoutine : Routine where
  name := some "guarding"
  kind := .function
  isGenerator := false
  isStrict := false
  isExpression := false
  paramCount := 1
  names := #["f"]
  isConst := #[false]
  code := #[.null, .enterTry (some 5) (some 6), .loadLocal 0, .undefined, .call 0, .exitTry,
    .endFinally]
  nested := []

/-- A function that runs it. -/
def guardingExecutable : Executable where
  id := ⟨0⟩
  shared := ⟨⟨⟨0⟩, []⟩, guardingRoutine⟩
  security := none
  valid := by decide

/-- Below a callee that handles nothing, the function is within its try statement, in which a
finally block was left by a jump. -/
def guarding : Activation where
  context := ⟨0⟩
  frames := [Frame.enter guardingExecutable ⟨1⟩ .undefined [],
    { Frame.enter guardingExecutable ⟨0⟩ .null [.bool true] with
      position := 5
      operands := [.bool false, .null]
      handlers := [⟨some 5, some 6, 1⟩]
      cleanups := [⟨.normal, 1⟩] }]
  limit := 8
  isGenerator := false

theorem throw_goes_guarding :
    (∀ f ∈ guarding.frames, ∀ h ∈ f.handlers, h.stopsThrow) ∧
    (∃ f ∈ guarding.frames, f.handlers ≠ []) ∧
    (∃ above f h outer callers g, guarding.frames = above ++ f :: callers ∧
      (∀ x ∈ above, x.handlers = []) ∧ f.handlers = h :: outer ∧
      guarding.throw (.bool true) = .next { guarding with frames := g :: callers } ∧
      f.Caught h outer (.bool true) g) ∧
    { guarding with frames := guarding.frames.take 1 }.throw (.bool true) =
      .leave (.error (.thrown (.bool true))) := by
  have htargets : ∀ f ∈ guarding.frames, ∀ h ∈ f.handlers, h.stopsThrow := by
    simp [guarding, Frame.enter, Handler.stopsThrow]
  have hsome : ∃ f ∈ guarding.frames, f.handlers ≠ [] := by simp [guarding, Frame.enter]
  have hnone : ∀ f ∈ guarding.frames.take 1, f.handlers = [] := by simp [guarding, Frame.enter]
  refine ⟨htargets, hsome, (throw_goes guarding _ htargets).1 hsome, ?_⟩
  exact (throw_goes { guarding with frames := guarding.frames.take 1 } _
    (fun f hf h hh => by simp [hnone f hf] at hh)).2 hnone

end Activation

end ScriptMachine
