import ScriptMachine.Proofs.Structured.Evaluation

/-!
# Following an activation

What a journey is about is where the instructions of an activation lead, whatever else happens
around them: the machine may carry them out, or nobody but the activation itself. The lemmas
here are about one instruction and about leaving one try statement; everything is said of a
frame that is placed somewhere, amid try statements and cleanups under way.
-/

namespace ScriptMachine

variable {σ : Type}

/-- A way to follow the activations of a context. -/
structure Journey (σ : Type) where
  context : Id .context
  /-- A flow leads to another flow. -/
  Leads : Flow → Store σ → Flow → Store σ → Prop
  /-- A flow never comes to a value or a thrown value. -/
  Strays : Flow → Store σ → Prop
  refl : ∀ flow m, Leads flow m flow m
  trans : ∀ {x y z m m₁ m₂}, Leads x m y m₁ → Leads y m₁ z m₂ → Leads x m z m₂
  step : ∀ {a : Activation} {m flow m'}, a.context = context → a.execute m = (.flow flow, m') →
    Leads (.next a) m flow m'
  strays : ∀ {x y m m'}, Leads x m y m' → Strays y m' → Strays x m

/-- An activation goes on where code of its innermost frame completed. -/
def Activation.proceed (a : Activation) : Completion → Flow
  | .normal => .next a
  | .throw v => a.throw v
  | .return v => a.returnValue v

/-- An activation with other frames. -/
def Activation.running (a : Activation) (f : Frame) (callers : List Frame) : Activation :=
  { a with frames := f :: callers }

/-! ## Placed frames -/

namespace Frame

/-- A frame at a position, amid try statements and cleanups under way. -/
def placed (f : Frame) (position : Nat) (handlers : List Handler) (cleanups : List Cleanup) :
    Frame :=
  { f with position, handlers, cleanups }

/-- Cleanups that were entered inside try statements no longer active are abandoned with them. -/
structure Within (handlers : List Handler) (pending cleanups : List Cleanup) : Prop where
  pending : ∀ x ∈ pending, handlers.length < x.depth
  cleanups : ∀ x ∈ cleanups, x.depth ≤ handlers.length

variable {f : Frame} {p : Nat} {handlers : List Handler} {pending cleanups : List Cleanup}
  {own beneath : List Value}

/-- A straight-line instruction does not look at where the frame is. -/
theorem perform_placed {i : Instruction} (hi : i.isStraight = true) (f : Frame) (p : Nat)
    (handlers : List Handler) (cleanups : List Cleanup) (m : Store σ) :
    (f.placed p handlers cleanups).perform i m =
      ((f.perform i m).1, (f.perform i m).2.1.placed p handlers cleanups,
        (f.perform i m).2.2) := by
  cases i with
  | loadName name =>
    simp only [perform, placed]
    split <;> rfl
  | storeName name =>
    simp only [perform, placed, pop]
    by_cases h : (f.body.routine.isStrict && !m.scopes.has f.scope name) = true
    · simp only [h, if_true]
    · simp only [h, Bool.false_eq_true, if_false]
  | closure index =>
    simp only [perform, placed]
    split <;> rfl
  | jump | jumpIfFalse | enterTry | exitTry | call | ret | yield | endFinally | throw => cases hi
  | _ => rfl

theorem dropWhile_pending (h : Within handlers pending cleanups) :
    (pending ++ cleanups).dropWhile (handlers.length < ·.depth) = cleanups := by
  obtain ⟨hpending, hcleanups⟩ := h
  induction pending with
  | nil =>
    cases cleanups with
    | nil => rfl
    | cons c rest =>
      have hc : ¬ handlers.length < c.depth := Nat.not_lt.mpr (hcleanups c (List.mem_cons_self ..))
      simp [hc]
  | cons c rest ih =>
    have hc : handlers.length < c.depth := hpending c (List.mem_cons_self ..)
    simp only [List.cons_append, List.dropWhile_cons, decide_eq_true hc, if_true]
    exact ih fun x hx => hpending x (List.mem_cons_of_mem c hx)

theorem truncate_height (hf : f.operands = own ++ beneath) :
    f.truncate beneath.length = { f with operands := beneath } := by
  have hdrop : f.operands.drop (f.height - beneath.length) = beneath := by
    rw [height, hf, List.length_append, Nat.add_sub_cancel, List.drop_left]
  rw [truncate, hdrop]

/-- The frame behind a try statement that was left, its cleanups abandoned and its operands back
to what they were. -/
theorem leave_placed (hf : f.operands = own ++ beneath) (h : Within handlers pending cleanups) :
    ((f.placed p handlers (pending ++ cleanups)).abandonCleanups).truncate beneath.length =
      { f with operands := beneath }.placed p handlers cleanups := by
  have habandon : (f.placed p handlers (pending ++ cleanups)).abandonCleanups =
      f.placed p handlers cleanups := by
    rw [abandonCleanups]
    exact congrArg (f.placed p handlers) (dropWhile_pending h)
  have hcut : (f.placed p handlers cleanups).operands = own ++ beneath := hf
  rw [habandon, truncate_height hcut]
  rfl

/-- A throw goes to the catch block of a try statement that has no cleanup. -/
theorem routeThrow_catch (hf : f.operands = own ++ beneath) (h : Within handlers pending cleanups)
    (v : Value) (target : Nat) :
    (f.placed p (⟨some target, none, beneath.length⟩ :: handlers) (pending ++ cleanups)).routeThrow
        v =
      (true, ({ f with operands := beneath }.push v).placed target handlers cleanups) := by
  have hleave := leave_placed (p := p) hf h
  simp only [placed] at hleave
  simp only [routeThrow, routeThrowThrough, placed, hleave]
  rfl

/-- A throw goes to the catch block of a try statement, whose cleanup stays behind. -/
theorem routeThrow_both (hf : f.operands = own ++ beneath) (h : Within handlers pending cleanups)
    (v : Value) (target after : Nat) :
    (f.placed p (⟨some target, some after, beneath.length⟩ :: handlers)
        (pending ++ cleanups)).routeThrow v =
      (true, ({ f with operands := beneath }.push v).placed target
        (⟨none, some after, beneath.length⟩ :: handlers) cleanups) := by
  have hleave := leave_placed (p := p) hf h
  simp only [placed] at hleave
  simp only [routeThrow, routeThrowThrough, placed, hleave]
  rfl

/-- A throw goes to the cleanup of a try statement that catches nothing. -/
theorem routeThrow_cleanup (hf : f.operands = own ++ beneath)
    (h : Within handlers pending cleanups) (v : Value) (target : Nat) :
    (f.placed p (⟨none, some target, beneath.length⟩ :: handlers) (pending ++ cleanups)).routeThrow
        v =
      (true, { f with operands := beneath }.placed target handlers
        (⟨.throw v, handlers.length⟩ :: cleanups)) := by
  have hleave := leave_placed (p := p) hf h
  simp only [placed] at hleave
  simp only [routeThrow, routeThrowThrough, placed, hleave]
  rfl

/-- A return goes to the cleanup of a try statement. -/
theorem routeReturn_cleanup (hf : f.operands = own ++ beneath)
    (h : Within handlers pending cleanups) (v : Value) (catchAt : Option Nat) (target : Nat) :
    (f.placed p (⟨catchAt, some target, beneath.length⟩ :: handlers)
        (pending ++ cleanups)).routeReturn v =
      (true, { f with operands := beneath }.placed target handlers
        (⟨.return v, handlers.length⟩ :: cleanups)) := by
  have hleave := leave_placed (p := p) hf h
  simp only [placed] at hleave
  simp only [routeReturn, routeReturnThrough, placed, hleave]
  rfl

/-- A return passes by a try statement that has no cleanup. -/
theorem routeReturn_catch (h : Within handlers pending cleanups) (v : Value)
    (catchAt : Option Nat) (height : Nat) :
    (f.placed p (⟨catchAt, none, height⟩ :: handlers) (pending ++ cleanups)).routeReturn v =
      (f.placed p handlers cleanups).routeReturn v := by
  simp only [routeReturn, routeReturnThrough, placed, abandonCleanups, dropWhile_pending h]

/-- A frame without try statements is left by a throw. -/
theorem routeThrow_nil (f : Frame) (p : Nat) (cleanups : List Cleanup) (v : Value) :
    ((f.placed p [] cleanups).routeThrow v).1 = false := rfl

/-- A frame without try statements is left by a return. -/
theorem routeReturn_nil (f : Frame) (p : Nat) (cleanups : List Cleanup) (v : Value) :
    ((f.placed p [] cleanups).routeReturn v).1 = false := rfl

end Frame

/-! ## Flows -/

namespace Activation

variable (a : Activation) {f g : Frame} (callers : List Frame) (v : Value)

theorem throw_of_handled (h : f.routeThrow v = (true, g)) :
    (a.running f callers).throw v = .next (a.running g callers) := by
  simp only [throw, running, unwind, h]

theorem throw_of_unhandled (h : (f.routeThrow v).1 = false) :
    (a.running f callers).throw v = { a with frames := callers }.throw v := by
  obtain ⟨g, hg⟩ : ∃ g, f.routeThrow v = (false, g) := ⟨_, Prod.ext h rfl⟩
  simp only [throw, running, unwind, hg]

theorem returnValue_of_cleanup (h : f.routeReturn v = (true, g)) :
    (a.running f callers).returnValue v = .next (a.running g callers) := by
  simp only [returnValue, running, h]

theorem returnValue_of_done (h : (f.routeReturn v).1 = false) :
    (a.running f callers).returnValue v = a.complete callers v := by
  obtain ⟨g, hg⟩ : ∃ g, f.routeReturn v = (false, g) := ⟨_, Prod.ext h rfl⟩
  simp only [returnValue, running, hg]
  rfl

theorem returnValue_congr (h : f.routeReturn v = g.routeReturn v) :
    (a.running f callers).returnValue v = (a.running g callers).returnValue v := by
  simp only [returnValue, running, h]
  split <;> rfl

end Activation

/-! ## Instructions -/

namespace Journey

variable (J : Journey σ) {a : Activation} {f g : Frame} {callers : List Frame} {m m' : Store σ}
  {i : Instruction}

/-- An instruction that keeps the activation within itself leads where its flow leads. -/
theorem leads_perform (ha : a.context = J.context) (hi : f.body.routine.code[f.position]? = some i)
    {flow : Flow}
    (h : a.perform { f with position := f.position + 1 } callers i m = (.flow flow, m')) :
    J.Leads (.next (a.running f callers)) m flow m' := by
  have hcontext : (a.running f callers).context = J.context := ha
  apply J.step hcontext
  simp only [Activation.execute, Activation.running, Frame.fetch?, hi, Option.map_some]
  exact h

/-- An instruction of one frame leads to what it makes of the frame. -/
theorem leads_own (ha : a.context = J.context) (hi : f.body.routine.code[f.position]? = some i)
    (hown : i.isOwn = true)
    (h : { f with position := f.position + 1 }.perform i m = (.ok (), g, m')) :
    J.Leads (.next (a.running f callers)) m (.next (a.running g callers)) m' := by
  apply J.leads_perform ha hi
  rw [Activation.perform_of_isOwn a callers hown, h]
  rfl

end Journey

end ScriptMachine
