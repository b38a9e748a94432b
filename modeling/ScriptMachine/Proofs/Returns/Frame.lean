import ScriptMachine.Abrupt
import ScriptMachine.Proofs.Returns.Explicit

/-!
# Values and frames over code with explicit returns

Values and frames hold code, which is mapped along with them. Operators on values do not look at
code, and what a frame does to its operands, slots and handlers it does whatever its code is. Only
at the end of the code of a unit does it matter: `Frame.fetch?_explicit_of_end` and
`Frame.fetch?_explicit_behind` say which two instructions are found there.
-/

namespace ScriptMachine

variable (U : Units)

/-! ## Executables -/

/-- Shared code with explicit returns. -/
def SharedRoutine.explicit (r : SharedRoutine) : SharedRoutine where
  origin := r.origin
  routine := r.routine.explicit U

theorem SharedRoutine.nested?_explicit (r : SharedRoutine) (index : Nat) :
    (r.explicit U).nested? index = (r.nested? index).map (explicit U) := by
  simp only [nested?, explicit, Routine.nested_explicit, List.getElem?_map, Option.map_map]
  rfl

namespace Executable

/-- The executable with explicit returns. -/
def explicit (e : Executable) : Executable where
  id := e.id
  shared := e.shared.explicit U
  security := e.security
  valid := e.valid.explicit U

variable (e : Executable)

@[simp] theorem routine_explicit : (e.explicit U).routine = e.routine.explicit U := rfl

@[simp] theorem name_explicit : (e.explicit U).name = e.name := by
  rw [name, routine_explicit, Routine.name_explicit, name]

theorem inspect_explicit : (e.explicit U).inspect = e.inspect := by
  unfold inspect
  simp only [name_explicit, routine_explicit, Routine.kind_explicit, Routine.isStrict_explicit,
    Routine.isGenerator_explicit]
  rfl

theorem nested?_explicit (id : Id .executable) (index : Nat) :
    (e.explicit U).nested? id index = (e.nested? id index).map (explicit U) := by
  have hnested := e.shared.nested?_explicit U index
  unfold nested?
  split
  · next f hf =>
    split
    · next g hg =>
      rw [hg] at hnested
      obtain rfl : f = g.explicit U := Option.some.inj (hf.symm.trans hnested)
      rfl
    · next hg =>
      rw [hg] at hnested
      cases hf.symm.trans hnested
  · next hf =>
    split
    · next g hg =>
      rw [hg] at hnested
      cases hf.symm.trans hnested
    · rfl

end Executable

/-- The generator with explicit returns. -/
def Generator.explicit (g : Generator) : Generator where
  id := g.id
  body := g.body.explicit U

/-! ## Values -/

namespace Value

/-- The value with explicit returns in the code it holds. -/
def explicit : Value → Value
  | .executable e => .executable (e.explicit U)
  | .generator g => .generator (g.explicit U)
  | v => v

variable (v w : Value)

@[simp] theorem explicit_undefined : undefined.explicit U = undefined := rfl

@[simp] theorem explicit_executable (e : Executable) :
    (executable e).explicit U = executable (e.explicit U) := rfl

@[simp] theorem isTruthy_explicit : (v.explicit U).isTruthy = v.isTruthy := by cases v <;> rfl

@[simp] theorem isString_explicit : (v.explicit U).isString = v.isString := by cases v <;> rfl

@[simp] theorem plainText_explicit : (v.explicit U).plainText = v.plainText := by
  cases v with
  | executable e => exact congrArg (fun name => "function " ++ name ++ _) (e.name_explicit U)
  | _ => rfl

@[simp] theorem display_explicit : (v.explicit U).display = v.display := by
  cases v with
  | executable e => exact congrArg pure ((Value.executable e).plainText_explicit U)
  | _ => rfl

@[simp] theorem toNumber_explicit : (v.explicit U).toNumber = v.toNumber := by cases v <;> rfl

@[simp] theorem toRope_explicit : (v.explicit U).toRope = v.toRope := by
  cases v with
  | executable e => exact congrArg Rope.flat ((Value.executable e).plainText_explicit U)
  | _ => rfl

@[simp] theorem concat_explicit : (v.explicit U).concat (w.explicit U) = v.concat w := by
  rw [concat, toRope_explicit, toRope_explicit, concat]

@[simp] theorem add_explicit : (v.explicit U).add (w.explicit U) = v.add w := by
  simp only [add, isString_explicit, toNumber_explicit, concat_explicit]

@[simp] theorem strictEquals_explicit :
    (v.explicit U).strictEquals (w.explicit U) = v.strictEquals w := by
  cases v <;> cases w <;> rfl

@[simp] theorem equals_explicit : (v.explicit U).equals (w.explicit U) = v.equals w := by
  cases v <;> cases w <;> rfl

@[simp] theorem applyBinary_explicit (op : BinaryOp) :
    Value.applyBinary op (v.explicit U) (w.explicit U) = Value.applyBinary op v w := by
  cases op <;> simp [Value.applyBinary]

/-- A value that a flattening gives is a string if it is another one. -/
theorem flatten_explicit (texts : FlatTexts) :
    (v.explicit U).flatten texts = ((v.flatten texts).1.explicit U, (v.flatten texts).2) := by
  cases v <;> rfl

theorem explicit_add (texts : FlatTexts) : (v.add w texts).1.explicit U = (v.add w texts).1 := by
  unfold add
  split <;> rfl

/-- What comes out of an operator holds no code. -/
theorem explicit_applyBinary (op : BinaryOp) (texts : FlatTexts) :
    (Value.applyBinary op v w texts).1.explicit U = (Value.applyBinary op v w texts).1 := by
  cases op with
  | add => exact explicit_add U v w texts
  | sub | mul | div | lt | strictEq => rfl

end Value

namespace Abrupt

/-- The end with explicit returns in the code that is thrown. -/
def explicit : Abrupt → Abrupt
  | .thrown v => .thrown (v.explicit U)
  | e => e

@[simp] theorem message_explicit (e : Abrupt) : (e.explicit U).message = e.message := by
  cases e with
  | thrown v => simp [explicit, message]
  | _ => rfl

end Abrupt

/-! ## Frames -/

/-- The completion with explicit returns in the code it holds. -/
def Completion.explicit : Completion → Completion
  | .normal => .normal
  | .throw v => .throw (v.explicit U)
  | .return v => .return (v.explicit U)

/-- The finally block with explicit returns in the code it holds. -/
def Cleanup.explicit (c : Cleanup) : Cleanup where
  completion := c.completion.explicit U
  depth := c.depth

namespace Frame

/-- The frame with explicit returns in all code that it holds. -/
def explicit (f : Frame) : Frame where
  body := f.body.explicit U
  position := f.position
  operands := f.operands.map (Value.explicit U)
  locals := f.locals.map (Value.explicit U)
  handlers := f.handlers
  cleanups := f.cleanups.map (Cleanup.explicit U)
  scope := f.scope
  receiver := f.receiver.explicit U

variable (f : Frame) (v : Value)

theorem explicit_enter (e : Executable) (scope : Id .scope) (receiver : Value)
    (args : List Value) :
    (enter e scope receiver args).explicit U =
      enter (e.explicit U) scope (receiver.explicit U) (args.map (Value.explicit U)) := by
  have hlocals : ∀ {n k : Nat} (hnk : k = n) (given : Array Value),
      Array.map (Value.explicit U) (.ofFn (n := n) fun slot => given.getD slot .undefined) =
        .ofFn (n := k) fun slot => (given.map (Value.explicit U)).getD slot .undefined := by
    rintro n k rfl given
    rw [Array.map_ofFn]
    refine congrArg Array.ofFn (funext fun slot => ?_)
    simp only [Function.comp, Array.getD_eq_getD_getElem?, Array.getElem?_map]
    cases given[slot.val]? <;> rfl
  have hnames : (e.explicit U).routine.names.size = e.routine.names.size := by simp
  simp only [enter, explicit, hlocals hnames, List.map_take, List.map_toArray, List.map_nil,
    Executable.routine_explicit, Routine.paramCount_explicit]

@[simp] theorem body_explicit : (f.explicit U).body = f.body.explicit U := rfl

@[simp] theorem scope_explicit : (f.explicit U).scope = f.scope := rfl

@[simp] theorem handlers_explicit : (f.explicit U).handlers = f.handlers := rfl

@[simp] theorem push_explicit : (f.explicit U).push (v.explicit U) = (f.push v).explicit U := rfl

@[simp] theorem goto_explicit (position : Nat) :
    (f.explicit U).goto position = (f.goto position).explicit U := rfl

@[simp] theorem pop_explicit :
    (f.explicit U).pop = (f.pop.1.explicit U, f.pop.2.explicit U) := by
  cases h : f.operands <;> simp [pop, explicit, h]

@[simp] theorem popMany_explicit (count : Nat) :
    (f.explicit U).popMany count =
      ((f.popMany count).1.map (Value.explicit U), (f.popMany count).2.explicit U) := by
  simp [popMany, explicit, List.map_take, List.map_drop]

@[simp] theorem top?_explicit :
    (f.explicit U).top?.getD .undefined = (f.top?.getD .undefined).explicit U := by
  cases h : f.operands <;> simp [top?, explicit, h]

@[simp] theorem getLocal_explicit (slot : UInt16) :
    (f.explicit U).getLocal slot = (f.getLocal slot).explicit U := by
  simp only [getLocal, local?, explicit, Array.getElem?_map]
  cases f.locals[slot.toNat]? <;> rfl

@[simp] theorem setLocal_explicit (slot : UInt16) :
    (f.explicit U).setLocal slot (v.explicit U) = (f.setLocal slot v).explicit U := by
  simp [setLocal, explicit, Array.map_setIfInBounds]

@[simp] theorem pushHandler_explicit (catchAt finallyAt : Option Nat) :
    (f.explicit U).pushHandler catchAt finallyAt = (f.pushHandler catchAt finallyAt).explicit U := by
  simp [pushHandler, explicit, height]

@[simp] theorem truncate_explicit (height : Nat) :
    (f.explicit U).truncate height = (f.truncate height).explicit U := by
  simp [truncate, explicit, Frame.height, List.map_drop]

@[simp] theorem popHandler_explicit : (f.explicit U).popHandler = f.popHandler.explicit U := by
  unfold popHandler
  rw [handlers_explicit]
  cases f.handlers with
  | nil => rfl
  | cons h rest =>
    dsimp only
    split <;> rfl

@[simp] theorem endCleanup_explicit :
    (f.explicit U).endCleanup = (f.endCleanup.1.explicit U, f.endCleanup.2.explicit U) := by
  cases h : f.cleanups <;> simp [endCleanup, explicit, h]
  all_goals rfl

@[simp] theorem abandonCleanups_explicit :
    (f.explicit U).abandonCleanups = f.abandonCleanups.explicit U := by
  simp [abandonCleanups, explicit, List.dropWhile_map]
  rfl

theorem withHandlers_explicit (handlers : List Handler) :
    { f.explicit U with handlers } = { f with handlers }.explicit U := rfl

/-- A return takes the same way. The induction is on the handlers, innermost first. -/
theorem routeReturnThrough_explicit (handlers : List Handler) :
    routeReturnThrough (v.explicit U) (f.explicit U) handlers =
      ((routeReturnThrough v f handlers).1, (routeReturnThrough v f handlers).2.explicit U) := by
  induction handlers generalizing f with
  | nil => rfl
  | cons h rest ih =>
    simp only [routeReturnThrough, withHandlers_explicit, abandonCleanups_explicit]
    cases h.finallyAt with
    | none => exact ih _
    | some target =>
      dsimp only
      rw [truncate_explicit]
      rfl

theorem routeReturn_explicit :
    (f.explicit U).routeReturn (v.explicit U) =
      ((f.routeReturn v).1, (f.routeReturn v).2.explicit U) :=
  routeReturnThrough_explicit U f v f.handlers

/-- A thrown value takes the same way. -/
theorem routeThrowThrough_explicit (handlers : List Handler) :
    routeThrowThrough (v.explicit U) (f.explicit U) handlers =
      ((routeThrowThrough v f handlers).1, (routeThrowThrough v f handlers).2.explicit U) := by
  induction handlers generalizing f with
  | nil => rfl
  | cons h rest ih =>
    simp only [routeThrowThrough, withHandlers_explicit, abandonCleanups_explicit,
      truncate_explicit]
    cases h.catchAt with
    | none =>
      cases h.finallyAt with
      | none => exact ih _
      | some target => rfl
    | some target => cases h.finallyAt <;> rfl

theorem routeThrow_explicit :
    (f.explicit U).routeThrow (v.explicit U) =
      ((f.routeThrow v).1, (f.routeThrow v).2.explicit U) :=
  routeThrowThrough_explicit U f v f.handlers

/-! ## Fetching -/

variable {f}

/-- An instruction of the code is found in its place. -/
theorem fetch?_explicit_of_some {i : Instruction} {g : Frame} (h : f.fetch? = some (i, g)) :
    (f.explicit U).fetch? = some (i, g.explicit U) := by
  obtain ⟨j, hj, heq⟩ := Option.map_eq_some_iff.mp h
  obtain ⟨rfl, rfl⟩ := Prod.mk.inj heq
  have hcode := Routine.getElem?_code_explicit U f.body.routine hj
  exact congrArg (Option.map _) hcode

/-- Code that stays as it is ends where it ended. -/
theorem fetch?_explicit_of_none (h : f.fetch? = none) (hhas : U.has f.body.routine = false) :
    (f.explicit U).fetch? = none := by
  have hcode := Option.map_eq_none_iff.mp h
  rw [fetch?, Option.map_eq_none_iff, body_explicit, Executable.routine_explicit,
    Routine.code_explicit_of_not_has U hhas]
  exact hcode

/-- A unit that has come to its end goes on with undefined. -/
theorem fetch?_explicit_of_end (hend : f.position = f.body.routine.code.size)
    (hhas : U.has f.body.routine = true) :
    (f.explicit U).fetch? = some (.undefined, (f.explicit U).goto (f.position + 1)) := by
  have hcode : (f.explicit U).body.routine.code[f.position]? = some .undefined := by
    rw [body_explicit, Executable.routine_explicit, Routine.code_explicit_of_has U hhas, hend,
      Array.getElem?_append_right (Nat.le_refl _), Nat.sub_self]
    rfl
  exact congrArg (Option.map _) hcode

/-- Behind that it returns. -/
theorem fetch?_explicit_behind (hend : f.position = f.body.routine.code.size)
    (hhas : U.has f.body.routine = true) :
    (((f.explicit U).goto (f.position + 1)).push .undefined).fetch? =
      some (.ret, ((f.explicit U).goto (f.position + 2)).push .undefined) := by
  have hcode : (f.explicit U).body.routine.code[f.position + 1]? = some .ret := by
    rw [body_explicit, Executable.routine_explicit, Routine.code_explicit_of_has U hhas, hend,
      Array.getElem?_append_right (Nat.le_add_right _ 1), Nat.add_sub_cancel_left]
    rfl
  exact congrArg (Option.map _) hcode

/-- Where no handler has a finally block a return leaves the frame. -/
theorem routeReturn_of_no_finally (h : ∀ h ∈ f.handlers, h.finallyAt = none) (v : Value) :
    (f.routeReturn v).1 = false := by
  have hthrough : ∀ (handlers : List Handler) (g : Frame), (∀ h ∈ handlers, h.finallyAt = none) →
      (routeReturnThrough v g handlers).1 = false := by
    intro handlers
    induction handlers with
    | nil => exact fun _ _ => rfl
    | cons h rest ih =>
      intro g hnone
      obtain ⟨hh, hrest⟩ := List.forall_mem_cons.mp hnone
      simp only [routeReturnThrough, hh]
      exact ih _ hrest
  exact hthrough f.handlers f h

end Frame

end ScriptMachine
