import ScriptMachine.Machine.Step

/-!
# Sound frames

A frame of valid code is sound if its position and the targets of its handlers are within the
code, it has a value for every slot, and all values in it are over executables of some set `P`.
What an instruction does to a frame alone keeps it sound; `Routine.Valid` is what rules out the
rest. The set `P` is everything when only the shape matters, and the executables that were made
when it matters where they come from.
-/

namespace ScriptMachine

variable {σ : Type} {P : Executable → Prop}

/-! ## What validation promises -/

theorem Routine.Valid.flaw?_eq_none {r : Routine} (h : r.Valid) : r.flaw? = none := by
  rw [Routine.Valid, Routine.defect?_eq] at h
  cases hflaw : r.flaw? with
  | none => rfl
  | some flaw =>
    rw [hflaw] at h
    cases h

/-- No instruction of valid code has a flaw. -/
theorem Routine.Valid.extent_flaw? {r : Routine} (h : r.Valid) {position : Nat} {i : Instruction}
    (hi : r.code[position]? = some i) : r.extent.flaw? position i = none := by
  have hflaw := h.flaw?_eq_none
  unfold Routine.flaw? at hflaw
  split at hflaw
  · cases hflaw
  · split at hflaw
    · cases hflaw
    · split at hflaw
      · cases hflaw
      · rw [List.findSome?_eq_none_iff] at hflaw
        apply hflaw (i, position)
        rw [List.mem_zipIdx_iff_getElem?]
        simpa using hi

/-- A target of a jump or of a handler is within code of some size. -/
def TargetsWithin (size : Nat) (target : Option Nat) : Prop := ∀ t, target = some t → t ≤ size

theorem targetsWithin_of_not_any {size : Nat} {target : Option Nat}
    (h : target.any (size < ·) = false) : TargetsWithin size target := by
  rintro t rfl
  simpa using h

theorem not_of_flaw?_eq_none {p : Prop} [Decidable p] {flaw : Flaw}
    (h : (if p then some flaw else none) = none) : ¬ p := by
  intro hp
  rw [if_pos hp] at h
  cases h

namespace Routine.Valid

variable {r : Routine} {position : Nat}

theorem jump_le (h : r.Valid) {target : Nat} (hi : r.code[position]? = some (.jump target)) :
    target ≤ r.code.size := by
  have hnot : ¬ r.code.size < target := not_of_flaw?_eq_none (h.extent_flaw? hi)
  exact Nat.le_of_not_lt hnot

theorem jumpIfFalse_le (h : r.Valid) {target : Nat}
    (hi : r.code[position]? = some (.jumpIfFalse target)) : target ≤ r.code.size := by
  have hnot : ¬ r.code.size < target := not_of_flaw?_eq_none (h.extent_flaw? hi)
  exact Nat.le_of_not_lt hnot

theorem loadLocal_lt (h : r.Valid) {slot : UInt16}
    (hi : r.code[position]? = some (.loadLocal slot)) : slot.toNat < r.names.size := by
  have hnot : ¬ r.names.size ≤ slot.toNat := not_of_flaw?_eq_none (h.extent_flaw? hi)
  exact Nat.lt_of_not_le hnot

theorem storeLocal_lt (h : r.Valid) {slot : UInt16}
    (hi : r.code[position]? = some (.storeLocal slot)) : slot.toNat < r.names.size := by
  have hnot : ¬ r.names.size ≤ slot.toNat := not_of_flaw?_eq_none (h.extent_flaw? hi)
  exact Nat.lt_of_not_le hnot

theorem closure_lt (h : r.Valid) {index : UInt16}
    (hi : r.code[position]? = some (.closure index)) : index.toNat < r.nested.length := by
  have hnot : ¬ r.nested.length ≤ index.toNat := not_of_flaw?_eq_none (h.extent_flaw? hi)
  exact Nat.lt_of_not_le hnot

theorem isGenerator_of_yield (h : r.Valid) (hi : r.code[position]? = some .yield) :
    r.isGenerator = true := by
  have hflaw : (if r.isGenerator then none else some (Flaw.strayYield position)) = none :=
    h.extent_flaw? hi
  by_cases hgen : r.isGenerator = true
  · exact hgen
  · rw [if_neg hgen] at hflaw
    cases hflaw

theorem targets_of_enterTry (h : r.Valid) {catchAt finallyAt : Option Nat}
    (hi : r.code[position]? = some (.enterTry catchAt finallyAt)) :
    TargetsWithin r.code.size catchAt ∧ TargetsWithin r.code.size finallyAt := by
  have hnot : ¬ (catchAt.any (r.code.size < ·) || finallyAt.any (r.code.size < ·)) = true := by
    have hflaw := h.extent_flaw? hi
    rcases catchAt with _ | target <;> rcases finallyAt with _ | cleanup
    · cases hflaw
    all_goals exact not_of_flaw?_eq_none hflaw
  rw [Bool.not_eq_true, Bool.or_eq_false_iff] at hnot
  exact ⟨targetsWithin_of_not_any hnot.1, targetsWithin_of_not_any hnot.2⟩

end Routine.Valid

theorem Executable.nested?_isSome {e : Executable} {index : Nat} (id : Id .executable)
    (h : index < e.routine.nested.length) : (e.nested? id index).isSome := by
  have hs : (e.shared.nested? index).isSome := by
    simp only [SharedRoutine.nested?, Option.isSome_map]
    rw [List.getElem?_eq_getElem h]
    rfl
  unfold nested?
  split
  · rfl
  · next hnone =>
    rw [hnone] at hs
    cases hs

/-! ## Sound values -/

/-- The executables that a value is made of are in a set. -/
def Value.Over (P : Executable → Prop) : Value → Prop
  | .executable e => P e
  | .generator g => P g.body
  | .undefined | .null | .bool _ | .number _ | .string _ | .object _ | .hostFunction _ => True

/-- The value that is thrown is over a set. -/
def Abrupt.Over (P : Executable → Prop) : Abrupt → Prop
  | .thrown v => v.Over P
  | .suspended _ | .aborted _ | .fault _ => True

/-- The value that a finally block goes on with is over a set. -/
def Completion.Over (P : Executable → Prop) : Completion → Prop
  | .normal => True
  | .throw v | .return v => v.Over P

theorem Abrupt.over_typeError (text : String) : (Abrupt.typeError text).Over P := trivial

theorem Abrupt.over_referenceError (text : String) : (Abrupt.referenceError text).Over P := trivial

theorem Value.over_applyBinary (op : BinaryOp) (v w : Value) (texts : FlatTexts) :
    ((Value.applyBinary op v w) texts).1.Over P := by
  cases op with
  | add =>
    show ((v.add w) texts).1.Over P
    unfold Value.add
    split <;> trivial
  | sub | mul | div | lt | strictEq => trivial

theorem Value.over_flatten {v : Value} (h : v.Over P) (texts : FlatTexts) :
    (v.flatten texts).1.Over P := by
  cases v with
  | string s => trivial
  | _ => exact h

/-! ## Sound frames -/

/-- The targets of a handler are within code of some size. -/
def Handler.Within (size : Nat) (h : Handler) : Prop :=
  TargetsWithin size h.catchAt ∧ TargetsWithin size h.finallyAt

/-- A frame that is within its code and whose values are over a set. -/
structure Frame.Sound (P : Executable → Prop) (f : Frame) : Prop where
  body : P f.body
  position : f.position ≤ f.body.routine.code.size
  slots : f.locals.size = f.body.routine.names.size
  handlers : ∀ h ∈ f.handlers, h.Within f.body.routine.code.size
  operands : ∀ v ∈ f.operands, v.Over P
  locals : ∀ v ∈ f.locals, v.Over P
  cleanups : ∀ c ∈ f.cleanups, c.completion.Over P
  receiver : f.receiver.Over P

/-- A frame executes the instruction at its position and goes on behind it. -/
theorem Frame.fetch?_eq_some_iff {f g : Frame} {i : Instruction} :
    f.fetch? = some (i, g) ↔
      f.body.routine.code[f.position]? = some i ∧ g = { f with position := f.position + 1 } := by
  rw [Frame.fetch?, Option.map_eq_some_iff]
  constructor
  · rintro ⟨j, hj, heq⟩
    cases heq
    exact ⟨hj, rfl⟩
  · rintro ⟨hi, rfl⟩
    exact ⟨i, hi, rfl⟩

namespace Frame.Sound

variable {f : Frame}

theorem goto (h : f.Sound P) {position : Nat} (hp : position ≤ f.body.routine.code.size) :
    (f.goto position).Sound P :=
  { h with position := hp }

theorem push (h : f.Sound P) {v : Value} (hv : v.Over P) : (f.push v).Sound P := by
  refine { h with operands := ?_ }
  intro w hw
  rcases List.mem_cons.mp hw with rfl | hw
  · exact hv
  · exact h.operands w hw

theorem pop (h : f.Sound P) : f.pop.1.Over P ∧ f.pop.2.Sound P := by
  constructor
  · show (f.operands.headD .undefined).Over P
    have hall := h.operands
    cases hops : f.operands with
    | nil => trivial
    | cons v rest =>
      rw [hops] at hall
      exact hall v (List.mem_cons_self ..)
  · refine { h with operands := ?_ }
    intro w hw
    exact h.operands w (List.mem_of_mem_tail hw)

theorem popMany (h : f.Sound P) (count : Nat) :
    (∀ v ∈ (f.popMany count).1, v.Over P) ∧ (f.popMany count).2.Sound P := by
  constructor
  · intro v hv
    exact h.operands v (List.mem_of_mem_take (List.mem_reverse.mp hv))
  · refine { h with operands := ?_ }
    intro w hw
    exact h.operands w (List.mem_of_mem_drop hw)

theorem top (h : f.Sound P) : (f.top?.getD .undefined).Over P := by
  have hall := h.operands
  unfold Frame.top?
  cases hops : f.operands with
  | nil => trivial
  | cons v rest =>
    rw [hops] at hall
    exact hall v (List.mem_cons_self ..)

theorem truncate (h : f.Sound P) (height : Nat) : (f.truncate height).Sound P := by
  refine { h with operands := ?_ }
  intro w hw
  exact h.operands w (List.mem_of_mem_drop hw)

theorem getLocal (h : f.Sound P) (slot : UInt16) : (f.getLocal slot).Over P := by
  unfold Frame.getLocal Frame.local?
  cases hv : f.locals[slot.toNat]? with
  | none => trivial
  | some v => exact h.locals v (Array.mem_of_getElem? hv)

theorem setLocal (h : f.Sound P) (slot : UInt16) {v : Value} (hv : v.Over P) :
    (f.setLocal slot v).Sound P := by
  refine { h with slots := ?_, locals := ?_ }
  · show (f.locals.setIfInBounds slot.toNat v).size = f.body.routine.names.size
    rw [Array.size_setIfInBounds]
    exact h.slots
  · intro w hw
    rcases Array.mem_or_eq_of_mem_setIfInBounds hw with hw | rfl
    · exact h.locals w hw
    · exact hv

theorem dropHandlers (h : f.Sound P) {handlers : List Handler}
    (hsub : ∀ x ∈ handlers, x ∈ f.handlers) : { f with handlers }.Sound P :=
  { h with handlers := fun x hx => h.handlers x (hsub x hx) }

theorem pushHandler (h : f.Sound P) {catchAt finallyAt : Option Nat}
    (hc : TargetsWithin f.body.routine.code.size catchAt)
    (hf : TargetsWithin f.body.routine.code.size finallyAt) :
    (f.pushHandler catchAt finallyAt).Sound P := by
  refine { h with handlers := ?_ }
  intro x hx
  rcases List.mem_cons.mp hx with rfl | hx
  · exact ⟨hc, hf⟩
  · exact h.handlers x hx

theorem beginCleanup (h : f.Sound P) {completion : Completion} (hc : completion.Over P) :
    (f.beginCleanup completion).Sound P := by
  refine { h with cleanups := ?_ }
  intro x hx
  rcases List.mem_cons.mp hx with rfl | hx
  · exact hc
  · exact h.cleanups x hx

theorem abandonCleanups (h : f.Sound P) : f.abandonCleanups.Sound P := by
  refine { h with cleanups := ?_ }
  intro x hx
  exact h.cleanups x ((List.dropWhile_sublist _).subset hx)

theorem popHandler (h : f.Sound P) : f.popHandler.Sound P := by
  unfold Frame.popHandler
  cases hh : f.handlers with
  | nil => exact h
  | cons x rest =>
    have hrest : { f with handlers := rest }.Sound P := by
      apply h.dropHandlers
      intro y hy
      rw [hh]
      exact List.mem_cons_of_mem x hy
    dsimp only
    split
    · exact hrest.beginCleanup trivial
    · exact hrest

theorem endCleanup (h : f.Sound P) : f.endCleanup.1.Over P ∧ f.endCleanup.2.Sound P := by
  have hall := h.cleanups
  unfold Frame.endCleanup
  cases hc : f.cleanups with
  | nil => exact ⟨trivial, h⟩
  | cons c rest =>
    rw [hc] at hall
    refine ⟨hall c (List.mem_cons_self ..), { h with cleanups := ?_ }⟩
    intro x hx
    exact hall x (List.mem_cons_of_mem c hx)

/-- Leaving a try statement by a return. The induction is on the handlers that are left. -/
theorem routeReturnThrough (h : f.Sound P) {v : Value} (hv : v.Over P)
    {handlers : List Handler} (hall : ∀ x ∈ handlers, x.Within f.body.routine.code.size) :
    (Frame.routeReturnThrough v f handlers).2.Sound P := by
  induction handlers generalizing f with
  | nil => exact h.dropHandlers (by simp)
  | cons x rest ih =>
    have hrest : ∀ y ∈ rest, y.Within f.body.routine.code.size :=
      fun y hy => hall y (List.mem_cons_of_mem x hy)
    have hleft : { f with handlers := rest }.abandonCleanups.Sound P := by
      apply abandonCleanups
      exact { h with handlers := hrest }
    unfold Frame.routeReturnThrough
    dsimp only
    split
    · next target htarget =>
      have hwithin := (hall x (List.mem_cons_self ..)).2 target htarget
      have hpending : (Completion.return v).Over P := hv
      exact ((hleft.truncate x.height).beginCleanup hpending).goto hwithin
    · exact ih hleft hrest

theorem routeReturn (h : f.Sound P) {v : Value} (hv : v.Over P) : (f.routeReturn v).2.Sound P :=
  h.routeReturnThrough hv h.handlers

/-- Leaving a try statement by a throw. The induction is on the handlers that are left. -/
theorem routeThrowThrough (h : f.Sound P) {v : Value} (hv : v.Over P)
    {handlers : List Handler} (hall : ∀ x ∈ handlers, x.Within f.body.routine.code.size) :
    (Frame.routeThrowThrough v f handlers).2.Sound P := by
  induction handlers generalizing f with
  | nil => exact h.dropHandlers (by simp)
  | cons x rest ih =>
    have hx := hall x (List.mem_cons_self ..)
    have hrest : ∀ y ∈ rest, y.Within f.body.routine.code.size :=
      fun y hy => hall y (List.mem_cons_of_mem x hy)
    have hleft : ({ f with handlers := rest }.abandonCleanups.truncate x.height).Sound P := by
      apply truncate
      apply abandonCleanups
      exact { h with handlers := hrest }
    unfold Frame.routeThrowThrough
    dsimp only
    split
    · next target hcatch _ => exact Frame.Sound.goto (hleft.push hv) (hx.1 target hcatch)
    · next target cleanup hcatch hfinally =>
      -- the handler that stays behind has the finally block alone
      have hstays : Frame.Sound P
          { { f with handlers := rest }.abandonCleanups.truncate x.height with
            handlers := ⟨none, some cleanup, x.height⟩ :: rest } := by
        refine { hleft with handlers := ?_ }
        intro y hy
        rcases List.mem_cons.mp hy with rfl | hy
        · refine ⟨?_, fun t ht => hx.2 t (hfinally.trans ht)⟩
          rintro t ⟨⟩
        · exact hrest y hy
      exact Frame.Sound.goto (hstays.push hv) (hx.1 target hcatch)
    · next target _ hfinally =>
      have hpending : (Completion.throw v).Over P := hv
      exact Frame.Sound.goto (hleft.beginCleanup hpending)
        (hx.2 target hfinally)
    · exact ih hleft hrest

theorem routeThrow (h : f.Sound P) {v : Value} (hv : v.Over P) : (f.routeThrow v).2.Sound P :=
  h.routeThrowThrough hv h.handlers

/-- The frame behind an instruction that was fetched. -/
theorem fetch (h : f.Sound P) {i : Instruction} {g : Frame} (hi : f.fetch? = some (i, g)) :
    f.body.routine.code[f.position]? = some i ∧ g = { f with position := f.position + 1 } ∧
      g.Sound P := by
  obtain ⟨hj, rfl⟩ := Frame.fetch?_eq_some_iff.mp hi
  obtain ⟨hlt, -⟩ := Array.getElem?_eq_some_iff.mp hj
  exact ⟨hj, rfl, { h with position := hlt }⟩

end Frame.Sound

theorem Frame.sound_enter {e : Executable} {scope : Id .scope} {receiver : Value}
    {args : List Value} (he : P e) (hr : receiver.Over P) (ha : ∀ v ∈ args, v.Over P) :
    (Frame.enter e scope receiver args).Sound P where
  body := he
  position := Nat.zero_le _
  slots := by simp [Frame.enter]
  handlers := by simp [Frame.enter]
  operands := by simp [Frame.enter]
  locals := by
    intro v hv
    simp only [Frame.enter, Array.mem_ofFn] at hv
    obtain ⟨slot, rfl⟩ := hv
    rw [Array.getD_eq_getD_getElem?, List.getElem?_toArray]
    cases hget : (args.take e.routine.paramCount)[slot.val]? with
    | none => trivial
    | some w => exact ha w (List.mem_of_mem_take (List.mem_of_getElem? hget))
  cleanups := by simp [Frame.enter]
  receiver := hr

/-! ## Bodies

A frame never changes the code that it runs. -/

namespace Frame

variable (f : Frame)

theorem body_routeReturnThrough (v : Value) (handlers : List Handler) :
    (routeReturnThrough v f handlers).2.body = f.body := by
  induction handlers generalizing f with
  | nil => rfl
  | cons h rest ih =>
    unfold routeReturnThrough
    dsimp only
    split
    · rfl
    · exact ih _

theorem body_routeThrowThrough (v : Value) (handlers : List Handler) :
    (routeThrowThrough v f handlers).2.body = f.body := by
  induction handlers generalizing f with
  | nil => rfl
  | cons h rest ih =>
    unfold routeThrowThrough
    dsimp only
    split
    · rfl
    · rfl
    · rfl
    · exact ih _

theorem body_popHandler : f.popHandler.body = f.body := by
  unfold popHandler
  cases f.handlers with
  | nil => rfl
  | cons h rest =>
    dsimp only
    split <;> rfl

theorem body_endCleanup : f.endCleanup.2.body = f.body := by
  unfold endCleanup
  cases f.cleanups <;> rfl

theorem body_perform (i : Instruction) (m : Store σ) : (f.perform i m).2.1.body = f.body := by
  cases i with
  | loadName name =>
    simp only [perform]
    split <;> rfl
  | storeName name =>
    simp only [perform]
    split <;> rfl
  | jumpIfFalse target =>
    simp only [perform]
    split <;> rfl
  | closure index =>
    simp only [perform]
    split <;> rfl
  | exitTry => exact f.body_popHandler
  | _ => rfl

end Frame

end ScriptMachine
