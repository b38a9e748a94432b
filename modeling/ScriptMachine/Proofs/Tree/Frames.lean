import ScriptMachine.Proofs.Machine.Rules
import ScriptMachine.Proofs.Tree.Heights

/-!
# Frames that run compiled code

Compiled code has no try statements and is never that of a generator, so a frame that runs it is
left by all that is thrown or returned. A rule for such frames comes down to what is asked of one
that may execute and of one that waits for a value (`Compile.codeRule`), and what is left to show
is that straight-line instructions and calls keep it (`Compile.allows_codeRule`).
-/

namespace ScriptMachine

open Compile

variable {σ : Type}

/-- What the compiler makes of a body. -/
def Routine.IsCompiled (r : Routine) : Prop := ∃ strict level body, IsBody strict level body r

namespace Routine.IsCompiled

variable {r : Routine}

theorem isGenerator (h : r.IsCompiled) : r.isGenerator = false := by
  obtain ⟨strict, level, body, h⟩ := h
  exact h.isGenerator

/-- Compiled code goes on to the next instruction, calls or returns. -/
theorem isStraight_or (h : r.IsCompiled) {position : Nat} {i : Instruction}
    (hi : r.code[position]? = some i) :
    i.isStraight = true ∨ (∃ count, i = .call count) ∨ i = .ret := by
  obtain ⟨strict, level, body, h⟩ := h
  cases h.isEmitted (Array.mem_of_getElem? hi) with
  | call count => exact .inr (.inl ⟨count, rfl⟩)
  | ret => exact .inr (.inr rfl)
  | use u =>
    refine .inl ?_
    rw [Use.instruction]
    split <;> cases u <;> rfl
  | _ => exact .inl rfl

/-- An instruction of compiled code finds its operands where it stands. -/
theorem operands (h : r.IsCompiled) {position : Nat} {i : Instruction}
    (hi : r.code[position]? = some i) :
    i.pops ≤ r.heightAt position ∧ (i = .ret → r.heightAt position = 1) := by
  obtain ⟨strict, level, body, h⟩ := h
  have hi' : r.code.toList[position]? = some i := by
    rw [Array.getElem?_toList]
    exact hi
  exact h.fits.getElem? hi'

end Routine.IsCompiled

/-- A straight-line instruction works on the operands and slots of its frame alone. -/
theorem Frame.exists_perform_eq (f : Frame) {i : Instruction} (hi : i.isStraight = true)
    (m : Store σ) : ∃ operands locals, (f.perform i m).2.1 = { f with operands, locals } := by
  cases i with
  | loadName name =>
    simp only [perform]
    split <;> exact ⟨_, _, rfl⟩
  | storeName name =>
    simp only [perform]
    split <;> exact ⟨_, _, rfl⟩
  | closure index =>
    simp only [perform]
    split <;> exact ⟨_, _, rfl⟩
  | jump | jumpIfFalse | enterTry | exitTry | call | ret | yield | endFinally | throw => cases hi
  | _ => exact ⟨_, _, rfl⟩

namespace Compile

variable {C : Routine → Prop} {hC : ∀ r, C r → r.IsCompiled} {P Q : Frame → Prop}
  {hentered : ∀ e scope receiver args, P (Frame.enter e scope receiver args)}
  {hresumed : ∀ f, Q f → ∀ v, P (f.push v)}

/-- A rule for frames that run some compiled routines: one property is asked of those that may
execute, another of those that wait for a value. -/
def codeRule (C : Routine → Prop) (hC : ∀ r, C r → r.IsCompiled) (P Q : Frame → Prop)
    (hentered : ∀ e scope receiver args, P (Frame.enter e scope receiver args))
    (hresumed : ∀ f, Q f → ∀ v, P (f.push v)) : FrameRule where
  ready f := C f.body.routine → f.handlers = [] ∧ P f
  waiting f := C f.body.routine → f.handlers = [] ∧ Q f
  left f := C f.body.routine → f.handlers = []
  entered e scope receiver args := fun _ => ⟨rfl, hentered e scope receiver args⟩
  generator {f} h := by
    have hnot : ¬ C f.body.routine := by
      intro hf
      rw [(hC _ hf).isGenerator] at h
      cases h
    exact ⟨fun hf => absurd hf hnot, fun hf => absurd hf hnot⟩
  resumed {f} h v := fun hf => ⟨(h hf).1, hresumed f (h hf).2 v⟩
  left_of_waiting h := fun hf => (h hf).1
  thrown {f} h v hgoes := by
    intro hf
    rw [Frame.routeThrow, Frame.body_routeThrowThrough] at hf
    rw [Frame.routeThrow, h hf] at hgoes
    cases hgoes
  returned {f} h v hgoes := by
    intro hf
    rw [Frame.routeReturn, Frame.body_routeReturnThrough] at hf
    rw [Frame.routeReturn, h hf] at hgoes
    cases hgoes

variable {f : Frame} {i : Instruction}

/-- A frame that runs other code is under no rule. -/
theorem allows_of_not (hnot : ¬ C f.body.routine) (i : Instruction) (m : Store σ) :
    (codeRule C hC P Q hentered hresumed).Allows m f i := by
  have hleft {g : Frame} (hg : g.body = f.body) :
      (codeRule C hC P Q hentered hresumed).left g := fun h => absurd (hg ▸ h) hnot
  have hready {g : Frame} (hg : g.body = f.body) :
      (codeRule C hC P Q hentered hresumed).ready g := fun h => absurd (hg ▸ h) hnot
  cases i with
  | call count => exact fun h => absurd h hnot
  | ret | throw | yield => exact hleft rfl
  | endFinally => exact ⟨hready f.body_endCleanup, hleft f.body_endCleanup⟩
  | _ => exact ⟨hleft (f.body_perform _ m), fun _ => hready (f.body_perform _ m)⟩

/-- An instruction keeps a rule for compiled code if it leads on from the one property to itself or
to the other. -/
theorem allows_codeRule {m : Store σ} (hready : (codeRule C hC P Q hentered hresumed).ready f)
    (hi : f.body.routine.code[f.position]? = some i)
    (hstraight : C f.body.routine → P f → i.isStraight = true → ∀ g,
      g = { f with position := f.position + 1 } → (g.perform i m).1 = .ok () →
        P (g.perform i m).2.1)
    (hcall : C f.body.routine → P f → ∀ count, i = .call count →
      Q (Frame.afterCall { f with position := f.position + 1 } count.toNat)) :
    (codeRule C hC P Q hentered hresumed).Allows m { f with position := f.position + 1 } i := by
  by_cases hf : C f.body.routine
  · obtain ⟨hhandlers, hP⟩ := hready hf
    rcases (hC _ hf).isStraight_or hi with hi | ⟨count, rfl⟩ | rfl
    · obtain ⟨operands, locals, heq⟩ :=
        Frame.exists_perform_eq { f with position := f.position + 1 } hi m
      have hsame : (Frame.perform { f with position := f.position + 1 } i m).2.1.handlers = [] := by
        rw [heq]
        exact hhandlers
      rw [FrameRule.allows_iff_of_isOwn _ (Instruction.isOwn_of_isStraight hi)]
      exact ⟨fun _ => hsame, fun hok _ => ⟨hsame, hstraight hf hP hi _ rfl hok⟩⟩
    · exact fun _ => ⟨hhandlers, hcall hf hP count rfl⟩
    · exact fun _ => hhandlers
  · exact allows_of_not (f := { f with position := f.position + 1 }) hf i m

end Compile

end ScriptMachine
