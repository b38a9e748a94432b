import Mathlib.Data.List.Forall2
import ScriptMachine.Abrupt
import ScriptMachine.Proofs.Ropes.Value

/-!
# Frames up to the form of their strings

Frames are alike if they are at the same place of the same code, with the same handlers, and hold
alike values. Whatever a frame does with its values, alike frames do the same and stay alike.
-/

namespace ScriptMachine

variable {W W' : Labellings}

/-! ## Optional values and lists -/

theorem rel_mono {α β : Type} {R T : α → β → Prop} (hRT : ∀ a b, R a b → T a b)
    {x : Option α} {y : Option β} (h : Option.Rel R x y) : Option.Rel T x y := by
  cases h with
  | some h => exact .some (hRT _ _ h)
  | none => exact .none

theorem rel_map {α β γ δ : Type} {R : α → β → Prop} {T : γ → δ → Prop} {f : α → γ} {g : β → δ}
    (hfg : ∀ a b, R a b → T (f a) (g b)) {x : Option α} {y : Option β} (h : Option.Rel R x y) :
    Option.Rel T (x.map f) (y.map g) := by
  cases h with
  | some h => exact .some (hfg _ _ h)
  | none => exact .none

theorem rel_getD {α β : Type} {R : α → β → Prop} {x : Option α} {y : Option β}
    (h : Option.Rel R x y) {a : α} {b : β} (hab : R a b) : R (x.getD a) (y.getD b) := by
  cases h with
  | some h => exact h
  | none => exact hab

theorem rel_getElem? {α β : Type} {R : α → β → Prop} {l : List α} {k : List β}
    (h : List.Forall₂ R l k) (i : Nat) : Option.Rel R l[i]? k[i]? := by
  induction h generalizing i with
  | nil => exact .none
  | cons hab _ ih =>
    cases i with
    | zero => exact .some hab
    | succ i => exact ih i

/-- Values one by one. -/
abbrev ValuesAlike (W : Labellings) : List Value → List Value → Prop :=
  List.Forall₂ (Value.Alike W)

theorem ValuesAlike.mono {l k : List Value} (h : ValuesAlike W l k) (hle : W ≤ W') :
    ValuesAlike W' l k := h.imp fun _ _ h => h.mono hle

theorem ValuesAlike.headD {l k : List Value} (h : ValuesAlike W l k) :
    (l.headD .undefined).Alike W (k.headD .undefined) := by
  cases h with
  | nil => exact .plain rfl
  | cons h _ => exact h

theorem ValuesAlike.tail {l k : List Value} (h : ValuesAlike W l k) :
    ValuesAlike W l.tail k.tail := by
  cases h with
  | nil => exact .nil
  | cons _ h => exact h

/-! ## Abrupt ends -/

/-- The same end, or alike values were thrown. -/
inductive Abrupt.Alike (W : Labellings) : Abrupt → Abrupt → Prop
  | thrown {v w : Value} (h : v.Alike W w) : Abrupt.Alike W (.thrown v) (.thrown w)
  | other {e : Abrupt} (h : e.isCatchable = false) : Abrupt.Alike W e e

theorem Abrupt.alike_error (kind text : String) :
    (Abrupt.error kind text).Alike W (Abrupt.error kind text) := .thrown (Value.alike_text W _)

theorem Abrupt.Alike.message {e e' : Abrupt} (h : e.Alike W e') :
    Flattening.Alike W Eq e.message e'.message := by
  cases h with
  | thrown h =>
    apply h.display.bind
    rintro s _ rfl
    exact .pure rfl
  | other h =>
    cases e with
    | thrown v => cases h
    | _ => exact .pure rfl

/-- Both end with related results, or both abruptly and alike. -/
inductive EndsAlike (W : Labellings) {α β : Type} (R : α → β → Prop) :
    Except Abrupt α → Except Abrupt β → Prop
  | ok {a : α} {b : β} (h : R a b) : EndsAlike W R (.ok a) (.ok b)
  | error {e e' : Abrupt} (h : e.Alike W e') : EndsAlike W R (.error e) (.error e')

/-! ## Frames -/

/-- The same kind of end led into a finally block, with alike values. -/
inductive Completion.Alike (W : Labellings) : Completion → Completion → Prop
  | normal : Completion.Alike W .normal .normal
  | throw {v w : Value} (h : v.Alike W w) : Completion.Alike W (.throw v) (.throw w)
  | return {v w : Value} (h : v.Alike W w) : Completion.Alike W (.return v) (.return w)

/-- The same finally block runs, and goes on alike. -/
structure Cleanup.Alike (W : Labellings) (c d : Cleanup) : Prop where
  completion : c.completion.Alike W d.completion
  depth : c.depth = d.depth

/-- The same place of the same code, with alike values. -/
structure Frame.Alike (W : Labellings) (f g : Frame) : Prop where
  body : f.body = g.body
  position : f.position = g.position
  operands : ValuesAlike W f.operands g.operands
  slots : f.locals.size = g.locals.size
  locals : ∀ i : Nat, Option.Rel (Value.Alike W) f.locals[i]? g.locals[i]?
  handlers : f.handlers = g.handlers
  cleanups : List.Forall₂ (Cleanup.Alike W) f.cleanups g.cleanups
  scope : f.scope = g.scope
  receiver : f.receiver.Alike W g.receiver

theorem Completion.Alike.mono {c d : Completion} (h : c.Alike W d) (hle : W ≤ W') :
    c.Alike W' d := by
  cases h with
  | normal => exact .normal
  | throw h => exact .throw (h.mono hle)
  | «return» h => exact .return (h.mono hle)

theorem Cleanup.Alike.mono {c d : Cleanup} (h : c.Alike W d) (hle : W ≤ W') : c.Alike W' d :=
  ⟨h.completion.mono hle, h.depth⟩

/-- Blocks are abandoned by their depth alone. -/
theorem Cleanup.alike_dropWhile {l k : List Cleanup} (h : List.Forall₂ (Cleanup.Alike W) l k)
    (n : Nat) :
    List.Forall₂ (Cleanup.Alike W) (l.dropWhile (n < ·.depth)) (k.dropWhile (n < ·.depth)) := by
  induction h with
  | nil => exact .nil
  | cons hcd hrest ih =>
    simp only [List.dropWhile_cons, hcd.depth]
    split
    · exact ih
    · exact .cons hcd hrest

namespace Frame.Alike

variable {f g : Frame} {v w : Value}

theorem mono (h : f.Alike W g) (hle : W ≤ W') : f.Alike W' g where
  body := h.body
  position := h.position
  operands := h.operands.mono hle
  slots := h.slots
  locals i := rel_mono (fun _ _ h => h.mono hle) (h.locals i)
  handlers := h.handlers
  cleanups := h.cleanups.imp fun _ _ h => h.mono hle
  scope := h.scope
  receiver := h.receiver.mono hle

theorem height (h : f.Alike W g) : f.height = g.height := h.operands.length_eq

theorem goto (h : f.Alike W g) (position : Nat) : (f.goto position).Alike W (g.goto position) :=
  { h with position := rfl }

theorem push (h : f.Alike W g) (hv : v.Alike W w) : (f.push v).Alike W (g.push w) :=
  { h with operands := .cons hv h.operands }

theorem pop (h : f.Alike W g) : f.pop.1.Alike W g.pop.1 ∧ f.pop.2.Alike W g.pop.2 :=
  ⟨h.operands.headD, { h with operands := h.operands.tail }⟩

theorem popMany (h : f.Alike W g) (count : Nat) :
    ValuesAlike W (f.popMany count).1 (g.popMany count).1 ∧
      (f.popMany count).2.Alike W (g.popMany count).2 :=
  ⟨List.forall₂_reverse_iff.mpr (List.forall₂_take count h.operands),
    { h with operands := List.forall₂_drop count h.operands }⟩

theorem top (h : f.Alike W g) : (f.top?.getD .undefined).Alike W (g.top?.getD .undefined) := by
  unfold Frame.top?
  rw [List.head?_eq_getElem?, List.head?_eq_getElem?]
  exact rel_getD (rel_getElem? h.operands 0) (.plain rfl)

theorem truncate (h : f.Alike W g) (height : Nat) :
    (f.truncate height).Alike W (g.truncate height) := by
  refine { h with operands := ?_ }
  show ValuesAlike W (f.operands.drop (f.height - height)) (g.operands.drop (g.height - height))
  rw [h.height]
  exact List.forall₂_drop _ h.operands

theorem getLocal (h : f.Alike W g) (slot : UInt16) : (f.getLocal slot).Alike W (g.getLocal slot) :=
  rel_getD (h.locals slot.toNat) (.plain rfl)

theorem setLocal (h : f.Alike W g) (slot : UInt16) (hv : v.Alike W w) :
    (f.setLocal slot v).Alike W (g.setLocal slot w) := by
  refine { h with slots := ?_, locals := ?_ }
  · show (f.locals.setIfInBounds slot.toNat v).size = (g.locals.setIfInBounds slot.toNat w).size
    rw [Array.size_setIfInBounds, Array.size_setIfInBounds, h.slots]
  · intro i
    show Option.Rel (Value.Alike W) (f.locals.setIfInBounds slot.toNat v)[i]?
      (g.locals.setIfInBounds slot.toNat w)[i]?
    rw [Array.getElem?_setIfInBounds, Array.getElem?_setIfInBounds, h.slots]
    split
    · split
      · exact .some hv
      · exact .none
    · exact h.locals i

theorem pushHandler (h : f.Alike W g) (catchAt finallyAt : Option Nat) :
    (f.pushHandler catchAt finallyAt).Alike W (g.pushHandler catchAt finallyAt) := by
  refine { h with handlers := ?_ }
  show Handler.mk catchAt finallyAt f.height :: f.handlers = ⟨catchAt, finallyAt, g.height⟩ :: _
  rw [h.height, h.handlers]

theorem withHandlers (h : f.Alike W g) (handlers : List Handler) :
    { f with handlers }.Alike W { g with handlers } := { h with handlers := rfl }

theorem beginCleanup (h : f.Alike W g) {c d : Completion} (hcd : c.Alike W d) :
    (f.beginCleanup c).Alike W (g.beginCleanup d) :=
  { h with cleanups := .cons ⟨hcd, congrArg List.length h.handlers⟩ h.cleanups }

theorem abandonCleanups (h : f.Alike W g) : f.abandonCleanups.Alike W g.abandonCleanups := by
  refine { h with cleanups := ?_ }
  show List.Forall₂ (Cleanup.Alike W) (f.cleanups.dropWhile (f.handlers.length < ·.depth))
    (g.cleanups.dropWhile (g.handlers.length < ·.depth))
  rw [h.handlers]
  exact Cleanup.alike_dropWhile h.cleanups _

theorem popHandler (h : f.Alike W g) : f.popHandler.Alike W g.popHandler := by
  unfold Frame.popHandler
  rw [← h.handlers]
  cases f.handlers with
  | nil => exact h
  | cons x rest =>
    dsimp only
    split
    · exact (h.withHandlers rest).beginCleanup .normal
    · exact h.withHandlers rest

theorem endCleanup (h : f.Alike W g) :
    f.endCleanup.1.Alike W g.endCleanup.1 ∧ f.endCleanup.2.Alike W g.endCleanup.2 := by
  have hcleanups := h.cleanups
  unfold Frame.endCleanup
  cases hf : f.cleanups with
  | nil =>
    rw [hf] at hcleanups
    cases hg : g.cleanups with
    | nil => exact ⟨.normal, h⟩
    | cons d k =>
      rw [hg] at hcleanups
      cases hcleanups
  | cons c l =>
    rw [hf] at hcleanups
    cases hg : g.cleanups with
    | nil =>
      rw [hg] at hcleanups
      cases hcleanups
    | cons d k =>
      rw [hg] at hcleanups
      cases hcleanups with
      | cons hcd hrest => exact ⟨hcd.completion, { h with cleanups := hrest }⟩

/-- Leaving a try statement by a return. The induction is on the handlers that are left. -/
theorem routeReturnThrough (h : f.Alike W g) (hv : v.Alike W w) (handlers : List Handler) :
    (Frame.routeReturnThrough v f handlers).1 = (Frame.routeReturnThrough w g handlers).1 ∧
      (Frame.routeReturnThrough v f handlers).2.Alike W
        (Frame.routeReturnThrough w g handlers).2 := by
  induction handlers generalizing f g with
  | nil => exact ⟨rfl, h.withHandlers []⟩
  | cons x rest ih =>
    have hleft := (h.withHandlers rest).abandonCleanups
    unfold Frame.routeReturnThrough
    cases x.finallyAt with
    | some target => exact ⟨rfl, ((hleft.truncate x.height).beginCleanup (.return hv)).goto target⟩
    | none => exact ih hleft

theorem routeReturn (h : f.Alike W g) (hv : v.Alike W w) :
    (f.routeReturn v).1 = (g.routeReturn w).1 ∧
      (f.routeReturn v).2.Alike W (g.routeReturn w).2 := by
  unfold Frame.routeReturn
  rw [h.handlers]
  exact h.routeReturnThrough hv g.handlers

/-- Leaving a try statement by a throw. The induction is on the handlers that are left. -/
theorem routeThrowThrough (h : f.Alike W g) (hv : v.Alike W w) (handlers : List Handler) :
    (Frame.routeThrowThrough v f handlers).1 = (Frame.routeThrowThrough w g handlers).1 ∧
      (Frame.routeThrowThrough v f handlers).2.Alike W
        (Frame.routeThrowThrough w g handlers).2 := by
  induction handlers generalizing f g with
  | nil => exact ⟨rfl, h.withHandlers []⟩
  | cons x rest ih =>
    have hleft := (h.withHandlers rest).abandonCleanups.truncate x.height
    unfold Frame.routeThrowThrough
    cases x.catchAt with
    | some target =>
      cases x.finallyAt with
      | some cleanup =>
        have hstays := hleft.withHandlers (⟨none, some cleanup, x.height⟩ :: rest)
        exact ⟨rfl, (hstays.push hv).goto target⟩
      | none => exact ⟨rfl, (hleft.push hv).goto target⟩
    | none =>
      cases x.finallyAt with
      | some target => exact ⟨rfl, (hleft.beginCleanup (.throw hv)).goto target⟩
      | none => exact ih hleft

theorem routeThrow (h : f.Alike W g) (hv : v.Alike W w) :
    (f.routeThrow v).1 = (g.routeThrow w).1 ∧
      (f.routeThrow v).2.Alike W (g.routeThrow w).2 := by
  unfold Frame.routeThrow
  rw [h.handlers]
  exact h.routeThrowThrough hv g.handlers

/-- The same instruction is fetched. -/
theorem fetch (h : f.Alike W g) : Option.Rel (fun p q => p.1 = q.1 ∧ p.2.Alike W q.2)
    f.fetch? g.fetch? := by
  have hcode : f.body.routine.code[f.position]? = g.body.routine.code[g.position]? := by
    rw [h.body, h.position]
  unfold Frame.fetch?
  rw [hcode]
  cases g.body.routine.code[g.position]? with
  | none => exact .none
  | some i => exact .some ⟨rfl, { h with position := congrArg (· + 1) h.position }⟩

end Frame.Alike

theorem Frame.alike_enter (e : Executable) (scope : Id .scope) {receiver receiver' : Value}
    {args args' : List Value} (hr : receiver.Alike W receiver') (ha : ValuesAlike W args args') :
    (Frame.enter e scope receiver args).Alike W (Frame.enter e scope receiver' args') where
  body := rfl
  position := rfl
  operands := .nil
  slots := by simp [Frame.enter]
  locals := by
    intro i
    simp only [Frame.enter, Array.getElem?_ofFn]
    split
    · apply Option.Rel.some
      rw [Array.getD_eq_getD_getElem?, Array.getD_eq_getD_getElem?, List.getElem?_toArray,
        List.getElem?_toArray]
      exact rel_getD (rel_getElem? (List.forall₂_take _ ha) _) (.plain rfl)
    · exact .none
  handlers := rfl
  cleanups := .nil
  scope := rfl
  receiver := hr

end ScriptMachine
