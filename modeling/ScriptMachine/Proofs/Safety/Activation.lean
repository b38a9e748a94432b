import ScriptMachine.Proofs.Machine.Moves
import ScriptMachine.Proofs.Safety.Frame

/-!
# Sound activations

All frames of a sound activation are sound, there is at least one, and only the outermost frame
of a generator is that of a generator function. `Activation.execute_sound` says that an
instruction keeps this, given a sound store.
-/

namespace ScriptMachine

variable {σ : Type} {P : Executable → Prop} {Q : σ → Prop}

/-! ## Sound stores -/

/-- A property of everything in a table. -/
def Table.All {noun : Noun} {α : Type} (p : α → Prop) (t : Table noun α) : Prop :=
  ∀ id a, t.get? id = some a → p a

namespace Table.All

variable {noun : Noun} {α : Type} {p : α → Prop} {t : Table noun α}

theorem get [Inhabited α] (h : t.All p) (hd : p default) (id : Id noun) : p (t.get id) := by
  unfold Table.get
  cases ha : t.get? id with
  | none => exact hd
  | some a => exact h id a ha

theorem insert (h : t.All p) {a : α} (ha : p a) : (t.insert a).2.All p := by
  intro id b hb
  rw [Table.get?_insert] at hb
  split at hb
  · cases hb
    exact ha
  · exact h id b hb

theorem modify (h : t.All p) (id : Id noun) {f : α → α} (hf : ∀ a, p a → p (f a)) :
    (t.modify id f).All p := by
  intro other b hb
  rw [Table.get?_modify] at hb
  split at hb
  · rw [Option.map_eq_some_iff] at hb
    obtain ⟨a, ha, rfl⟩ := hb
    exact hf a (h other a ha)
  · exact h other b hb

theorem set (h : t.All p) (id : Id noun) {a : α} (ha : p a) : (t.set id a).All p :=
  h.modify id fun _ _ => ha

end Table.All

/-- The values bound in a scope are over a set. -/
def Scope.Over (P : Executable → Prop) (s : Scope) : Prop := ∀ b ∈ s.bindings, b.2.Over P

/-- The frames of an activation: only the outermost may be that of a generator function. -/
def FramesFit (isGenerator : Bool) : List Frame → Prop
  | [] => False
  | [f] => f.body.routine.isGenerator = isGenerator
  | f :: callers => f.body.routine.isGenerator = false ∧ FramesFit isGenerator callers

/-- The frame of a suspended generator is sound and belongs to a generator function. -/
def GeneratorState.Sound (P : Executable → Prop) (s : GeneratorState) : Prop :=
  ∀ f, s.frame = some f → f.Sound P ∧ f.body.routine.isGenerator = true

/-- The frames of a captured continuation are those of an activation. -/
def CaptureState.Sound (P : Executable → Prop) : CaptureState → Prop
  | .captured frames => (∀ f ∈ frames, f.Sound P) ∧ FramesFit false frames
  | .pending | .resumed => True

/-- The value that is kept aside is over a set. -/
def Resumption.Over (P : Executable → Prop) (r : Resumption) : Prop :=
  ∀ v, r.value = some v → v.Over P

/-- All that a store holds is sound, and the state of the host has a property of its own. -/
structure Store.Sound (P : Executable → Prop) (Q : σ → Prop) (m : Store σ) : Prop where
  scopes : m.scopes.All (Scope.Over P)
  generators : m.generators.All (GeneratorState.Sound P)
  continuations : m.continuations.All (CaptureState.Sound P)
  resumptions : m.resumptions.All (Resumption.Over P)
  host : Q m.host

/-! ## Scopes -/

theorem Scope.over_define {s : Scope} (h : s.Over P) (name : String) {v : Value}
    (hv : v.Over P) : (s.define name v).Over P := by
  have hassign : ∀ l : List (String × Value), (∀ b ∈ l, b.2.Over P) →
      ∀ b ∈ Scope.assign name v l, b.2.Over P := by
    intro l
    induction l with
    | nil =>
      intro _ b hb
      rcases List.mem_singleton.mp hb with rfl
      exact hv
    | cons c rest ih =>
      intro hl b hb
      unfold Scope.assign at hb
      split at hb
      · rcases List.mem_cons.mp hb with rfl | hb
        · exact hv
        · exact hl b (List.mem_cons_of_mem c hb)
      · rcases List.mem_cons.mp hb with rfl | hb
        · exact hl b (List.mem_cons_self ..)
        · exact ih (fun d hd => hl d (List.mem_cons_of_mem c hd)) b hb
  exact hassign s.bindings h

theorem Scope.over_find {s : Scope} (h : s.Over P) {name : String} {v : Value}
    (hv : s.find? name = some v) : v.Over P := by
  unfold Scope.find? at hv
  obtain ⟨l, r, heq, -⟩ := List.lookup_eq_some_iff.mp hv
  apply h (name, v)
  rw [heq]
  simp

theorem Scope.over_default : (default : Scope).Over P := by
  intro b hb
  cases hb

namespace Scopes

variable {t : Scopes}

theorem over_get (h : t.All (Scope.Over P)) (s : Id .scope) : (t.get s).Over P :=
  h.get Scope.over_default s

theorem over_find (h : t.All (Scope.Over P)) {s : Id .scope} {name : String} {v : Value}
    (hv : t.find? s name = some v) : v.Over P := by
  unfold Scopes.find? at hv
  obtain ⟨owner, -, howner⟩ := List.exists_of_findSome?_eq_some hv
  exact Scope.over_find (over_get h owner) howner

theorem over_define (h : t.All (Scope.Over P)) (s : Id .scope) (name : String) {v : Value}
    (hv : v.Over P) : (t.define s name v).All (Scope.Over P) :=
  h.modify s fun _ hs => Scope.over_define hs name hv

theorem over_put (h : t.All (Scope.Over P)) (s : Id .scope) (name : String) {v : Value}
    (hv : v.Over P) : (t.put s name v).All (Scope.Over P) := over_define h _ name hv

theorem over_delete (h : t.All (Scope.Over P)) (s : Id .scope) (name : String) :
    (∀ v, (t.delete s name).1 = some v → v.Over P) ∧ (t.delete s name).2.All (Scope.Over P) := by
  constructor
  · intro v hv
    exact Scope.over_find (over_get h s) hv
  · apply h.modify s
    intro x hx b hb
    exact hx b (List.mem_filter.mp hb).1

theorem over_create (h : t.All (Scope.Over P)) (parent : Option (Id .scope)) :
    (t.create parent).2.All (Scope.Over P) := by
  apply h.insert
  intro b hb
  cases hb

end Scopes

namespace Store.Sound

variable {m : Store σ}

theorem setScopes (h : m.Sound P Q) {scopes : Scopes} (hs : scopes.All (Scope.Over P)) :
    { m with scopes }.Sound P Q := { h with scopes := hs }

theorem flattening (h : m.Sound P Q) {α : Type} (c : Flattening α) :
    (m.flattening c).2.Sound P Q :=
  ⟨h.scopes, h.generators, h.continuations, h.resumptions, h.host⟩

theorem fresh (h : m.Sound P Q) (noun : Noun) : (m.fresh noun).2.Sound P Q :=
  ⟨h.scopes, h.generators, h.continuations, h.resumptions, h.host⟩

theorem modifyContext (h : m.Sound P Q) (c : Id .context) (f : Context → Context) :
    (m.modifyContext c f).Sound P Q :=
  ⟨h.scopes, h.generators, h.continuations, h.resumptions, h.host⟩

theorem setContinuation (h : m.Sound P Q) (k : Id .continuation) {s : CaptureState}
    (hs : s.Sound P) : { m with continuations := m.continuations.set k s }.Sound P Q :=
  { h with continuations := h.continuations.set k hs }

theorem setGenerator (h : m.Sound P Q) (g : Id .generator) {s : GeneratorState}
    (hs : s.Sound P) : { m with generators := m.generators.set g s }.Sound P Q :=
  { h with generators := h.generators.set g hs }

theorem newGenerator (h : m.Sound P Q) {f : Frame} (hf : f.Sound P)
    (hg : f.body.routine.isGenerator = true) : (m.newGenerator f).2.Sound P Q := by
  refine { h with generators := h.generators.insert ?_ }
  rintro g ⟨⟩
  exact ⟨hf, hg⟩

end Store.Sound

/-! ## One frame -/

/-- What is made in the course of an instruction. -/
def Frame.Makes (f : Frame) (i : Instruction) (m : Store σ) (e : Executable) : Prop :=
  ∃ index, i = .closure index ∧ f.body.nested? (m.fresh .executable).1 index.toNat = some e

/-- An instruction of one frame keeps it sound, in a sound store. -/
theorem Frame.Sound.perform {f g : Frame} (h : f.Sound P) {i : Instruction}
    (hi : f.fetch? = some (i, g)) {m : Store σ} (hm : m.Sound P Q)
    (hmake : ∀ e, f.Makes i m e → P e) :
    (∀ e, (g.perform i m).1 = .error e → e.Over P) ∧ (g.perform i m).2.1.Sound P ∧
      (g.perform i m).2.2.Sound P Q := by
  obtain ⟨hcode, rfl, hg⟩ := h.fetch hi
  have hvalid := f.body.valid
  have hok : ∀ e, (Except.ok () : Except Abrupt Unit) = .error e → e.Over P := nofun
  cases i with
  | undefined | null | bool | number | text => exact ⟨hok, hg.push trivial, hm⟩
  | loadName name =>
    simp only [Frame.perform]
    split
    · next v hv => exact ⟨hok, hg.push (Scopes.over_find hm.scopes hv), hm⟩
    · refine ⟨?_, hg, hm⟩
      rintro e ⟨⟩
      exact Abrupt.over_referenceError _
  | storeName name =>
    simp only [Frame.perform]
    split
    · refine ⟨?_, hg.pop.2, hm⟩
      rintro e ⟨⟩
      exact Abrupt.over_referenceError _
    · exact ⟨hok, hg.pop.2, hm.setScopes (Scopes.over_put hm.scopes _ _ hg.pop.1)⟩
  | defineName name =>
    exact ⟨hok, hg.pop.2, hm.setScopes (Scopes.over_define hm.scopes _ _ hg.pop.1)⟩
  | loadLocal slot => exact ⟨hok, hg.push (hg.getLocal slot), hm⟩
  | storeLocal slot => exact ⟨hok, hg.pop.2.setLocal slot hg.pop.1, hm⟩
  | loadThis => exact ⟨hok, hg.push hg.receiver, hm⟩
  | pop => exact ⟨hok, hg.pop.2, hm⟩
  | dup => exact ⟨hok, hg.push hg.top, hm⟩
  | binary op =>
    exact ⟨hok, hg.pop.2.pop.2.push (Value.over_applyBinary _ _ _ _), hm.flattening _⟩
  | not => exact ⟨hok, hg.pop.2.push trivial, hm⟩
  | jump target => exact ⟨hok, hg.goto (hvalid.jump_le hcode), hm⟩
  | jumpIfFalse target =>
    simp only [Frame.perform]
    split
    · exact ⟨hok, hg.pop.2, hm⟩
    · exact ⟨hok, hg.pop.2.goto (hvalid.jumpIfFalse_le hcode), hm⟩
  | closure index =>
    simp only [Frame.perform]
    split
    · next e he => exact ⟨hok, hg.push (hmake e ⟨index, rfl, he⟩), hm.fresh .executable⟩
    · refine ⟨?_, hg, hm.fresh .executable⟩
      rintro e ⟨⟩
      trivial
  | enterTry catchAt finallyAt =>
    obtain ⟨hc, hf⟩ := hvalid.targets_of_enterTry hcode
    exact ⟨hok, hg.pushHandler hc hf, hm⟩
  | exitTry => exact ⟨hok, hg.popHandler, hm⟩
  | call | ret | yield | endFinally | throw =>
    refine ⟨?_, hg, hm⟩
    rintro e ⟨⟩
    trivial

/-! ## Activations -/

namespace FramesFit

variable {isGenerator : Bool} {f g : Frame} {callers : List Frame}

theorem ne_nil {frames : List Frame} (h : FramesFit isGenerator frames) : frames ≠ [] := by
  rintro rfl
  exact h

theorem replace (h : FramesFit isGenerator (f :: callers)) (hg : g.body = f.body) :
    FramesFit isGenerator (g :: callers) := by
  cases callers with
  | nil =>
    show g.body.routine.isGenerator = isGenerator
    rw [hg]
    exact h
  | cons caller rest =>
    refine ⟨?_, h.2⟩
    rw [hg]
    exact h.1

theorem push (h : FramesFit isGenerator callers) (hf : f.body.routine.isGenerator = false) :
    FramesFit isGenerator (f :: callers) := by
  cases callers with
  | nil => exact absurd h id
  | cons caller rest => exact ⟨hf, h⟩

theorem tail (h : FramesFit isGenerator (f :: callers)) (hne : callers ≠ []) :
    FramesFit isGenerator callers := by
  cases callers with
  | nil => exact absurd rfl hne
  | cons caller rest => exact h.2

/-- A frame of a generator function is the outermost one of a generator. -/
theorem of_isGenerator (h : FramesFit isGenerator (f :: callers))
    (hf : f.body.routine.isGenerator = true) : callers = [] ∧ isGenerator = true := by
  cases callers with
  | nil => exact ⟨rfl, h.symm.trans hf⟩
  | cons caller rest =>
    have hfalse := h.1
    rw [hf] at hfalse
    cases hfalse

end FramesFit

/-- An activation with sound frames. -/
structure Activation.Sound (P : Executable → Prop) (a : Activation) : Prop where
  frames : ∀ f ∈ a.frames, f.Sound P
  fit : FramesFit a.isGenerator a.frames

/-- An exit is over a set; only a generator is left by a yield, with its frame. -/
def Exit.Sound (P : Executable → Prop) (isGenerator : Bool) : Except Abrupt Exit → Prop
  | .ok (.returned v) => v.Over P
  | .ok (.yielded v f) =>
    isGenerator = true ∧ v.Over P ∧ f.Sound P ∧ f.body.routine.isGenerator = true
  | .error e => e.Over P

/-- The circumstances of a call are over a set. -/
def CallSite.Over (P : Executable → Prop) (site : CallSite) : Prop :=
  site.receiver.Over P ∧ ∀ v ∈ site.args, v.Over P

/-- What is called is over a set. -/
def Callable.Over (P : Executable → Prop) : Callable → Prop
  | .executable e => P e
  | .hostFunction _ => True
  | .resumption _ g _ => P g.body
  | .continuation _ v => v.Over P

/-- A sound activation goes on, or is left soundly. -/
def Flow.Sound (P : Executable → Prop) (isGenerator : Bool) : Flow → Prop
  | .next a => a.Sound P ∧ a.isGenerator = isGenerator
  | .leave e => Exit.Sound P isGenerator e

/-- A sound activation goes on, waits soundly or is left soundly. -/
def Move.Sound (P : Executable → Prop) (isGenerator : Bool) : Move → Prop
  | .flow f => f.Sound P isGenerator
  | .call a f site => a.Sound P ∧ a.isGenerator = isGenerator ∧ f.Over P ∧ site.Over P

namespace Activation.Sound

variable {a : Activation} {f : Frame} {callers : List Frame}

/-- The frames of a sound activation, with the innermost one changed. -/
theorem replace (h : a.Sound P) (hframes : a.frames = f :: callers) {g : Frame}
    (hg : g.Sound P) (hbody : g.body = f.body) : { a with frames := g :: callers }.Sound P := by
  obtain ⟨hall, hfit⟩ := h
  rw [hframes] at hall hfit
  refine ⟨?_, hfit.replace hbody⟩
  intro x hx
  rcases List.mem_cons.mp hx with rfl | hx
  · exact hg
  · exact hall x (List.mem_cons_of_mem f hx)

theorem head (h : a.Sound P) (hframes : a.frames = f :: callers) : f.Sound P := by
  apply h.frames
  rw [hframes]
  exact List.mem_cons_self ..

theorem outer (h : a.Sound P) (hframes : a.frames = f :: callers) (hne : callers ≠ []) :
    { a with frames := callers }.Sound P := by
  obtain ⟨hall, hfit⟩ := h
  rw [hframes] at hall hfit
  exact ⟨fun x hx => hall x (List.mem_cons_of_mem f hx), hfit.tail hne⟩

/-- Unwinding leaves frames as an activation has them, or none. The induction is on the frames
that are passed. -/
theorem unwind {v : Value} (hv : v.Over P) {isGenerator : Bool} {frames : List Frame}
    (hall : ∀ f ∈ frames, f.Sound P) (hfit : frames ≠ [] → FramesFit isGenerator frames) :
    (∀ f ∈ Activation.unwind v frames, f.Sound P) ∧
      (Activation.unwind v frames ≠ [] → FramesFit isGenerator (Activation.unwind v frames)) := by
  induction frames with
  | nil => exact ⟨nofun, fun h => absurd rfl h⟩
  | cons f callers ih =>
    have hf := hall f (List.mem_cons_self ..)
    have hfit := hfit (List.cons_ne_nil _ _)
    have hrest : ∀ x ∈ callers, x.Sound P := fun x hx => hall x (List.mem_cons_of_mem f hx)
    have hg : (f.routeThrow v).2.Sound P := hf.routeThrow hv
    have hbody : (f.routeThrow v).2.body = f.body := f.body_routeThrowThrough v f.handlers
    unfold Activation.unwind
    split
    · next g heq =>
      rw [heq] at hg hbody
      refine ⟨?_, fun _ => hfit.replace hbody⟩
      intro x hx
      rcases List.mem_cons.mp hx with rfl | hx
      · exact hg
      · exact hrest x hx
    · exact ih hrest hfit.tail

theorem throw (h : a.Sound P) {v : Value} (hv : v.Over P) :
    (a.throw v).Sound P a.isGenerator := by
  obtain ⟨hall, hfit⟩ := unwind hv h.frames fun _ => h.fit
  simp only [Activation.throw]
  cases hframes : Activation.unwind v a.frames with
  | nil => exact hv
  | cons f callers =>
    rw [hframes] at hall hfit
    exact ⟨⟨hall, hfit (List.cons_ne_nil _ _)⟩, rfl⟩

theorem complete (h : a.Sound P) (hframes : a.frames = f :: callers) {v : Value}
    (hv : v.Over P) : (a.complete callers v).Sound P a.isGenerator := by
  cases callers with
  | nil => exact hv
  | cons caller rest =>
    have houter := h.outer hframes (List.cons_ne_nil _ _)
    exact ⟨houter.replace rfl ((houter.head rfl).push hv) rfl, rfl⟩

theorem returnValue (h : a.Sound P) {v : Value} (hv : v.Over P) :
    (a.returnValue v).Sound P a.isGenerator := by
  cases hframes : a.frames with
  | nil => exact absurd hframes h.fit.ne_nil
  | cons f callers =>
    have hg : (f.routeReturn v).2.Sound P := (h.head hframes).routeReturn hv
    have hbody : (f.routeReturn v).2.body = f.body := f.body_routeReturnThrough v f.handlers
    simp only [Activation.returnValue, hframes]
    split
    · next g heq =>
      rw [heq] at hg hbody
      exact ⟨h.replace hframes hg hbody, rfl⟩
    · exact h.complete hframes hv

theorem deliver (h : a.Sound P) {v : Value} (hv : v.Over P) :
    (a.deliver v).Sound P a.isGenerator := by
  cases hframes : a.frames with
  | nil => exact absurd hframes h.fit.ne_nil
  | cons f callers =>
    simp only [Activation.deliver, hframes]
    exact ⟨h.replace hframes ((h.head hframes).push hv) rfl, rfl⟩

variable {m : Store σ}

theorem capture (h : a.Sound P) (p : Pending) (hm : m.Sound P Q) :
    (a.capture p m).1.Sound P a.isGenerator ∧ (a.capture p m).2.Sound P Q := by
  unfold Activation.capture
  split
  · exact ⟨trivial, hm⟩
  · next hgen =>
    split
    · exact ⟨trivial, hm⟩
    · refine ⟨trivial, ?_⟩
      dsimp only
      split
      · exact hm
      · have hfit := h.fit
        rw [Bool.not_eq_true] at hgen
        rw [hgen] at hfit
        exact hm.setContinuation _ ⟨h.frames, hfit⟩

theorem fail (h : a.Sound P) {e : Abrupt} (he : e.Over P) (hm : m.Sound P Q) :
    (a.fail e m).1.Sound P a.isGenerator ∧ (a.fail e m).2.Sound P Q := by
  cases e with
  | thrown v => exact ⟨h.throw he, hm⟩
  | suspended p => exact h.capture p hm
  | aborted reason => exact ⟨trivial, hm⟩
  | fault f => exact ⟨trivial, hm⟩

theorem call (h : a.Sound P) (hframes : a.frames = f :: callers) {g : Frame} (hg : g.Sound P)
    (hbody : g.body = f.body) (count : Nat) (hm : m.Sound P Q) :
    (a.call g callers count m).1.Sound P a.isGenerator ∧
      (a.call g callers count m).2.Sound P Q := by
  obtain ⟨hargs, hg₁⟩ := hg.popMany count
  obtain ⟨hreceiver, hg₂⟩ := hg₁.pop
  obtain ⟨hcallee, hg₃⟩ := hg₂.pop
  have hwithin := h.replace hframes hg₃ hbody
  simp only [Activation.call]
  split
  · next e he =>
    rw [he] at hcallee
    split
    · exact ⟨⟨hwithin, rfl, hcallee, hreceiver, hargs⟩, hm⟩
    · next hgen =>
      split
      · exact ⟨trivial, hm⟩
      · refine ⟨⟨⟨?_, ?_⟩, rfl⟩, hm⟩
        · intro x hx
          rcases List.mem_cons.mp hx with rfl | hx
          · exact Frame.sound_enter hcallee hreceiver hargs
          · exact hwithin.frames x hx
        · exact hwithin.fit.push (Bool.not_eq_true _ ▸ hgen)
  · exact ⟨⟨hwithin, rfl, trivial, hreceiver, hargs⟩, hm⟩
  · exact hwithin.fail (Abrupt.over_typeError _) (hm.flattening _)

/-- An instruction that was fetched keeps an activation and the store sound. -/
theorem perform (h : a.Sound P) (hframes : a.frames = f :: callers) {i : Instruction} {g : Frame}
    (hi : f.fetch? = some (i, g)) (hm : m.Sound P Q) (hmake : ∀ e, f.Makes i m e → P e) :
    (a.perform g callers i m).1.Sound P a.isGenerator ∧
      (a.perform g callers i m).2.Sound P Q := by
  have hf := h.head hframes
  obtain ⟨herror, hg, hm'⟩ := hf.perform hi hm hmake
  obtain ⟨hcode, rfl, hsound⟩ := hf.fetch hi
  have hbody := Frame.body_perform { f with position := f.position + 1 } i m
  by_cases hown : i.isOwn = true
  · rw [Activation.perform_of_isOwn a callers hown m]
    obtain ⟨r, g, m', heq⟩ : ∃ r g m', Frame.perform { f with position := f.position + 1 } i m =
      (r, g, m') := ⟨_, _, _, rfl⟩
    rw [heq] at herror hg hm' hbody ⊢
    have hwithin := h.replace hframes hg hbody
    cases r with
    | ok u => exact ⟨⟨hwithin, rfl⟩, hm'⟩
    | error e => exact hwithin.fail (herror e rfl) hm'
  cases i with
  | call count => exact h.call hframes hsound rfl _ hm
  | ret =>
    exact ⟨(h.replace hframes hsound.pop.2 rfl).returnValue hsound.pop.1, hm⟩
  | throw => exact ⟨(h.replace hframes hsound.pop.2 rfl).throw hsound.pop.1, hm⟩
  | yield =>
    have hgen := f.body.valid.isGenerator_of_yield hcode
    simp only [Activation.perform]
    split
    · exact (h.replace hframes hsound rfl).fail (Abrupt.over_typeError _) hm
    · next hnot =>
      rw [Bool.or_eq_true, not_or] at hnot
      refine ⟨⟨by simpa using hnot.1, hsound.pop.1, hsound.pop.2, hgen⟩, hm⟩
  | endFinally =>
    obtain ⟨hcompletion, hended⟩ := hsound.endCleanup
    have hb := Frame.body_endCleanup { f with position := f.position + 1 }
    simp only [Activation.perform]
    split
    · next heq =>
      rw [heq] at hended hb
      exact ⟨⟨h.replace hframes hended hb, rfl⟩, hm⟩
    · next heq =>
      rw [heq] at hcompletion hended hb
      exact ⟨(h.replace hframes hended hb).throw hcompletion, hm⟩
    · next heq =>
      rw [heq] at hcompletion hended hb
      exact ⟨(h.replace hframes hended hb).returnValue hcompletion, hm⟩
  | _ => exact absurd rfl hown

end Activation.Sound

/-- What is made in the course of the next instruction. -/
def Activation.Makes (a : Activation) (m : Store σ) (e : Executable) : Prop :=
  ∃ f callers i g, a.frames = f :: callers ∧ f.fetch? = some (i, g) ∧ f.Makes i m e

/-- An instruction keeps an activation and the store sound. -/
theorem Activation.Sound.execute {a : Activation} {m : Store σ} (h : a.Sound P) (hm : m.Sound P Q)
    (hmake : ∀ e, a.Makes m e → P e) :
    (a.execute m).1.Sound P a.isGenerator ∧ (a.execute m).2.Sound P Q := by
  cases hframes : a.frames with
  | nil => exact absurd hframes h.fit.ne_nil
  | cons f callers =>
    simp only [Activation.execute, hframes]
    split
    · exact ⟨h.complete hframes trivial, hm⟩
    · next i g hi =>
      exact h.perform hframes hi hm fun e he => hmake e ⟨f, callers, i, g, hframes, hi, he⟩

end ScriptMachine
