import ScriptMachine.Proofs.Machine.World
import ScriptMachine.Proofs.Ropes.Store

/-!
# Activations up to the form of their strings

Activations are alike if their frames are. An instruction keeps them and the store alike, and it
is the same instruction on both sides, with the same branches, errors and calls. An addition on
one side may be `Activation.executeEager` on the other, which makes flat strings in place of
concatenations.
-/

namespace ScriptMachine

variable {σ : Type} {S : Labellings → σ → σ → Prop} {W W' : Labellings}

/-! ## What activations do -/

/-- The same thing is called, with an alike value if it is a continuation. -/
inductive Callable.Alike (W : Labellings) : Callable → Callable → Prop
  | executable (e : Executable) : Callable.Alike W (.executable e) (.executable e)
  | hostFunction (f : HostFunction) : Callable.Alike W (.hostFunction f) (.hostFunction f)
  | resumption (r : Id .resumption) (g : Generator) (op : GeneratorOp) :
      Callable.Alike W (.resumption r g op) (.resumption r g op)
  | continuation (k : Id .continuation) {v w : Value} (h : v.Alike W w) :
      Callable.Alike W (.continuation k v) (.continuation k w)

/-- The same place, with an alike receiver and alike arguments. -/
structure CallSite.Alike (W : Labellings) (s t : CallSite) : Prop where
  context : s.context = t.context
  scope : s.scope = t.scope
  receiver : s.receiver.Alike W t.receiver
  args : ValuesAlike W s.args t.args

/-- The same kind of exit, with alike values. -/
inductive Exit.Alike (W : Labellings) : Exit → Exit → Prop
  | returned {v w : Value} (h : v.Alike W w) : Exit.Alike W (.returned v) (.returned w)
  | yielded {v w : Value} {f g : Frame} (h : v.Alike W w) (hf : f.Alike W g) :
      Exit.Alike W (.yielded v f) (.yielded w g)

/-- The same run of the interpreter, with alike frames. -/
structure Activation.Alike (W : Labellings) (a b : Activation) : Prop where
  context : a.context = b.context
  frames : FramesAlike W a.frames b.frames
  limit : a.limit = b.limit
  isGenerator : a.isGenerator = b.isGenerator

/-- Both go on alike or are left alike. -/
inductive Flow.Alike (W : Labellings) : Flow → Flow → Prop
  | next {a b : Activation} (h : a.Alike W b) : Flow.Alike W (.next a) (.next b)
  | leave {e e' : Except Abrupt Exit} (h : EndsAlike W (Exit.Alike W) e e') :
      Flow.Alike W (.leave e) (.leave e')

/-- Both flow on alike or make the same call alike. -/
inductive Move.Alike (W : Labellings) : Move → Move → Prop
  | flow {f g : Flow} (h : f.Alike W g) : Move.Alike W (.flow f) (.flow g)
  | call {a b : Activation} {f g : Callable} {s t : CallSite} (ha : a.Alike W b)
      (hf : f.Alike W g) (hs : s.Alike W t) : Move.Alike W (.call a f s) (.call b g t)

/-- An error that is the same on both sides. -/
theorem Flow.alike_fault (f : Fault) : Flow.Alike W (.leave (.error (.fault f)))
    (.leave (.error (.fault f))) := .leave (.error (.other rfl))

/-! ## Instructions of one frame -/

/-- An instruction of one frame, other than an addition. -/
theorem Frame.Alike.perform {f g : Frame} (h : f.Alike W g) {m m' : Store σ}
    (hm : m.Alike S W m') {i : Instruction} (hi : i ≠ .binary .add) :
    EndsAlike W Eq (f.perform i m).1 (g.perform i m').1 ∧
      (f.perform i m).2.1.Alike W (g.perform i m').2.1 ∧
      (f.perform i m).2.2.Alike S W (g.perform i m').2.2 := by
  have hok : EndsAlike W Eq (.ok () : Except Abrupt Unit) (.ok ()) := .ok rfl
  obtain ⟨htop, hpop⟩ := h.pop
  cases i with
  | undefined | null | bool | number => exact ⟨hok, h.push (.plain rfl), hm⟩
  | text s => exact ⟨hok, h.push (Value.alike_text W s), hm⟩
  | loadName name =>
    have hfind := Scopes.alike_find hm.scopes f.scope name
    simp only [Frame.perform, ← h.scope]
    revert hfind
    generalize m.scopes.find? f.scope name = x, m'.scopes.find? f.scope name = y
    rintro (hv | _)
    · exact ⟨hok, h.push hv, hm⟩
    · exact ⟨.error (Abrupt.alike_error _ _), h, hm⟩
  | storeName name =>
    simp only [Frame.perform, ← hpop.scope, ← hpop.body, ← Scopes.has_eq hm.scopes]
    split
    · exact ⟨.error (Abrupt.alike_error _ _), hpop, hm⟩
    · exact ⟨hok, hpop, { hm with scopes := Scopes.alike_put hm.scopes _ _ htop }⟩
  | defineName name =>
    simp only [Frame.perform, ← hpop.scope]
    exact ⟨hok, hpop, { hm with scopes := Scopes.alike_define hm.scopes _ _ htop }⟩
  | loadLocal slot => exact ⟨hok, h.push (h.getLocal slot), hm⟩
  | storeLocal slot => exact ⟨hok, hpop.setLocal slot htop, hm⟩
  | loadThis => exact ⟨hok, h.push h.receiver, hm⟩
  | pop => exact ⟨hok, hpop, hm⟩
  | dup => exact ⟨hok, h.push h.top, hm⟩
  | binary op =>
    have hop : op ≠ .add := fun heq => hi (congrArg Instruction.binary heq)
    obtain ⟨hresult, hm'⟩ := hm.flattening (hpop.pop.1.applyBinary htop hop)
    exact ⟨hok, hpop.pop.2.push hresult, hm'⟩
  | not =>
    simp only [Frame.perform, ← htop.isTruthy]
    exact ⟨hok, hpop.push (.plain rfl), hm⟩
  | jump target => exact ⟨hok, h.goto target, hm⟩
  | jumpIfFalse target =>
    simp only [Frame.perform, ← htop.isTruthy]
    split
    · exact ⟨hok, hpop, hm⟩
    · exact ⟨hok, hpop.goto target, hm⟩
  | closure index =>
    obtain ⟨hid, hm'⟩ := hm.fresh .executable
    simp only [Frame.perform, ← h.body, ← hid]
    split
    · exact ⟨hok, h.push (.plain rfl), hm'⟩
    · exact ⟨.error (.other rfl), h, hm'⟩
  | enterTry catchAt finallyAt => exact ⟨hok, h.pushHandler catchAt finallyAt, hm⟩
  | exitTry => exact ⟨hok, h.popHandler, hm⟩
  | call | ret | yield | endFinally | throw => exact ⟨.error (.other rfl), h, hm⟩

/-! ## Activations -/

namespace Activation.Alike

variable {a b : Activation} {v w : Value}

theorem mono (h : a.Alike W b) (hle : W ≤ W') : a.Alike W' b :=
  { h with frames := h.frames.mono hle }

theorem withFrames (h : a.Alike W b) {frames frames' : List Frame}
    (hf : FramesAlike W frames frames') :
    { a with frames }.Alike W { b with frames := frames' } := { h with frames := hf }

/-- The same frames are passed. The induction is on the frames, innermost first. -/
theorem unwind {frames frames' : List Frame} (h : FramesAlike W frames frames')
    (hv : v.Alike W w) :
    FramesAlike W (Activation.unwind v frames) (Activation.unwind w frames') := by
  induction h with
  | nil => exact .nil
  | cons hfg hrest ih =>
    have hroute := hfg.routeThrow hv
    unfold Activation.unwind
    revert hroute
    generalize Frame.routeThrow _ v = x, Frame.routeThrow _ w = y
    obtain ⟨isHandled, f⟩ := x
    obtain ⟨isHandled', g⟩ := y
    rintro ⟨rfl, hfg⟩
    cases isHandled with
    | true => exact .cons hfg hrest
    | false => exact ih

theorem throw (h : a.Alike W b) (hv : v.Alike W w) : (a.throw v).Alike W (b.throw w) := by
  have hframes := unwind h.frames hv
  unfold Activation.throw
  revert hframes
  generalize Activation.unwind v a.frames = x, Activation.unwind w b.frames = y
  rintro (_ | ⟨hfg, hrest⟩)
  · exact .leave (.error (.thrown hv))
  · exact .next (h.withFrames (.cons hfg hrest))

variable {m m' : Store σ}

theorem capture (h : a.Alike W b) (p : Pending) (hm : m.Alike S W m') :
    (a.capture p m).1.Alike W (b.capture p m').1 ∧
      (a.capture p m).2.Alike S W (b.capture p m').2 := by
  have hk := hm.continuation p.continuation
  unfold Activation.capture
  rw [← h.isGenerator, ← h.context, ← hm.context, ← hk.isCaptured]
  split
  · exact ⟨Flow.alike_fault _, hm⟩
  · split
    · exact ⟨Flow.alike_fault _, hm⟩
    · refine ⟨.leave (.error (.other rfl)), ?_⟩
      dsimp only
      split
      · exact hm
      · exact { hm with continuations := hm.continuations.set _ (.captured h.frames) }

theorem fail (h : a.Alike W b) {e e' : Abrupt} (he : e.Alike W e') (hm : m.Alike S W m') :
    (a.fail e m).1.Alike W (b.fail e' m').1 ∧ (a.fail e m).2.Alike S W (b.fail e' m').2 := by
  cases he with
  | thrown hv => exact ⟨h.throw hv, hm⟩
  | other he =>
    cases e with
    | thrown v => cases he
    | suspended p => exact h.capture p hm
    | aborted reason => exact ⟨.leave (.error (.other rfl)), hm⟩
    | fault f => exact ⟨Flow.alike_fault f, hm⟩

theorem complete (h : a.Alike W b) {callers callers' : List Frame}
    (hc : FramesAlike W callers callers') (hv : v.Alike W w) :
    (a.complete callers v).Alike W (b.complete callers' w) := by
  cases hc with
  | nil => exact .leave (.ok (.returned hv))
  | cons hfg hrest => exact .next (h.withFrames (.cons (hfg.push hv) hrest))

theorem returnValue (h : a.Alike W b) (hv : v.Alike W w) :
    (a.returnValue v).Alike W (b.returnValue w) := by
  have hframes := h.frames
  unfold Activation.returnValue
  revert hframes
  generalize a.frames = x, b.frames = y
  rintro (_ | ⟨hfg, hrest⟩)
  · exact Flow.alike_fault _
  · have hroute := hfg.routeReturn hv
    dsimp only
    revert hroute
    generalize Frame.routeReturn _ v = x, Frame.routeReturn _ w = y
    obtain ⟨goesOn, f⟩ := x
    obtain ⟨goesOn', g⟩ := y
    rintro ⟨rfl, hfg⟩
    cases goesOn with
    | true => exact .next (h.withFrames (.cons hfg hrest))
    | false => exact h.complete hrest hv

theorem deliver (h : a.Alike W b) (hv : v.Alike W w) : (a.deliver v).Alike W (b.deliver w) := by
  have hframes := h.frames
  unfold Activation.deliver
  revert hframes
  generalize a.frames = x, b.frames = y
  rintro (_ | ⟨hfg, hrest⟩)
  · exact Flow.alike_fault _
  · exact .next (h.withFrames (.cons (hfg.push hv) hrest))

variable {f g : Frame} {callers callers' : List Frame}

/-- Something that cannot be called. -/
theorem call_failed (h : a.Alike W b) {v w : Value} (hv : v.Alike W w) (hm : m.Alike S W m') :
    (failed (a.fail (.typeError ((m.flattening v.display).1 ++ " is not a function"))
        (m.flattening v.display).2)).1.Alike W
      (failed (b.fail (.typeError ((m'.flattening w.display).1 ++ " is not a function"))
        (m'.flattening w.display).2)).1 ∧
    (failed (a.fail (.typeError ((m.flattening v.display).1 ++ " is not a function"))
        (m.flattening v.display).2)).2.Alike S W
      (failed (b.fail (.typeError ((m'.flattening w.display).1 ++ " is not a function"))
        (m'.flattening w.display).2)).2 := by
  obtain ⟨htext, hm⟩ := hm.flattening hv.display
  rw [htext]
  obtain ⟨hflow, hm⟩ := h.fail (Abrupt.alike_error "TypeError" _) hm
  exact ⟨.flow hflow, hm⟩

theorem call (h : a.Alike W b) (hfg : f.Alike W g) (hc : FramesAlike W callers callers')
    (count : Nat) (hm : m.Alike S W m') :
    (a.call f callers count m).1.Alike W (b.call g callers' count m').1 ∧
      (a.call f callers count m).2.Alike S W (b.call g callers' count m').2 := by
  obtain ⟨hargs, h₁⟩ := hfg.popMany count
  obtain ⟨hreceiver, h₂⟩ := h₁.pop
  obtain ⟨hcallee, h₃⟩ := h₂.pop
  unfold Activation.call
  dsimp only
  revert hargs hreceiver hcallee h₃
  generalize (f.popMany count).1 = args, (g.popMany count).1 = args',
    (f.popMany count).2.pop.1 = receiver, (g.popMany count).2.pop.1 = receiver',
    (f.popMany count).2.pop.2.pop.1 = callee, (g.popMany count).2.pop.2.pop.1 = callee',
    (f.popMany count).2.pop.2.pop.2 = f₃, (g.popMany count).2.pop.2.pop.2 = g₃
  intro hargs hreceiver hcallee h₃
  have hwithin := h.withFrames (.cons h₃ hc)
  have hsite : CallSite.Alike W ⟨a.context, f₃.scope, receiver, args⟩
      ⟨b.context, g₃.scope, receiver', args'⟩ := ⟨h.context, h₃.scope, hreceiver, hargs⟩
  cases hcallee with
  | string hr => exact hwithin.call_failed (.string hr) hm
  | plain hplain =>
    cases callee with
    | executable e =>
      have hfull : b.limit ≤ (g₃ :: callers').length ↔ a.limit ≤ (f₃ :: callers).length := by
        rw [h.limit, hwithin.frames.length_eq]
      have hfault : Fault.stackOverflow b.limit = .stackOverflow a.limit := by rw [h.limit]
      simp only [hfull, hfault]
      split
      · exact ⟨.call hwithin (.executable e) hsite, hm⟩
      · split
        · exact ⟨.flow (Flow.alike_fault _), hm⟩
        · have hentered : (Frame.enter e f₃.scope receiver args).Alike W
              (Frame.enter e g₃.scope receiver' args') := by
            rw [h₃.scope]
            exact Frame.alike_enter e g₃.scope hreceiver hargs
          exact ⟨.flow (.next (h.withFrames (.cons hentered (.cons h₃ hc)))), hm⟩
    | hostFunction k => exact ⟨.call hwithin (.hostFunction k) hsite, hm⟩
    | _ => exact hwithin.call_failed (.plain hplain) hm

/-- An instruction other than an addition. -/
theorem perform (h : a.Alike W b) (hfg : f.Alike W g) (hc : FramesAlike W callers callers')
    {i : Instruction} (hi : i ≠ .binary .add) (hm : m.Alike S W m') :
    (a.perform f callers i m).1.Alike W (b.perform g callers' i m').1 ∧
      (a.perform f callers i m).2.Alike S W (b.perform g callers' i m').2 := by
  by_cases hown : i.isOwn = true
  · rw [Activation.perform_of_isOwn a callers hown m, Activation.perform_of_isOwn b callers' hown m']
    have hperform := hfg.perform hm hi
    revert hperform
    generalize f.perform i m = x, g.perform i m' = y
    obtain ⟨r, f', n⟩ := x
    obtain ⟨r', g', n'⟩ := y
    rintro ⟨hr, hfg', hn⟩
    have hwithin := h.withFrames (.cons hfg' hc)
    cases hr with
    | ok _ => exact ⟨.flow (.next hwithin), hn⟩
    | error he =>
      obtain ⟨hflow, hn'⟩ := hwithin.fail he hn
      exact ⟨.flow hflow, hn'⟩
  obtain ⟨htop, hpop⟩ := hfg.pop
  cases i with
  | call count => exact h.call hfg hc _ hm
  | ret => exact ⟨.flow ((h.withFrames (.cons hpop hc)).returnValue htop), hm⟩
  | throw => exact ⟨.flow ((h.withFrames (.cons hpop hc)).throw htop), hm⟩
  | yield =>
    have hstray : (!b.isGenerator || !callers'.isEmpty) = (!a.isGenerator || !callers.isEmpty) := by
      rw [h.isGenerator]
      cases hc <;> rfl
    simp only [Activation.perform, hstray]
    split
    · obtain ⟨hflow, hm'⟩ := (h.withFrames (.cons hfg hc)).fail
        (Abrupt.alike_error "TypeError" "yield outside a generator") hm
      exact ⟨.flow hflow, hm'⟩
    · exact ⟨.flow (.leave (.ok (.yielded htop hpop))), hm⟩
  | endFinally =>
    obtain ⟨hcompletion, hended⟩ := hfg.endCleanup
    simp only [Activation.perform]
    revert hcompletion hended
    generalize f.endCleanup = x, g.endCleanup = y
    obtain ⟨c, f'⟩ := x
    obtain ⟨c', g'⟩ := y
    intro hcompletion hended
    have hwithin := h.withFrames (.cons hended hc)
    cases hcompletion with
    | normal => exact ⟨.flow (.next hwithin), hm⟩
    | throw hv => exact ⟨.flow (hwithin.throw hv), hm⟩
    | «return» hv => exact ⟨.flow (hwithin.returnValue hv), hm⟩
  | _ => exact absurd rfl hown

end Activation.Alike

/-! ## Additions -/

/-- Add the two operands on top, with a flat string for a concatenation. -/
def Frame.addEager (f : Frame) (m : Store σ) : Frame × Store σ :=
  let (w, f) := f.pop
  let (v, f) := f.pop
  let (result, m) := m.flattening (v.addEager w)
  (f.push result, m)

/-- Carry out an instruction that was fetched; concatenations are carried out at once. -/
def Activation.performEager (a : Activation) (f : Frame) (callers : List Frame) (i : Instruction)
    (m : Store σ) : Move × Store σ :=
  match i with
  | .binary .add =>
    let (f, m) := f.addEager m
    (.flow (.next { a with frames := f :: callers }), m)
  | i => a.perform f callers i m

/-- Fetch an instruction and carry it out; concatenations are carried out at once. -/
def Activation.executeEager (a : Activation) (m : Store σ) : Move × Store σ :=
  match a.frames with
  | [] => (.flow (.leave (.error (.illegalState .noActiveFrame))), m)
  | f :: callers =>
    match f.fetch? with
    | none => (.flow (a.complete callers .undefined), m)
    | some (i, f) => a.performEager f callers i m

theorem Activation.performEager_of_ne (a : Activation) (f : Frame) (callers : List Frame)
    {i : Instruction} (hi : i ≠ .binary .add) (m : Store σ) :
    a.performEager f callers i m = a.perform f callers i m := by
  unfold performEager
  split
  · exact absurd rfl hi
  · rfl

/-- The text of the concatenation that the next instruction makes, if it makes one. -/
def Activation.joined? (a : Activation) : Option String :=
  match a.frames with
  | [] => none
  | f :: _ =>
    match f.fetch? with
    | some (.binary .add, f) => f.pop.2.pop.1.joined? f.pop.1
    | _ => none

/-- An addition on one side, and an addition that makes a flat string on the other. -/
theorem Frame.Alike.add {f g : Frame} (h : f.Alike W g) {m m' : Store σ} (hm : m.Alike S W m')
    (hS : Monotone S) (hshort : ∀ s, f.pop.2.pop.1.joined? f.pop.1 = some s → IsShort s) :
    ∃ W', W ≤ W' ∧ (f.applyBinary .add m).1.Alike W' (g.addEager m').1 ∧
      (f.applyBinary .add m).2.Alike S W' (g.addEager m').2 := by
  obtain ⟨hw, h₁⟩ := h.pop
  obtain ⟨hv, h₂⟩ := h₁.pop
  obtain ⟨W', hle, hresult, hm'⟩ := hm.flatteningLater hS (hv.add hw hshort)
  exact ⟨W', hle, (h₂.mono hle).push hresult, hm'⟩

/-- The next instruction, which is the same on both sides. -/
theorem Activation.Alike.execute {a b : Activation} (h : a.Alike W b) {m m' : Store σ}
    (hm : m.Alike S W m') (hS : Monotone S) (hshort : ∀ s, a.joined? = some s → IsShort s) :
    ∃ W', W ≤ W' ∧ (a.execute m).1.Alike W' (b.executeEager m').1 ∧
      (a.execute m).2.Alike S W' (b.executeEager m').2 := by
  have hframes := h.frames
  unfold Activation.joined? at hshort
  unfold Activation.execute Activation.executeEager
  revert hframes hshort
  generalize a.frames = x, b.frames = y
  intro hshort hframes
  cases hframes with
  | nil => exact ⟨W, le_rfl, .flow (Flow.alike_fault _), hm⟩
  | cons hfg hc =>
    have hfetch := hfg.fetch
    dsimp only at hshort ⊢
    revert hfetch hshort
    generalize Frame.fetch? _ = x, Frame.fetch? _ = y
    intro hshort hfetch
    cases hfetch with
    | none => exact ⟨W, le_rfl, .flow (h.complete hc (.plain rfl)), hm⟩
    | @some p q hpq =>
      obtain ⟨i, f⟩ := p
      obtain ⟨i', g⟩ := q
      obtain ⟨rfl, hfg⟩ := hpq
      by_cases hadd : i = .binary .add
      · subst hadd
        obtain ⟨W', hle, hfg', hm'⟩ := hfg.add hm hS hshort
        have hwithin := (h.mono hle).withFrames (.cons hfg' (FramesAlike.mono hc hle))
        exact ⟨W', hle, .flow (.next hwithin), hm'⟩
      · dsimp only
        rw [Activation.performEager_of_ne b g _ hadd]
        exact ⟨W, le_rfl, h.perform hfg hc hadd hm⟩

end ScriptMachine
