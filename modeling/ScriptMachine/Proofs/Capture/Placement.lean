import ScriptMachine.Proofs.Capture.Course

/-!
# Interpreted code on a machine

The turns of interpreted code, placed on a context and on a stack that performs an outermost
call. A configuration `Shows` a turn if it comes quietly to such a place. The machine then does
what the turn does: `Config.Shows.next` for one instruction, `Config.Shows.reports_iff` for what
can be seen.
-/

namespace ScriptMachine

variable {σ : Type}

/-- A context that runs an outermost call and observes no instructions. -/
structure Store.Active (m : Store σ) (c : Id .context) : Prop where
  known : m.Knows c
  running : (m.context c).topCall.isSome
  unobserved : (m.context c).observerThreshold = 0

namespace Store.Active

variable {m m' : Store σ} {c : Id .context}

theorem of_contexts_eq (h : m.Active c) (hm : m'.contexts = m.contexts) : m'.Active c := by
  have hc : m'.context c = m.context c := by simp only [Store.context, hm]
  refine ⟨?_, ?_, ?_⟩
  · rw [Store.Knows, hm]
    exact h.known
  · rw [hc]
    exact h.running
  · rw [hc]
    exact h.unobserved

theorem modifyContext (h : m.Active c) {f : Context → Context}
    (htop : (f (m.context c)).topCall = (m.context c).topCall)
    (hobs : (f (m.context c)).observerThreshold = (m.context c).observerThreshold) :
    (m.modifyContext c f).Active c := by
  have hc := Store.context_modifyContext h.known f
  refine ⟨Store.knows_modifyContext c f h.known, ?_, ?_⟩
  · rw [hc, htop]
    exact h.running
  · rw [hc, hobs]
    exact h.unobserved

end Store.Active

@[simp] theorem Turn.world_ofFlow (w : World) (flow : Flow) : (ofFlow w flow).world = w := by
  cases flow <;> rfl

@[simp] theorem Turn.world_answer (limit : Nat) (frames : List Frame) (o : Outcome) (w : World) :
    (answer limit frames o w).world = w := by
  cases o <;> exact world_ofFlow _ _

/-- A turn at which a host function is waited for holds a frame. -/
def Turn.IsHeld : Turn → Prop
  | .waiting frames _ => frames ≠ []
  | .going _ _ | .left _ _ => True

theorem Turn.isHeld_ofFlow (w : World) (flow : Flow) : (ofFlow w flow).IsHeld := by
  cases flow <;> trivial

theorem Turn.isHeld_answer (limit : Nat) (frames : List Frame) (o : Outcome) (w : World) :
    (answer limit frames o w).IsHeld := by
  cases o <;> exact isHeld_ofFlow _ _

theorem Turn.isHeld_makeGenerator (limit : Nat) (frames : List Frame) (e : Executable)
    (site : CallSite) (w : World) : (makeGenerator limit frames e site w).IsHeld := by
  simp only [makeGenerator]
  exact isHeld_answer _ _ _ _

theorem Turn.isHeld_next {limit : Nat} {t : Turn} (h : t.IsHeld) : (t.next limit).IsHeld := by
  cases t with
  | going frames w =>
    have hmove := (Activation.plain limit anywhere frames).execute_continues w.bare
    simp only [next]
    cases hm : ((Activation.plain limit anywhere frames).execute w.bare).1 with
    | flow flow => exact isHeld_ofFlow _ _
    | call a f site =>
      rw [hm] at hmove
      obtain ⟨⟨g, callers, rfl⟩, -, -⟩ := hmove
      cases f with
      | executable e =>
        simp only [ofMove]
        exact isHeld_makeGenerator _ _ _ _ _
      | hostFunction f => exact List.cons_ne_nil _ _
      | resumption r g op => trivial
      | continuation k v => trivial
  | waiting frames call => exact h
  | left o w => trivial

namespace Config

variable (host : Host σ) (thread : Id .thread) (limit : Nat)

/-- A stack that performs an outermost call in the standard way. -/
def Performs (s : Stack σ .completion .completion) : Prop :=
  ∀ (m : Store σ) (o : Outcome), ∃ m' : Store σ,
    Quiet host thread (give m .completion o s) (give m' .completion (o.finish m.world).1 .nil) ∧
      m'.world = (o.finish m.world).2 ∧ m'.continuations = m.continuations

/-- A stack that hands an outcome on and touches neither the world nor the continuations. -/
def HandsOn (s : Stack σ .completion .completion) : Prop :=
  ∀ (m : Store σ) (o : Outcome), ∃ m' : Store σ,
    Quiet host thread (give m .completion o s) (give m' .completion o .nil) ∧
      m'.world = m.world ∧ m'.continuations = m.continuations

/-- A turn on a context and on a stack. -/
def place (m : Store σ) (c : Id .context) (s : Stack σ .completion .completion) :
    Turn → Config σ .completion
  | .going frames _ => ⟨m, .counting (.plain limit c frames) (.cons .callEnd s)⟩
  | .waiting frames call =>
    atHostCall m call.function ⟨c, call.scope, call.receiver, call.args⟩
      (.plain limit c frames) (.cons .callEnd s)
  | .left o _ => give m .completion o s

/-- A configuration comes quietly to a turn in its place. -/
def Shows (X : Config σ .completion) (t : Turn) : Prop :=
  t.IsHeld ∧ ∃ (m : Store σ) (c : Id .context) (s : Stack σ .completion .completion),
    m.Active c ∧ Performs host thread s ∧ m.world = t.world ∧
      Quiet host thread X (place limit m c s t)

variable {host thread limit} {X Y : Config σ .completion} {m : Store σ} {c : Id .context}
  {s : Stack σ .completion .completion} {t u : Turn}

theorem Shows.of_quiet (h : Y.Shows host thread limit t) (hq : Quiet host thread X Y) :
    X.Shows host thread limit t := by
  obtain ⟨hheld, m, c, s, hm, hs, hw, hY⟩ := h
  exact ⟨hheld, m, c, s, hm, hs, hw, hq.trans hY⟩

/-! ## Outermost calls -/

variable (host thread) in
theorem handsOn_nil : HandsOn host thread .nil := fun m _ => ⟨m, Quiet.refl _, rfl, rfl⟩

theorem HandsOn.clearTopCall (h : HandsOn host thread s) (c : Id .context) :
    HandsOn host thread (.cons (.clearTopCall c) s) := by
  intro m o
  obtain ⟨m', hq, hw, hk⟩ := h (m.modifyContext c fun cx => { cx with topCall := none }) o
  exact ⟨m', (quiet_step rfl).trans hq, hw, hk⟩

theorem HandsOn.restoreCaptures (h : HandsOn host thread s) (c : Id .context) (previous : Bool) :
    HandsOn host thread (.cons (.restoreCaptures c previous) s) := by
  intro m o
  obtain ⟨m', hq, hw, hk⟩ :=
    h (m.modifyContext c fun cx => { cx with acceptsCaptures := previous }) o
  exact ⟨m', (quiet_step rfl).trans hq, hw, hk⟩

theorem HandsOn.performs_flattenResult (h : HandsOn host thread s) :
    Performs host thread (.cons .flattenResult s) := by
  intro m o
  cases o with
  | ok v =>
    obtain ⟨m', hq, hw, hk⟩ := h (m.flattening v.flatten).2 (.ok (m.flattening v.flatten).1)
    exact ⟨m', (quiet_step rfl).trans hq, hw, hk⟩
  | error e =>
    obtain ⟨m', hq, hw, hk⟩ := h m (.error e)
    exact ⟨m', (quiet_step rfl).trans hq, hw, hk⟩

theorem HandsOn.performs_finishing (h : HandsOn host thread s) :
    Performs host thread (.cons (.program Program.finishing) s) := by
  intro m o
  cases o with
  | ok v =>
    obtain ⟨m', hq, hw, hk⟩ := h (m.flattening v.flatten).2 (.ok (m.flattening v.flatten).1)
    exact ⟨m', (quiet_step rfl).trans ((quiet_step rfl).trans ((quiet_step rfl).trans hq)), hw, hk⟩
  | error e =>
    obtain ⟨m', hq, hw, hk⟩ := h m (.error e)
    exact ⟨m', (quiet_step rfl).trans ((quiet_step rfl).trans hq), hw, hk⟩

/-- On a context that is ready an outermost call is begun at once; a panic passes it. -/
theorem exists_quiet_beginOutermost (site : CallSite) (hm : m.Ready host site.context)
    (hs : HandsOn host thread s) (f : Callable) (isStrict : Bool) :
    ∃ (m' : Store σ) (s' : Stack σ .completion .completion),
      m' = (m.modifyContext site.context fun cx =>
        { cx with topCall := some ⟨site.scope, isStrict⟩ }) ∧
      m'.Active site.context ∧ Performs host thread s' ∧
      (∀ m₁ : Store σ, ∃ m₂ : Store σ,
        run host thread 2 ⟨m₁, .panicking s'⟩ = ⟨m₂, .panicking s⟩) ∧
      Quiet host thread (beginOutermost host m f site isStrict s) ⟨m', .calling f site s'⟩ := by
  obtain ⟨m', hm', hcall⟩ := beginOutermost_of_isDefault m site hm.known hm.idle hm.isDefault f
    isStrict s
  have hc : m'.context site.context =
      { m.context site.context with topCall := some ⟨site.scope, isStrict⟩ } := by
    rw [hm', Store.context_modifyContext hm.known]
  have hactive : m'.Active site.context := by
    refine ⟨?_, ?_, ?_⟩
    · rw [hm']
      exact Store.knows_modifyContext _ _ hm.known
    · rw [hc]
      rfl
    · rw [hc]
      exact hm.unobserved
  rcases hcall with hcall | hcall
  · refine ⟨m', _, hm', hactive, (hs.clearTopCall site.context).performs_flattenResult,
      fun m₁ => ⟨_, rfl⟩, ?_⟩
    rw [hcall]
    exact Quiet.refl _
  · refine ⟨m', _, hm', hactive, (hs.clearTopCall site.context).performs_finishing,
      fun m₁ => ⟨_, rfl⟩, ?_⟩
    rw [hcall]
    exact quiet_step rfl

/-! ## One instruction -/

variable (host thread limit s)

/-- The flow of an activation of interpreted code leads to the place of a turn. -/
theorem exists_quietFor_follow (hm : m.Active c) {flow : Flow} {frames : List Frame}
    (hflow : flow.Continues (.plain limit Turn.anywhere frames)) :
    ∃ (n : Nat) (m' : Store σ), m'.Active c ∧ m'.world = m.world ∧
      QuietFor host thread n (follow m c (flow.moved c) (.cons .callEnd s))
        (place limit m' c s (Turn.ofFlow m.world flow)) := by
  cases flow with
  | next b =>
    refine ⟨0, m, hm, rfl, ?_⟩
    obtain ⟨f, callers, rfl⟩ := hflow
    exact QuietFor.refl _
  | leave e =>
    refine ⟨1, changeDepth m c (· - 1), hm.modifyContext rfl rfl, rfl, ?_⟩
    have hstep := quietFor_step host thread (follow m c (.leave e) (.cons .callEnd s)) rfl
    cases e with
    | error e => exact hstep
    | ok exit => cases exit <;> exact hstep

/-- An answer to interpreted code leads to the place of a turn. -/
theorem exists_quietFor_answer (hm : m.Active c) (frames : List Frame) {o : Outcome}
    (ho : ∀ p, o ≠ .error (.suspended p)) :
    ∃ (n : Nat) (m' : Store σ), m'.Active c ∧ m'.world = m.world ∧
      QuietFor host thread n
        (give m .completion o (.cons (.called (.plain limit c frames)) (.cons .callEnd s)))
        (place limit m' c s (Turn.answer limit frames o m.world)) := by
  have hstep := quietFor_step host thread (give m .completion o (.cons (.called (.plain limit c frames)) (.cons .callEnd s))) rfl
  cases o with
  | ok v =>
    have hflow := Activation.deliver_continues (.plain limit Turn.anywhere frames) v
    obtain ⟨n, m', hm', hw, hq⟩ := exists_quietFor_follow host thread limit s hm hflow
    refine ⟨1 + n, m', hm', hw, hstep.trans ?_⟩
    rw [← Activation.deliver_moved] at hq
    exact hq
  | error e =>
    have he : ∀ p, e ≠ .suspended p := fun p h => ho p (by rw [h])
    have hflow := Activation.fail_continues (.plain limit Turn.anywhere frames) m.world.bare e
    obtain ⟨n, m', hm', hw, hq⟩ := exists_quietFor_follow host thread limit s hm hflow
    refine ⟨1 + n, m', hm', hw, hstep.trans ?_⟩
    have hfail : (Activation.plain limit c frames).fail e m =
        (((Activation.plain limit Turn.anywhere frames).fail e m.world.bare).1.moved c, m) := by
      have h := Activation.fail_moved (.plain limit Turn.anywhere frames) m c he
      rw [Activation.fail_eq (.plain limit Turn.anywhere frames) m he] at h
      exact h
    have hnext : (give m .completion (.error e)
        (.cons (.called (.plain limit c frames)) (.cons .callEnd s))).step host thread =
          follow m c (((Activation.plain limit Turn.anywhere frames).fail e m.world.bare).1.moved c)
            (.cons .callEnd s) := by
      simp only [step, take, hfail]
      rfl
    rw [hnext]
    exact hq

/-- A call of a generator function makes a generator, and leads to the place of a turn. -/
theorem exists_quietFor_makeGenerator (hm : m.Active c) (frames : List Frame) {e : Executable}
    (hgen : e.routine.isGenerator = true) (site : CallSite) :
    ∃ (n : Nat) (m' : Store σ), m'.Active c ∧
      m'.world = (Turn.makeGenerator limit frames e site m.world).world ∧
      QuietFor host thread (n + 1)
        ⟨m, .calling (.executable e) { site with context := c }
          (.cons (.called (.plain limit c frames)) (.cons .callEnd s))⟩
        (place limit m' c s (Turn.makeGenerator limit frames e site m.world)) := by
  obtain ⟨n, m', hm', hw, hq⟩ := exists_quietFor_answer host thread limit s
    (m := (m.newGenerator (Frame.enter e site.scope site.receiver site.args)).2)
    (hm.of_contexts_eq rfl) frames
    (o := .ok (.generator (m.newGenerator (Frame.enter e site.scope site.receiver site.args)).1))
    (by simp)
  have hstep := quietFor_step host thread (⟨m, .calling (.executable e) { site with context := c }
    (.cons (.called (.plain limit c frames)) (.cons .callEnd s))⟩) rfl
  have hrunning : (m.context c).topCall.isSome = true := hm.running
  simp only [step, beginCall, interpret, hrunning, hgen, if_true] at hstep
  refine ⟨n, m', hm', ?_, ?_⟩
  · rw [Turn.makeGenerator, Turn.world_answer]
    exact hw
  · have h := hstep.trans hq
    rwa [Nat.add_comm] at h

/-- An instruction of interpreted code leads to the place of the next turn. -/
theorem exists_quietFor_next (hm : m.Active c) (frames : List Frame) :
    ∃ (n : Nat) (m' : Store σ), m'.Active c ∧
      m'.world = ((Turn.going frames m.world).next limit).world ∧
      QuietFor host thread (n + 1) (place limit m c s (.going frames m.world))
        (place limit m' c s ((Turn.going frames m.world).next limit)) := by
  -- the instruction is counted
  have hcount : count host m (.plain limit c frames) (.cons .callEnd s) =
      ⟨m.modifyContext c fun _ => m.context c, .executing (.plain limit c frames)
        (.cons .callEnd s)⟩ := by
    have hnone : (m.context c).countInstruction = (none, m.context c) := if_pos hm.unobserved
    simp only [count, Activation.plain, hnone]
  have hm₁ : (m.modifyContext c fun _ => m.context c).Active c := hm.modifyContext rfl rfl
  generalize hm₁eq : (m.modifyContext c fun _ => m.context c) = m₁ at hcount hm₁
  have hw₁ : m₁.world = m.world := by
    rw [← hm₁eq]
    rfl
  have hfirst := quietFor_step host thread (place limit m c s (.going frames m.world)) rfl
  have hstep₁ : (place limit m c s (.going frames m.world)).step host thread = _ := hcount
  rw [hstep₁] at hfirst
  -- and carried out, on this context as anywhere else
  have hmoved := (Activation.plain limit Turn.anywhere frames).execute_moved m₁ c
  rw [(Activation.plain limit Turn.anywhere frames).execute_eq m₁, hw₁] at hmoved
  have hcontinues := (Activation.plain limit Turn.anywhere frames).execute_continues m.world.bare
  simp only [Turn.next]
  generalize (Activation.plain limit Turn.anywhere frames).execute m.world.bare = r
    at hmoved hcontinues
  obtain ⟨move, mw⟩ := r
  have hm₂ : (m₁.setWorld mw.world).Active c := hm₁.of_contexts_eq rfl
  have hsecond := quietFor_step host thread (⟨m₁, .executing (.plain limit c frames) (.cons .callEnd s)⟩) rfl
  have hstep₂ : (⟨m₁, .executing (.plain limit c frames) (.cons .callEnd s)⟩ :
      Config σ .completion).step host thread =
        execute m₁ (.plain limit c frames) (.cons .callEnd s) := rfl
  have hexecute : (Activation.plain limit c frames).execute m₁ =
      (move.moved c, m₁.setWorld mw.world) := hmoved
  rw [hstep₂] at hsecond
  simp only [execute, hexecute] at hsecond
  cases move with
  | flow flow =>
    obtain ⟨n, m', hm', hw, hq⟩ := exists_quietFor_follow host thread limit s hm₂ hcontinues
    refine ⟨1 + n, m', hm', ?_, ?_⟩
    · simp only [Turn.ofMove, Turn.world_ofFlow]
      exact hw
    · have h := (hfirst.trans hsecond).trans hq
      rwa [show 1 + 1 + n = 1 + n + 1 by omega] at h
  | call b f site =>
    obtain ⟨⟨g, callers, rfl⟩, -, hawaited⟩ := hcontinues
    cases f with
    | executable e =>
      obtain ⟨n, m', hm', hw, hq⟩ :=
        exists_quietFor_makeGenerator host thread limit s hm₂ (g :: callers) hawaited site
      refine ⟨2 + n, m', hm', hw, ?_⟩
      have h := (hfirst.trans hsecond).trans hq
      rwa [show 1 + 1 + (n + 1) = 2 + n + 1 by omega] at h
    | hostFunction f =>
      exact ⟨1, m₁.setWorld mw.world, hm₂, rfl, hfirst.trans hsecond⟩
    | resumption r g op => exact absurd hawaited id
    | continuation k v => exact absurd hawaited id

variable {host thread limit s}

/-- A machine that shows a turn shows the next one. -/
theorem Shows.next (h : X.Shows host thread limit t) :
    X.Shows host thread limit (t.next limit) := by
  obtain ⟨hheld, m, c, s, hm, hs, hw, hq⟩ := h
  cases t with
  | going frames w =>
    obtain rfl : m.world = w := hw
    obtain ⟨n, m', hm', hw', hq'⟩ := exists_quietFor_next host thread limit s hm frames
    exact ⟨Turn.isHeld_next hheld, m', c, s, hm', hs, hw', hq.trans hq'.quiet⟩
  | waiting frames call => exact ⟨hheld, m, c, s, hm, hs, hw, hq⟩
  | left o w => exact ⟨hheld, m, c, s, hm, hs, hw, hq⟩

theorem Shows.of_reaches (h : X.Shows host thread limit t) (hr : t.Reaches limit u) :
    X.Shows host thread limit u := by
  obtain ⟨n, rfl⟩ := hr
  induction n generalizing t with
  | zero => exact h
  | succ n ih => exact ih h.next

/-! ## What can be seen -/

/-- A turn in its place reports what there is to see of it. -/
theorem reports_place {r : Report} (hs : Performs host thread s) (hw : m.world = t.world)
    (hr : t.report? = some r) : (place limit m c s t).Reports host thread r := by
  cases t with
  | going frames w => cases hr
  | waiting frames call =>
    obtain rfl : r = .call call := Option.some.inj hr.symm
    refine ⟨_, Quiet.refl _, ?_⟩
    simp only [place, report?, hw]
    rfl
  | left o w =>
    obtain rfl : m.world = w := hw
    obtain ⟨m', hq, hw', -⟩ := hs m o
    refine ⟨_, hq, ?_⟩
    rw [← hr]
    simp only [report?, Turn.report?, hw']

theorem settles_of_reports_place {r : Report} (n : Nat) : ∀ {m : Store σ} {t : Turn},
    m.Active c → Performs host thread s → m.world = t.world → ∀ {Y : Config σ .completion},
    QuietFor host thread n (place limit m c s t) Y → Y.report? = some r →
    ∃ u, t.Settles limit u ∧ u.report? = some r := by
  induction n using Nat.strongRecOn with
  | ind n ih =>
    intro m t hm hs hw Y hq hr
    cases t with
    | going frames w =>
      obtain rfl : m.world = w := hw
      obtain ⟨k, m', hm', hw', hq'⟩ := exists_quietFor_next host thread limit s hm frames
      obtain ⟨j, rfl, hj⟩ := hq'.split hq (by rw [hr]; rfl)
      obtain ⟨u, hu, hru⟩ := ih j (by omega) hm' hs hw' hj hr
      exact ⟨u, (Turn.reaches_next _).settles_iff.mp hu, hru⟩
    | waiting frames call =>
      have hplace : (place limit m c s (.waiting frames call)).Reports host thread (.call call) :=
        reports_place hs hw rfl
      exact ⟨_, Turn.settles_of_report rfl, congrArg some (hplace.unique ⟨Y, hq.quiet, hr⟩)⟩
    | left o w =>
      have hplace : (place limit m c s (.left o w)).Reports host thread
          (.ended (o.finish w).1 (o.finish w).2) := reports_place hs hw rfl
      exact ⟨_, Turn.settles_of_report rfl, congrArg some (hplace.unique ⟨Y, hq.quiet, hr⟩)⟩

/-- A machine that shows a turn reports what the turn comes to. -/
theorem Shows.reports_iff (h : X.Shows host thread limit t) (r : Report) :
    X.Reports host thread r ↔ ∃ u, t.Settles limit u ∧ u.report? = some r := by
  constructor
  · intro hr
    obtain ⟨-, m, c, s, hm, hs, hw, hq⟩ := h
    obtain ⟨Y, ⟨n, hn⟩, hY⟩ := (hq.reports_iff r).mp hr
    exact settles_of_reports_place n hm hs hw hn hY
  · rintro ⟨u, hu, hr⟩
    obtain ⟨-, m, c, s, -, hs, hw, hq⟩ := h.of_reaches hu.1
    exact (hq.reports_iff r).mpr (reports_place hs hw hr)

/-- A machine that shows a turn and comes to a host call has the frames of the turn there. -/
theorem Shows.at_hostCall (h : X.Shows host thread limit t) {h' : HostFunction} {site : CallSite}
    {a : Activation} {r : Stack σ .exit .completion}
    (hq : Quiet host thread X (atHostCall m h' site a r)) :
    ∃ (frames : List Frame) (s : Stack σ .completion .completion),
      t.Settles limit (.waiting frames ⟨h', site.scope, site.receiver, site.args, m.world⟩) ∧
        frames ≠ [] ∧ m.Active site.context ∧ Performs host thread s ∧
        a = .plain limit site.context frames ∧ r = .cons .callEnd s := by
  obtain ⟨u, hu, hr⟩ := (h.reports_iff _).mp ⟨_, hq, rfl⟩
  obtain ⟨hheld, m', c, s, hm', hs, hw, hq'⟩ := h.of_reaches hu.1
  cases u with
  | going frames w => cases hr
  | left o w => cases hr
  | waiting frames call =>
    obtain rfl := Report.call.inj (Option.some.inj hr)
    obtain ⟨c', scope, receiver, args⟩ := site
    cases hq.unique hq' rfl rfl
    exact ⟨frames, s, hu, hheld, hm', hs, rfl, rfl⟩

end Config

end ScriptMachine
