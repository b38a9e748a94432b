import ScriptMachine.Proofs.Capture.Placement

/-!
# Captures are transparent

A run that accepts captures may be cut at any host call of interpreted code: the host function
captures, the run ends, and a later run resumes the continuation with a value. What the cut run
then does is what a run does in which the host function returned the value at once, however
often the run is cut.
-/

namespace ScriptMachine

variable {σ : Type}

/-- A store in which a continuation holds frames. -/
def Store.hold (m : Store σ) (k : Id .continuation) (frames : List Frame) : Store σ :=
  { m with continuations := m.continuations.set k (.captured frames) }

theorem Store.get_hold {m : Store σ} {k : Id .continuation}
    (hk : m.continuations.get k = .pending) (frames : List Frame) :
    (m.hold k frames).continuations.get k = .captured frames := by
  have hne : m.continuations.get? k ≠ none := by
    intro hnone
    rw [Table.get, hnone] at hk
    cases hk
  obtain ⟨state, hstate⟩ := Option.ne_none_iff_exists'.mp hne
  simp only [hold, Table.get, Table.set, Table.get?_modify, if_true, hstate, Option.map_some,
    Option.getD_some]

namespace Config

variable {host : Host σ} {thread : Id .thread} {limit : Nat} {m : Store σ} {c : Id .context}

/-! ## Outermost calls -/

/-- The end of an outermost call that accepts captures. -/
def closing (c : Id .context) (previous : Bool) : Stack σ .completion .completion :=
  .cons (.clearTopCall c) (.cons (.restoreCaptures c previous) .nil)

variable (thread) in
/-- On a context that is ready, an outermost call that accepts captures is begun at once. -/
theorem exists_quiet_beginCapturing (h : m.Ready host c) (f : Callable) (scope : Id .scope)
    (args : List Value) (isStrict : Bool) :
    ∃ (m' : Store σ) (s : Stack σ .completion .completion), m'.Active c ∧
      Performs host thread s ∧ m'.world = m.world ∧ m'.continuations = m.continuations ∧
      (m'.context c).frameLimit = (m.context c).frameLimit ∧
      Quiet host thread (beginCapturing host m f c scope args isStrict .nil)
        ⟨m', .calling f ⟨c, scope, .object scope, args⟩ s⟩ := by
  have hk₁ := Store.knows_modifyContext c (fun cx => { cx with acceptsCaptures := true }) h.known
  have hc₁ := Store.context_modifyContext h.known fun cx => { cx with acceptsCaptures := true }
  have hready : (m.modifyContext c fun cx => { cx with acceptsCaptures := true }).Ready host c := by
    refine ⟨hk₁, ?_, ?_, ?_⟩
    · rw [hc₁]
      exact h.idle
    · rw [hc₁]
      exact h.unobserved
    · simp only [Store.factoryOf, hc₁]
      exact h.isDefault
  obtain ⟨m₂, s, hm₂, hactive, hs, -, hq⟩ :=
    exists_quiet_beginOutermost ⟨c, scope, .object scope, args⟩ hready
      ((handsOn_nil host thread).restoreCaptures c (m.context c).acceptsCaptures) f isStrict
  have hc₂ := Store.context_modifyContext hk₁ fun cx =>
    { cx with topCall := some ⟨scope, isStrict⟩ }
  refine ⟨m₂, s, hactive, hs, ?_, ?_, ?_, hq⟩
  · rw [hm₂]
    rfl
  · rw [hm₂]
    rfl
  · rw [hm₂, hc₂, hc₁]

/-! ## Entries -/

/-- The turn at which a call of an executable begins. -/
def enterTurn (e : Executable) (site : CallSite) (w : World) : Turn :=
  let frame := Frame.enter e site.scope site.receiver site.args
  if e.routine.isGenerator then
    let (g, m) := w.bare.newGenerator frame
    .left (.ok (.generator g)) m.world
  else .going [frame] w

theorem shows_call {s : Stack σ .completion .completion} (e : Executable) (site : CallSite)
    (hm : m.Active site.context) (hs : Performs host thread s)
    (hlimit : (m.context site.context).frameLimit = limit) :
    Shows host thread limit ⟨m, .calling (.executable e) site s⟩ (enterTurn e site m.world) := by
  have hstep := (quietFor_step host thread
    (⟨m, .calling (.executable e) site s⟩) rfl).quiet
  simp only [step, beginCall, hm.running, if_true] at hstep
  simp only [enterTurn]
  cases hgen : e.routine.isGenerator with
  | true =>
    simp only [interpret, hgen, if_true] at hstep
    rw [if_pos rfl]
    exact ⟨trivial, (m.newGenerator (Frame.enter e site.scope site.receiver site.args)).2,
      site.context, s, hm.of_contexts_eq rfl, hs, rfl, hstep⟩
  | false =>
    simp only [interpret, hgen, Bool.false_eq_true, if_false, beginActivation, hlimit] at hstep
    rw [if_neg Bool.false_ne_true]
    exact ⟨trivial, _, site.context, s, hm.modifyContext rfl rfl, hs, rfl, hstep⟩

/-- The turn at which an entry begins. -/
def entryTurn (w : World) : Entry → Turn
  | .script e _ scope => enterTurn e ⟨⟨0⟩, scope, .object scope, []⟩ w
  | .function e scope args => enterTurn e ⟨⟨0⟩, scope, .object scope, args⟩ w

variable (thread) in
/-- A run on a context that is ready shows how its entry begins. -/
theorem shows_ofEntry (h : m.Ready host c) (entry : Entry) :
    Shows host thread (m.context c).frameLimit (ofEntry host thread m c entry)
      (entryTurn m.world entry) := by
  have hidle : (m.context c).topCall.isSome = false := by simp [h.idle]
  cases entry with
  | script e hscript scope =>
    obtain ⟨m', s, hm', hs, hw, -, hlimit, hq⟩ := exists_quiet_beginCapturing thread h (.executable e) scope [] e.routine.isStrict
    have hbegin : ofEntry host thread m c (.script e hscript scope) =
        beginCapturing host m (.executable e) c scope [] e.routine.isStrict .nil := by
      simp only [ofEntry, ofAction, beginAction, beginAction.beginCapturingCall, hscript, hidle]
      rfl
    rw [hbegin]
    have hshows := shows_call e ⟨c, scope, .object scope, []⟩ hm' hs hlimit
    rw [hw] at hshows
    exact hshows.of_quiet hq
  | function e scope args =>
    obtain ⟨m', s, hm', hs, hw, -, hlimit, hq⟩ := exists_quiet_beginCapturing thread h (.executable e) scope args e.routine.isStrict
    have hbegin : ofEntry host thread m c (.function e scope args) =
        beginCapturing host m (.executable e) c scope args e.routine.isStrict .nil := by
      simp only [ofEntry, ofAction, beginAction, beginAction.beginCapturingCall, hidle]
      rfl
    rw [hbegin]
    have hshows := shows_call e ⟨c, scope, .object scope, args⟩ hm' hs hlimit
    rw [hw] at hshows
    exact hshows.of_quiet hq

/-! ## Captures and resumptions -/

/-- A run of a continuation goes on as if the call that captured it had returned the value. -/
theorem shows_resume (h : m.Ready host c) {k : Id .continuation} {frames : List Frame}
    (hk : m.continuations.get k = .captured frames) (hne : frames ≠ []) (scope : Id .scope)
    (v : Value) :
    Shows host thread (m.context c).frameLimit (ofAction host thread m (.resume k c scope v))
      (.answer (m.context c).frameLimit frames (.ok v) m.world) := by
  obtain ⟨f, callers, rfl⟩ := List.exists_cons_of_ne_nil hne
  have hidle : (m.context c).topCall.isSome = false := by simp [h.idle]
  have hresumable : (m.continuations.get k).isResumable = true := by rw [hk]; rfl
  obtain ⟨m', s, hm', hs, hw, hk', hlimit, hq⟩ := exists_quiet_beginCapturing thread h (.continuation k v) scope [] (m.continuations.get k).isStrict
  have hbegin : ofAction host thread m (.resume k c scope v) =
      beginCapturing host m (.continuation k v) c scope [] (m.continuations.get k).isStrict
        .nil := by
    simp only [ofAction, beginAction, hidle, hresumable]
    rfl
  have htake : m'.takeFrames k =
      .ok (f :: callers, { m' with continuations := m'.continuations.set k .resumed }) := by
    simp only [Store.takeFrames, hk', hk]
  have hstep := (quietFor_step host thread
    (⟨m', .calling (.continuation k v) ⟨c, scope, .object scope, []⟩ s⟩) rfl).quiet
  simp only [step, beginCall, beginContinuation, htake, beginActivation] at hstep
  rw [hbegin]
  refine Shows.of_quiet ?_ (hq.trans hstep)
  have hcontext : Store.context
      { m' with continuations := m'.continuations.set k .resumed } c = m'.context c := rfl
  rw [hcontext, hlimit, ← hw]
  have hactive : Store.Active
      { m' with continuations := m'.continuations.set k .resumed } c := hm'.of_contexts_eq rfl
  exact ⟨trivial, _, c, s, hactive.modifyContext rfl rfl, hs, rfl, Quiet.refl _⟩

/-- A host function answers on the bookkeeping that it was called on. -/
theorem Answers.ledger_eq {m' : Store σ} {f : HostFunction} {site : CallSite} {o : Outcome}
    (h : Answers host thread m f site o m') (hm : m.Knows c) :
    m'.Knows c ∧ m'.ledger c = m.ledger c := by
  obtain ⟨n, hn⟩ := h
  have hkeeps : Keeps c (m.ledger c)
      (⟨m, .calling (.hostFunction f) site .nil⟩ : Config σ .completion) := ⟨hm, rfl⟩
  have hrun := run_keeps host thread hkeeps n
  rw [hn] at hrun
  exact hrun

theorem Answers.active {m' : Store σ} {f : HostFunction} {site : CallSite} {o : Outcome}
    (h : Answers host thread m f site o m') (hm : m.Active c)
    (hobs : (m'.context c).observerThreshold = 0) : m'.Active c := by
  obtain ⟨hk, hl⟩ := h.ledger_eq hm.known
  have htop : (m'.context c).topCall = (m.context c).topCall := congrArg Ledger.topCall hl
  refine ⟨hk, ?_, hobs⟩
  rw [htop]
  exact hm.running

/-- While a host function runs, no fewer activations are under way than when it was called. -/
theorem depth_le_of_keeps {goal : Kind} {l : Ledger} {X : Config σ goal} (h : X.Keeps c l)
    {κ : Kind} {p : Program σ κ} {s : Stack σ κ goal} (hX : X.state = .running p s) :
    l.depth ≤ (X.store.context c).depth := by
  obtain ⟨-, hsettles⟩ := h
  rw [hX] at hsettles
  have hle := s.depth_settle_le c (X.store.ledger c)
  rw [show s.settle c (X.store.ledger c) = l from hsettles] at hle
  exact hle

/-- A capture is granted to a single activation. -/
theorem depth_le_one_of_isGiven {goal : Kind} {X : Config σ goal} {k : Id .continuation}
    (h : IsGiven c k X) : (X.store.context c).depth ≤ 1 := by
  obtain ⟨κ, next, s, m, -, hrequest⟩ := h
  unfold Store.requestCapture at hrequest
  dsimp only at hrequest
  split at hrequest
  · cases hrequest
  · split at hrequest
    · cases hrequest
    · split at hrequest
      · cases hrequest
      · omega

theorem Captures.depth_le_one {m' : Store σ} {f : HostFunction} {site : CallSite} {p : Pending}
    (h : Captures host thread m f site p m') (hm : m.Knows site.context) :
    (m'.context site.context).depth ≤ 1 := by
  obtain ⟨n, hgiven⟩ := h.isGiven
  have hkeeps : Keeps site.context (m.ledger site.context)
      (⟨m, .calling (.hostFunction f) site .nil⟩ : Config σ .completion) := ⟨hm, rfl⟩
  have hone := depth_le_one_of_isGiven hgiven
  obtain ⟨κ, next, s, m₁, hstate, -⟩ := hgiven
  have hle := depth_le_of_keeps (run_keeps host thread hkeeps n) hstate
  obtain ⟨-, hl⟩ := h.answers.ledger_eq hm
  have hdepth : (m'.ledger site.context).depth = (m.ledger site.context).depth := by rw [hl]
  simp only [Store.ledger, Context.ledger] at hdepth hle
  omega

variable (limit) in
/-- A run in which a host function captures ends with the continuation, which holds the
frames. -/
theorem Captures.exists_suspends {m' : Store σ} {f : HostFunction} {site : CallSite}
    {p : Pending} (h : Captures host thread m f site p m') (hm : m.Knows site.context)
    (frames : List Frame) {s : Stack σ .completion .completion} (hs : Performs host thread s) :
    ∃ m₂ : Store σ,
      Suspends host thread
        (atHostCall m f site (.plain limit site.context frames) (.cons .callEnd s)) p m₂ ∧
      m₂.continuations.get p.continuation = .captured frames ∧ m₂.world = m'.world := by
  obtain ⟨n, hn⟩ := h.answers.exists_run
    (.cons (.called (.plain limit site.context frames)) (.cons .callEnd s))
  have hdepth : ¬ 1 < (m'.context site.context).depth := Nat.not_lt.mpr (h.depth_le_one hm)
  have hpending := h.pending
  have hfresh : (m'.continuations.get p.continuation).isCaptured = false := by
    rw [hpending]
    rfl
  -- the activation hands its frames over and leaves
  have hfail : (Activation.plain limit site.context frames).fail (.suspended p) m' =
      (.leave (.error (.suspended p)), m'.hold p.continuation frames) := by
    simp only [Activation.fail, Activation.capture, Activation.plain, if_neg hdepth, hfresh]
    rfl
  obtain ⟨m₂, hq, hw, hk⟩ := hs
    (changeDepth (m'.hold p.continuation frames) site.context (· - 1)) (.error (.suspended p))
  obtain ⟨j, hj⟩ := hq.exists_run
  refine ⟨m₂, ⟨n + 2 + j, ?_⟩, ?_, hw⟩
  · have htwo : run host thread 2 (⟨m', .returning (κ := .completion) (.error (.suspended p))
        (.cons (.called (.plain limit site.context frames)) (.cons .callEnd s))⟩ :
          Config σ .completion) =
        give (changeDepth (m'.hold p.continuation frames) site.context (· - 1)) .completion
          (.error (.suspended p)) s := by
      simp only [run, step, take, hfail, follow]
      rfl
    rw [run_add, run_add, hn, htwo, hj]
    rfl
  · rw [hk]
    exact Store.get_hold hpending frames

/-- A run ends once. -/
theorem Suspends.unique {X : Config σ .completion} {p p' : Pending} {m' : Store σ}
    (h : Suspends host thread X p m) (h' : Suspends host thread X p' m') : m = m' := by
  obtain ⟨n, hn⟩ := h
  obtain ⟨k, hk⟩ := h'
  have hnk := run_add host thread X n k
  have hkn := run_add host thread X k n
  rw [hn, run_give_nil] at hnk
  rw [hk, run_give_nil, Nat.add_comm] at hkn
  exact congrArg Config.store (hnk.symm.trans hkn)

theorem Suspends.of_quiet {X Y : Config σ .completion} {p : Pending}
    (h : Suspends host thread Y p m) (hq : Quiet host thread X Y) :
    Suspends host thread X p m := by
  obtain ⟨n, hn⟩ := h
  obtain ⟨k, hk⟩ := hq.exists_run
  exact ⟨k + n, by rw [run_add, hk, hn]⟩

/-! ## Courses -/

/-- The machine follows the turns of its interpreted code along a course. -/
theorem Course.exists_follows {cuts : Nat} {exchanges : List Exchange}
    {X Y : Config σ .completion} (h : Course host thread limit cuts X exchanges Y) {t : Turn}
    (hX : X.Shows host thread limit t) :
    ∃ u, Turn.Follows limit t exchanges u ∧ Y.Shows host thread limit u := by
  induction h generalizing t with
  | here X => exact ⟨t, .nil t, hX⟩
  | answered hquiet hanswer hplain hunobserved rest ih =>
    obtain ⟨frames, s, hsettles, -, hm, hs, rfl, rfl⟩ := hX.at_hostCall hquiet
    have hm' := hanswer.active hm hunobserved
    obtain ⟨n, m'', hm'', hw, hq⟩ := exists_quietFor_answer host thread limit s hm' frames
      hplain
    obtain ⟨u, hu, hY⟩ := ih ⟨Turn.isHeld_answer _ _ _ _, m'', _, s, hm'', hs,
      hw.trans (Turn.world_answer _ _ _ _).symm, hq.quiet⟩
    exact ⟨u, .cons hsettles hu, hY⟩
  | resumed hquiet hcapture hend hheld hready hlimit rest ih =>
    obtain ⟨frames, s, hsettles, hne, hm, hs, rfl, rfl⟩ := hX.at_hostCall hquiet
    obtain ⟨m₂, hsuspends, hframes, -⟩ := hcapture.exists_suspends limit hm.known frames
      hs
    obtain rfl := hend.unique (hsuspends.of_quiet hquiet)
    obtain rfl := hlimit
    obtain ⟨u, hu, hY⟩ := ih (shows_resume hready (hheld.trans hframes) hne _ _)
    exact ⟨u, .cons hsettles hu, hY⟩

/-- Captures are transparent. Take a run from an entry that accepts captures, cut any number of
times by host functions that captured and continuations that were resumed with a value, and
another run from the same entry in the same world that had the same exchanges with its host; if
it was never cut, then its host functions returned the values at once.

Then both come to the same from there: the same next host call in the same world, or the same
end of the call in the same world. And wherever a host function captures on the way, the run
ends with the continuation, which can be resumed, in the world that the host function left. -/
theorem transparent_of_course {σ' : Type} {host : Host σ} {host' : Host σ'}
    {thread thread' : Id .thread} {m : Store σ} {m' : Store σ'} {c c' : Id .context}
    {entry : Entry} {cuts cuts' : Nat} {exchanges : List Exchange} {X : Config σ .completion}
    {Y : Config σ' .completion} (hm : m.Ready host c) (hm' : m'.Ready host' c')
    (hworld : m'.world = m.world)
    (hlimit : (m'.context c').frameLimit = (m.context c).frameLimit)
    (hX : Course host thread (m.context c).frameLimit cuts (ofEntry host thread m c entry)
      exchanges X)
    (hY : Course host' thread' (m.context c).frameLimit cuts'
      (ofEntry host' thread' m' c' entry) exchanges Y) :
    (∀ r, X.Reports host thread r ↔ Y.Reports host' thread' r) ∧
    ∀ {m₀ m₁ : Store σ} {h : HostFunction} {site : CallSite} {a : Activation}
      {s : Stack σ .exit .completion} {p : Pending},
      Quiet host thread X (atHostCall m₀ h site a s) → Captures host thread m₀ h site p m₁ →
      ∃ m₂, Suspends host thread X p m₂ ∧
        (m₂.continuations.get p.continuation).isResumable ∧ m₂.world = m₁.world := by
  obtain ⟨t, ht, hXt⟩ := hX.exists_follows (shows_ofEntry thread hm entry)
  have hYshows := shows_ofEntry thread' hm' entry
  rw [hworld, hlimit] at hYshows
  obtain ⟨u, hu, hYu⟩ := hY.exists_follows hYshows
  constructor
  · intro r
    rw [hXt.reports_iff, hYu.reports_iff]
    constructor
    · rintro ⟨v, hv, hr⟩
      exact ⟨v, (ht.settles_iff hu).mp hv, hr⟩
    · rintro ⟨v, hv, hr⟩
      exact ⟨v, (ht.settles_iff hu).mpr hv, hr⟩
  · intro m₀ m₁ h site a s p hquiet hcapture
    obtain ⟨frames, r, -, -, hm₀, hr, rfl, rfl⟩ := hXt.at_hostCall hquiet
    obtain ⟨m₂, hsuspends, hframes, hw⟩ := hcapture.exists_suspends
      (m.context c).frameLimit hm₀.known frames hr
    refine ⟨m₂, hsuspends.of_quiet hquiet, ?_, hw⟩
    rw [hframes]
    rfl

/-! ## A call that is cut -/

/-- A function that calls its argument and returns what the call gives. -/
def callArgument : Executable where
  id := ⟨0⟩
  shared := ⟨⟨⟨0⟩, []⟩,
    { name := none
      kind := .function
      isGenerator := false
      isStrict := false
      isExpression := true
      paramCount := 1
      names := #["f"]
      isConst := #[false]
      code := #[.loadLocal 0, .undefined, .call 0, .ret]
      nested := [] }⟩
  security := none
  valid := by decide

/-- A host whose functions all do the same. -/
def uniformHost (body : CallSite → Program Unit .completion) : Host Unit where
  run _ := body
  makeContext _ _ := .finish (κ := .made) ⟨0⟩
  outermost _ := .standardOutermost
  observe _ _ _ := .finish (κ := .verdict) (.ok ())
  hasFeature _ _ _ _ := false
  notify _ _ _ := .finish (κ := .done) ()
  resolve _ domain s := (domain, s)

/-- A host whose functions capture. -/
def capturingHost : Host Unit :=
  uniformHost fun site => .ask (.context (.requestCapture site.context)) fun
    | .ok p => .finish (κ := .completion) (.error (.suspended p))
    | .error f => .finish (κ := .completion) (.error (.fault f))

/-- A host whose functions answer true. -/
def answeringHost : Host Unit := uniformHost fun _ => .finish (κ := .completion) (.ok (.bool true))

/-- A store with one context. -/
def oneContext : Store Unit :=
  { Store.initial () with contexts := ⟨#[{ factory := ⟨0⟩ }]⟩ }

theorem ready_oneContext (host : Host Unit) : oneContext.Ready host ⟨0⟩ :=
  ⟨rfl, rfl, rfl, trivial⟩

/-- The argument is a host function. -/
def callHost : Entry := .function callArgument ⟨0⟩ [.hostFunction ⟨⟨0⟩, "f"⟩]

/-- The store while the function runs. -/
def whileRunning : Store Unit :=
  { Store.initial () with contexts := ⟨#[{
    factory := ⟨0⟩, topCall := some ⟨⟨0⟩, false⟩, acceptsCaptures := true, depth := 1 }]⟩ }

/-- The frame of the function. -/
def frameAt (position : Nat) (operands : List Value) : Frame :=
  { body := callArgument
    position
    operands
    locals := #[.hostFunction ⟨⟨0⟩, "f"⟩]
    handlers := []
    cleanups := []
    scope := ⟨0⟩
    receiver := .object ⟨0⟩ }

/-- The activation of the function. -/
def activationAt (position : Nat) (operands : List Value) : Activation :=
  .plain defaultFrameLimit ⟨0⟩ [frameAt position operands]

/-- The outermost call that the function runs in. -/
def outermostCall : Stack Unit .completion .completion := .cons .flattenResult (closing ⟨0⟩ false)

/-- The function is about to carry out an instruction. -/
def countingAt (position : Nat) (operands : List Value) : Config Unit .completion :=
  ⟨whileRunning, .counting (activationAt position operands) (.cons .callEnd outermostCall)⟩

variable (host : Host Unit)

theorem quiet_callHost :
    Quiet host ⟨0⟩ (ofEntry host ⟨0⟩ oneContext ⟨0⟩ callHost)
      (atHostCall whileRunning ⟨⟨0⟩, "f"⟩ ⟨⟨0⟩, ⟨0⟩, .undefined, []⟩ (activationAt 3 [])
        (.cons .callEnd outermostCall)) := by
  have hbegin : Quiet host ⟨0⟩ (ofEntry host ⟨0⟩ oneContext ⟨0⟩ callHost) (countingAt 0 []) :=
    quiet_step rfl
  have hload : Quiet host ⟨0⟩ (countingAt 0 []) (countingAt 1 [.hostFunction ⟨⟨0⟩, "f"⟩]) :=
    (quiet_step rfl).trans (quiet_step rfl)
  have hreceiver : Quiet host ⟨0⟩ (countingAt 1 [.hostFunction ⟨⟨0⟩, "f"⟩])
      (countingAt 2 [.undefined, .hostFunction ⟨⟨0⟩, "f"⟩]) :=
    (quiet_step rfl).trans (quiet_step rfl)
  have hcall : Quiet host ⟨0⟩ (countingAt 2 [.undefined, .hostFunction ⟨⟨0⟩, "f"⟩])
      (atHostCall whileRunning ⟨⟨0⟩, "f"⟩ ⟨⟨0⟩, ⟨0⟩, .undefined, []⟩ (activationAt 3 [])
        (.cons .callEnd outermostCall)) :=
    (quiet_step rfl).trans (quiet_step rfl)
  exact hbegin.trans (hload.trans (hreceiver.trans hcall))

theorem captures_capturingHost :
    Captures capturingHost ⟨0⟩ whileRunning ⟨⟨0⟩, "f"⟩ ⟨⟨0⟩, ⟨0⟩, .undefined, []⟩ ⟨⟨0⟩, none⟩
      { whileRunning with continuations := ⟨#[.pending]⟩ } where
  answers := ⟨3, rfl⟩
  isGiven := ⟨1, .completion, _, .nil, _, rfl, rfl⟩
  pending := rfl

/-- The continuation, held by a store with an idle context. -/
def heldStore : Store Unit :=
  { oneContext with continuations := ⟨#[.captured [frameAt 3 []]]⟩ }

/-- The host function has answered true. -/
def answeredConfig : Config Unit .completion :=
  give whileRunning .completion (.ok (.bool true))
    (.cons (.called (activationAt 3 [])) (.cons .callEnd outermostCall))

/-- The held continuation is resumed with true, under another scope. -/
def resumedConfig : Config Unit .completion :=
  ofAction capturingHost ⟨0⟩ heldStore (.resume ⟨0⟩ ⟨0⟩ ⟨5⟩ (.bool true))

/-- What the call and its host exchange. -/
def exchangedTrue : Exchange :=
  ⟨⟨⟨⟨0⟩, "f"⟩, ⟨0⟩, .undefined, [], {}⟩, .ok (.bool true), {}⟩

theorem reports_answeredConfig :
    Reports host ⟨0⟩ answeredConfig (.ended (.ok (.bool true)) {}) := by
  have hdeliver : Quiet host ⟨0⟩ answeredConfig (countingAt 3 [.bool true]) := quiet_step rfl
  refine ⟨_, hdeliver.trans ((quiet_step rfl).trans ((quiet_step rfl).trans ((quiet_step rfl).trans
    ((quiet_step rfl).trans ((quiet_step rfl).trans (quiet_step rfl)))))), rfl⟩

theorem course_answeredConfig :
    Course answeringHost ⟨0⟩ defaultFrameLimit 0
      (ofEntry answeringHost ⟨0⟩ oneContext ⟨0⟩ callHost) [exchangedTrue] answeredConfig :=
  .answered (quiet_callHost answeringHost) ⟨2, rfl⟩ (by simp) rfl (.here _)

theorem course_resumedConfig :
    Course capturingHost ⟨0⟩ defaultFrameLimit 1
      (ofEntry capturingHost ⟨0⟩ oneContext ⟨0⟩ callHost) [exchangedTrue] resumedConfig := by
  have hclosing : HandsOn capturingHost ⟨0⟩ (closing ⟨0⟩ false) :=
    ((handsOn_nil _ _).restoreCaptures ⟨0⟩ false).clearTopCall ⟨0⟩
  obtain ⟨m, hend, hframes, -⟩ := captures_capturingHost.exists_suspends defaultFrameLimit rfl
    [frameAt 3 []] hclosing.performs_flattenResult
  have hheld : heldStore.continuations.get ⟨0⟩ = m.continuations.get ⟨0⟩ := hframes.symm
  have hready : heldStore.Ready capturingHost ⟨0⟩ := ⟨rfl, rfl, rfl, trivial⟩
  exact .resumed (quiet_callHost capturingHost) captures_capturingHost
    (hend.of_quiet (quiet_callHost capturingHost)) hheld hready rfl (.here _)

/-- A call that was cut and is resumed with true comes to what it comes to when the host function
returns true. -/
theorem reports_resumedConfig :
    Reports capturingHost ⟨0⟩ resumedConfig (.ended (.ok (.bool true)) {}) := by
  obtain ⟨hreports, -⟩ := transparent_of_course (ready_oneContext capturingHost)
    (ready_oneContext answeringHost) rfl rfl course_resumedConfig course_answeredConfig
  exact (hreports _).mpr (reports_answeredConfig answeringHost)

end Config

end ScriptMachine
