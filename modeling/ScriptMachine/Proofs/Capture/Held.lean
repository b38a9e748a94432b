import ScriptMachine.Proofs.Capture.Offered
import ScriptMachine.Proofs.Unwinding.Passage

/-!
# What a reported continuation holds

A run that accepts captures can end with a continuation only if a host function answered the
run's own activation with one: instructions never raise it, and the policy of the outermost call
hands on what it is told. A continuation that had no frames before then takes all frames of the
activation. One that had frames before stays as it was, and the frames of the run that has just
ended are nowhere.
-/

namespace ScriptMachine

variable {σ : Type} {goal : Kind}

/-- The ways to begin a run that accepts captures. -/
inductive CapturingRun where
  | script (e : Executable) (scope : Id .scope)
  | function (e : Executable) (scope : Id .scope) (args : List Value)
  | resumption (k : Id .continuation) (scope : Id .scope) (v : Value)

/-! ## Policies that hand on what they are told -/

/-- The program asks at most, and ends with a continuation only if it was told about one. -/
def Program.EndsAfter (o : Outcome) : {κ : Kind} → Program σ κ → Prop
  | κ, .finish x => ∀ p, κ.Carries (.suspended p) x → o = .error (.suspended p)
  | _, .panic => True
  | _, .ask _ k => ∀ reply, (k reply).EndsAfter o
  | _, .act _ _ | _, .bracket _ _ _ | _, .guard _ _ => False

/-- The program calls the callee, as often as it likes, and does nothing else but ask. It ends with
a continuation only if its last call did. -/
def Program.Delegates (f : Callable) (site : CallSite) : {κ : Kind} → Program σ κ → Prop
  | κ, .finish x => ∀ p, ¬ κ.Carries (.suspended p) x
  | _, .panic => True
  | _, .ask _ k => ∀ reply, (k reply).Delegates f site
  | _, .act (.call f' site') k =>
    f' = f ∧ site' = site ∧ ∀ o : Outcome, (k o).EndsAfter o ∨ (k o).Delegates f site
  | _, .act _ _ | _, .bracket _ _ _ | _, .guard _ _ => False

/-- The policy leaves the outermost call to the callee. -/
def Policy.Delegates (host : Host σ) : Policy → Prop
  | .standard | .planned _ => True
  | .custom p => ∀ f site, (host.outermost p f site).Delegates f site

theorem Program.delegates_standardOutermost (f : Callable) (site : CallSite) :
    (Program.standardOutermost f site : Program σ .completion).Delegates f site := by
  refine ⟨rfl, rfl, ?_⟩
  intro o
  cases o with
  | ok v => exact .inl fun w p h => by cases h
  | error e => exact .inl fun p h => h

namespace Config

variable {host : Host σ} {thread : Id .thread} {c : Id .context} {p : Pending} {m m' : Store σ}

/-! ## Outermost calls -/

/-- A request makes a new continuation and leaves the others as they are. -/
theorem get?_requestCapture {k : Id .continuation} {state : CaptureState} {q : Pending}
    (h : m.requestCapture c = .ok (q, m')) (hk : m.continuations.get? k = some state) :
    m'.continuations.get? k = some state := by
  have hnew : k ≠ m.continuations.next := by
    rintro rfl
    simp [Table.get?, Table.next] at hk
  simp only [Store.requestCapture] at h
  split at h
  · cases h
  · split at h
    · cases h
    · split at h
      · cases h
      · cases h
        show (m.continuations.insert .pending).2.get? k = some state
        rw [Table.get?_insert, if_neg hnew]
        exact hk

variable (host thread) in
/-- A query leaves every continuation as it is. -/
theorem get?_ask (m : Store σ) (q : Query σ) {k : Id .continuation} {state : CaptureState}
    (h : m.continuations.get? k = some state) :
    (q.perform host thread m).2.continuations.get? k = some state := by
  cases q with
  | context q =>
    cases q with
    | requestCapture c =>
      simp only [Query.perform, ContextQuery.perform]
      split
      · next hrequest => exact get?_requestCapture hrequest h
      · exact h
    | setController c controller =>
      simp only [Query.perform, ContextQuery.perform]
      split <;> exact h
    | _ => exact h
  | code q =>
    cases q with
    | create kind r domain =>
      simp only [Query.perform, CodeQuery.perform, Store.createExecutable]
      split
      · exact h
      · split
        · exact h
        · split
          · exact h
          · split
            · exact h
            · split <;> exact h
    | nested e index =>
      simp only [Query.perform, CodeQuery.perform]
      split <;> exact h
    | share r => exact h
  | _ => exact h

/-- A program that has been told an outcome ends with a continuation only if that is what it was
told, and leaves every continuation as it is. -/
theorem eq_of_endsAfter {κ : Kind} {P : Program σ κ} {o : Outcome} (hP : P.EndsAfter o) {n : Nat}
    {x : κ.Result} (h : (start m P).run host thread n = give m' κ x .nil)
    (hx : κ.Carries (.suspended p) x) :
    o = .error (.suspended p) ∧ ∀ (k : Id .continuation) (state : CaptureState),
      m.continuations.get? k = some state → m'.continuations.get? k = some state := by
  have hnext := run_step_of_give h
  induction P generalizing m with
  | finish y =>
    obtain ⟨rfl, rfl⟩ := eq_of_run_give (run_one host thread _) h
    exact ⟨hP p hx, fun _ _ h => h⟩
  | panic =>
    rw [run_of_ending host thread (x := .panicked) rfl] at hnext
    cases hnext
  | ask q next ih =>
    obtain ⟨ho, hkept⟩ := ih (q.perform host thread m).1 (hP _) hnext hx (run_step_of_give hnext)
    exact ⟨ho, fun k state hk => hkept k state (get?_ask host thread m q hk)⟩
  | act | bracket | guard => exact absurd hP id

/-- The standard way to perform an outermost call. -/
theorem offers_flattenResult {f : Callable} (hf : f.IsInterpreted) {site : CallSite}
    (htop : (m.context site.context).topCall.isSome) {n : Nat}
    (h : (⟨m, .calling f site (.cons .flattenResult .nil)⟩ : Config σ .completion).run host thread n =
      give m' .completion (.error (.suspended p)) .nil) :
    (⟨m, .calling f site (.cons .flattenResult .nil)⟩ : Config σ .completion).Offers host thread
      site.context p (.cons .callEnd (.cons .flattenResult .nil)) m' := by
  have hpasses : (Stack.cons (Task.flattenResult : Task σ .completion .completion) .nil).IsOpen :=
    ⟨trivial, trivial⟩
  obtain ⟨k, m₁, o, -, hk, -, hrest⟩ :=
    exists_result_of_onto (X := ⟨m, .calling f site .nil⟩) hpasses h
  cases o with
  | ok v =>
    have hstep : (give m₁ .completion (.ok v) (.cons .flattenResult .nil)).run host thread 1 =
      give (m₁.flattening v.flatten).2 .completion (.ok (m₁.flattening v.flatten).1) .nil := rfl
    cases (eq_of_run_give hstep hrest).2
  | error e =>
    have hstep : (give m₁ .completion (.error e) (.cons .flattenResult .nil)).run host thread 1 =
      give m₁ .completion (.error e) .nil := rfl
    obtain ⟨rfl, he⟩ := eq_of_run_give hstep hrest
    cases he
    exact (offers_calling hf htop hk).onto _

/-- A program that leaves the call to the callee. -/
theorem offers_delegates {κ : Kind} {f : Callable} (hf : f.IsInterpreted) {site : CallSite}
    {P : Program σ κ} (hP : P.Delegates f site) (hknown : m.Knows site.context)
    (htop : (m.context site.context).topCall.isSome) {n : Nat} {x : κ.Result}
    (h : (start m P).run host thread n = give m' κ x .nil) (hx : κ.Carries (.suspended p) x) :
    ∃ t : Task σ .completion κ, (start m P).Offers host thread site.context p
      (.cons .callEnd (.cons t .nil)) m' := by
  have hnext := run_step_of_give h
  induction P generalizing m with
  | finish y =>
    obtain ⟨rfl, rfl⟩ := eq_of_run_give (run_one host thread _) h
    exact absurd hx (hP p)
  | panic =>
    rw [run_of_ending host thread (x := .panicked) rfl] at hnext
    cases hnext
  | ask q next ih =>
    obtain ⟨hknown', hledger⟩ := Store.agrees_ask host thread m q site.context hknown
    have htop' : ((q.perform host thread m).2.context site.context).topCall.isSome := by
      rw [show ((q.perform host thread m).2.context site.context).topCall =
        (m.context site.context).topCall from congrArg Ledger.topCall hledger]
      exact htop
    obtain ⟨t, ht⟩ := ih (q.perform host thread m).1 (hP _) hknown' htop' hnext hx
      (run_step_of_give hnext)
    exact ⟨t, ht.of_run (run_one host thread _)⟩
  | act a next ih =>
    cases a with
    | call f' site' =>
      obtain ⟨rfl, rfl, hafter⟩ := hP
      let t : Task σ .completion _ := .program next
      have hpasses : (Stack.cons t .nil).IsOpen := ⟨trivial, trivial⟩
      have hcalls : (⟨m, .calling f' site' .nil⟩ : Config σ .completion).Keeps site'.context
          (m.ledger site'.context) := ⟨hknown, rfl⟩
      obtain ⟨k, m₁, o, -, hk, honto, hrest⟩ :=
        exists_result_of_onto (X := ⟨m, .calling f' site' .nil⟩) hpasses hnext
      have hgoes := run_step_of_give hrest
      rcases hafter o with hends | hagain
      · obtain ⟨rfl, hkept⟩ := eq_of_endsAfter hends hgoes hx
        exact ⟨t, .of_run (run_one host thread _)
          (((offers_calling hf htop hk).onto (.cons t .nil)).of_kept (hkept _))⟩
      · -- the program goes on after this call
        have hkeeps := run_keeps host thread hcalls k
        rw [hk] at hkeeps
        obtain ⟨hknown₁, hledger⟩ := hkeeps.ledger_eq_of_isLeft (.inl ⟨o, rfl⟩)
        have htop₁ : (m₁.context site'.context).topCall.isSome := by
          rw [show (m₁.context site'.context).topCall = (m.context site'.context).topCall from
            congrArg Ledger.topCall hledger]
          exact htop
        obtain ⟨t', ht'⟩ := ih o hagain hknown₁ htop₁ hgoes hx (run_step_of_give hgoes)
        refine ⟨t', .of_run (i := 1 + (k + 1)) ?_ ht'⟩
        rw [run_add, run_one, run_add]
        exact congrArg (Config.step host thread) ((honto k (Nat.le_refl k)).trans (by rw [hk]))
    | _ => exact absurd hP id
  | bracket | guard => exact absurd hP id

/-- A run that ends with a continuation ends with it on top of the end of an outermost call. -/
theorem offers_closing {X : Config σ .completion} {previous : Bool}
    (hX : ∀ (m₁ : Store σ) (k : Nat),
      X.run host thread k = give m₁ .completion (.error (.suspended p)) .nil →
      ∃ t : Task σ .completion .completion,
        X.Offers host thread c p (.cons .callEnd (.cons t .nil)) m₁) {n : Nat}
    (h : (X.onto (closing c previous)).run host thread n =
      give m' .completion (.error (.suspended p)) .nil) :
    ∃ t : Task σ .completion .completion, (X.onto (closing c previous)).Offers host thread c p
      (.cons .callEnd (.cons t (closing c previous))) m' := by
  have hpasses : (closing c previous : Stack σ .completion .completion).IsOpen :=
    ⟨trivial, trivial, trivial⟩
  obtain ⟨k, m₁, o, -, hk, -, hrest⟩ := exists_result_of_onto hpasses h
  obtain ⟨m₂, hq, -, hcontinuations⟩ :=
    ((handsOn_nil host thread).restoreCaptures c previous).clearTopCall c m₁ o
  obtain ⟨i, hi⟩ := hq.exists_run
  obtain ⟨rfl, rfl⟩ := eq_of_run_give hi hrest
  obtain ⟨t, ht⟩ := hX m₁ k hk
  refine ⟨t, (ht.onto (closing c previous)).of_kept ?_⟩
  intro state hstate
  rw [hcontinuations]
  exact hstate

/-- A call begun in a way that accepts captures. -/
theorem offers_beginCapturing {f : Callable} (hf : f.IsInterpreted) (hknown : m.Knows c)
    (hpolicy : (m.factoryOf c).policy.Delegates host) {scope : Id .scope} {args : List Value}
    {isStrict : Bool} {n : Nat}
    (h : (beginCapturing host m f c scope args isStrict .nil).run host thread n =
      give m' .completion (.error (.suspended p)) .nil) :
    ∃ t : Task σ .completion .completion,
      (beginCapturing host m f c scope args isStrict .nil).Offers host thread c p
        (.cons .callEnd (.cons t (closing c (m.context c).acceptsCaptures))) m' := by
  have hknown₁ := Store.knows_modifyContext c (fun cx => { cx with acceptsCaptures := true }) hknown
  have hcontext₁ := Store.context_modifyContext hknown fun cx => { cx with acceptsCaptures := true }
  simp only [beginCapturing, beginOutermost, hcontext₁] at h ⊢
  by_cases hbusy : (m.context c).topCall.isSome
  · rw [if_pos hbusy] at h
    obtain ⟨m₂, hq, -⟩ := (handsOn_nil host thread).restoreCaptures c (m.context c).acceptsCaptures
      (m.modifyContext c fun cx => { cx with acceptsCaptures := true })
      (.error (.illegalState .topCallInProgress))
    obtain ⟨i, hi⟩ := hq.exists_run
    cases (eq_of_run_give hi h).2
  rw [if_neg hbusy] at h ⊢
  have hcontext₂ := Store.context_modifyContext hknown₁
    fun cx => { cx with topCall := some ⟨scope, isStrict⟩ }
  have hknown₂ := Store.knows_modifyContext c
    (fun cx => { cx with topCall := some ⟨scope, isStrict⟩ }) hknown₁
  generalize hm₂ : (m.modifyContext c fun cx => { cx with acceptsCaptures := true }).modifyContext c
    (fun cx => { cx with topCall := some ⟨scope, isStrict⟩ }) = m₂ at h hcontext₂ hknown₂ ⊢
  have hfactory : m₂.factoryOf c = m.factoryOf c := by
    rw [Store.factoryOf, hcontext₂, hcontext₁, ← hm₂]
    rfl
  have htop : (m₂.context c).topCall.isSome := by rw [hcontext₂]; rfl
  rw [hfactory] at h ⊢
  cases hp : (m.factoryOf c).policy with
  | custom q =>
    rw [hp] at hpolicy
    simp only [hp] at h ⊢
    exact offers_closing (X := start m₂ (host.outermost q f ⟨c, scope, .object scope, args⟩))
      (fun m₃ k hk => offers_delegates hf (hpolicy f _) hknown₂ htop hk rfl) h
  | standard | planned plan =>
    simp only [hp] at h ⊢
    exact offers_closing (X := ⟨m₂, .calling f ⟨c, scope, .object scope, args⟩
      (.cons .flattenResult .nil)⟩) (fun m₃ k hk => ⟨_, offers_flattenResult hf htop hk⟩) h

variable (host thread) in
/-- A run that accepts captures, on a context. -/
def ofCapturing (m : Store σ) (c : Id .context) : CapturingRun → Config σ .completion
  | .script e scope => ofAction host thread m (.executeCapturing e c scope)
  | .function e scope args => ofAction host thread m (.callCapturing e c scope args)
  | .resumption k scope v => ofAction host thread m (.resume k c scope v)

/-- Take a run that accepts captures on a context whose policy leaves the outermost call to the
callee, and let it end with a continuation.

A host function has answered the activation of the run itself with this continuation. The
activation runs no generator and is alone on its context. If the continuation had no frames
when the host function answered, it is resumable in the end and holds the frames that the
activation had, all of them and in their order; if it holds or held some, it is what it was. -/
theorem held_of_suspended {entry : CapturingRun} (hknown : m.Knows c)
    (hpolicy : (m.factoryOf c).policy.Delegates host) {n : Nat}
    (h : (ofCapturing host thread m c entry).run host thread n =
      give m' .completion (.error (.suspended p)) .nil) :
    ∃ (j : Nat) (m₁ : Store σ) (b : Activation) (t : Task σ .completion .completion),
      (ofCapturing host thread m c entry).run host thread j =
        give m₁ .completion (.error (.suspended p)) (.cons (.called b) (.cons .callEnd
          (.cons t (closing c (m.context c).acceptsCaptures)))) ∧
      b.context = c ∧ b.isGenerator = false ∧ (m₁.context c).depth ≤ 1 ∧
      (m₁.continuations.get? p.continuation = some .pending →
        m'.continuations.get? p.continuation = some (.captured b.frames)) ∧
      ∀ state, m₁.continuations.get? p.continuation = some state → state.isCaptured = true →
        m'.continuations.get? p.continuation = some state := by
  -- the entries that are refused end with a fault
  have hrefused (f : Fault) : (failCall m (.fault f) .nil : Config σ .completion).run host thread n ≠
      give m' .completion (.error (.suspended p)) .nil := by
    rw [run_give_nil]
    nofun
  suffices hoffers : ∃ t : Task σ .completion .completion,
      (ofCapturing host thread m c entry).Offers host thread c p
        (.cons .callEnd (.cons t (closing c (m.context c).acceptsCaptures))) m' by
    obtain ⟨t, j, m₁, b, hj, hc, hg, hdepth, hoffered⟩ := hoffers
    refine ⟨j, m₁, b, t, hj, hc, hg, hdepth, fun hpending => hoffered _ hpending, ?_⟩
    intro state hstate hcaptured
    rw [hoffered state hstate, CaptureState.offered, if_pos hcaptured]
  have hcall {e : Executable} {scope : Id .scope} {args : List Value}
      (h : (ofAction host thread m (.callCapturing e c scope args)).run host thread n =
        give m' .completion (.error (.suspended p)) .nil) :
      ∃ t : Task σ .completion .completion,
        (ofAction host thread m (.callCapturing e c scope args)).Offers host thread c p
          (.cons .callEnd (.cons t (closing c (m.context c).acceptsCaptures))) m' := by
    simp only [ofAction, beginAction, beginAction.beginCapturingCall] at h ⊢
    split at h
    · exact absurd h (hrefused _)
    · next htop =>
      rw [if_neg htop]
      exact offers_beginCapturing (f := .executable e) trivial hknown hpolicy h
  cases entry with
  | script e scope =>
    by_cases hscript : e.routine.isScript
    · have heq : ofCapturing host thread m c (.script e scope) =
          ofAction host thread m (.callCapturing e c scope []) := by
        simp only [ofCapturing, ofAction, beginAction, hscript, Bool.not_true, Bool.false_eq_true,
          if_false]
      rw [heq] at h ⊢
      exact hcall h
    · simp only [ofCapturing, ofAction, beginAction, hscript, Bool.not_false, if_true] at h
      exact absurd h (hrefused _)
  | function e scope args => exact hcall h
  | resumption k scope v =>
    simp only [ofCapturing, ofAction, beginAction] at h ⊢
    split at h
    · exact absurd h (hrefused _)
    · next htop =>
      split at h
      · exact absurd h (hrefused _)
      · next hresumable =>
        rw [if_neg htop, if_neg hresumable]
        exact offers_beginCapturing (f := .continuation k v) trivial hknown hpolicy h

/-! ## A call that is cut -/

/-- A function is called with a host function that captures. -/
def cutCall : CapturingRun := .function callArgument ⟨0⟩ [.hostFunction ⟨⟨0⟩, "f"⟩]

theorem run_cutCall :
    (ofCapturing capturingHost ⟨0⟩ oneContext ⟨0⟩ cutCall).run capturingHost ⟨0⟩ 15 =
      give heldStore .completion (.error (.suspended ⟨⟨0⟩, none⟩)) .nil := rfl

/-- The continuation that the call ends with holds the frames of the call. -/
theorem held_cutCall :
    ∃ (j : Nat) (m₁ : Store Unit) (b : Activation) (t : Task Unit .completion .completion),
      (ofCapturing capturingHost ⟨0⟩ oneContext ⟨0⟩ cutCall).run capturingHost ⟨0⟩ j =
        give m₁ .completion (.error (.suspended ⟨⟨0⟩, none⟩)) (.cons (.called b) (.cons .callEnd
          (.cons t (closing ⟨0⟩ false)))) ∧
      (m₁.continuations.get? ⟨0⟩ = some .pending →
        heldStore.continuations.get? ⟨0⟩ = some (.captured b.frames)) := by
  obtain ⟨j, m₁, b, t, hj, -, -, -, hheld, -⟩ :=
    held_of_suspended (m := oneContext) (c := ⟨0⟩) rfl trivial run_cutCall
  exact ⟨j, m₁, b, t, hj, hheld⟩

/-! ## A continuation that is raised again -/

/-- A capture is asked for in one call that accepts captures, and answered with in another. -/
def keepAndCapture : Program (Option Pending) .completion :=
  .act (.callCapturing callArgument ⟨0⟩ ⟨0⟩ [.hostFunction ⟨⟨0⟩, "f"⟩]) fun (_ : Outcome) =>
    .act (.callCapturing callArgument ⟨0⟩ ⟨0⟩ [.hostFunction ⟨⟨1⟩, "g"⟩])
      (.finish (κ := .completion))

/-- The activation of a call in which a host function answers. -/
def answeredActivation (f : HostFunction) : Activation :=
  .plain defaultFrameLimit ⟨0⟩ [{ frameAt 3 [] with locals := #[.hostFunction f] }]

/-- The store afterwards. The continuation holds the frame of the second call. -/
def capturedStore : Store (Option Pending) :=
  { keepingStore with
    continuations := ⟨#[.captured (answeredActivation ⟨⟨1⟩, "g"⟩).frames]⟩
    host := some ⟨⟨0⟩, none⟩ }

theorem run_keepAndCapture :
    (start keepingStore keepAndCapture).run keepingHost ⟨0⟩ 38 =
      give capturedStore .completion (.error (.suspended ⟨⟨0⟩, none⟩)) .nil := rfl

/-- A third call, in which a host function answers with the continuation again. -/
def raisingCall : CapturingRun := .function callArgument ⟨0⟩ [.hostFunction ⟨⟨2⟩, "h"⟩]

/-- A run may end with a continuation that does not hold its frames: after the first two calls,
the third one ends with the continuation, which still holds the frame of the second. -/
theorem not_held_of_raised :
    (start keepingStore keepAndCapture).run keepingHost ⟨0⟩ 38 =
      give capturedStore .completion (.error (.suspended ⟨⟨0⟩, none⟩)) .nil ∧
    ¬ ∀ (j n : Nat) (m₁ m' : Store (Option Pending)) (p : Pending) (b : Activation)
      (s : Stack (Option Pending) .exit .completion),
      (ofCapturing keepingHost ⟨0⟩ capturedStore ⟨0⟩ raisingCall).run keepingHost ⟨0⟩ j =
        give m₁ .completion (.error (.suspended p)) (.cons (.called b) s) →
      (ofCapturing keepingHost ⟨0⟩ capturedStore ⟨0⟩ raisingCall).run keepingHost ⟨0⟩ n =
        give m' .completion (.error (.suspended p)) .nil →
      m'.continuations.get? p.continuation = some (.captured b.frames) := by
  refine ⟨run_keepAndCapture, ?_⟩
  intro h
  have hraised : (ofCapturing keepingHost ⟨0⟩ capturedStore ⟨0⟩ raisingCall).run keepingHost ⟨0⟩ 15 =
      give capturedStore .completion (.error (.suspended ⟨⟨0⟩, none⟩)) .nil := rfl
  have hheld := h 10 15 _ _ _ (answeredActivation ⟨⟨2⟩, "h"⟩)
    (.cons .callEnd (.cons .flattenResult (closing ⟨0⟩ false))) rfl hraised
  cases hheld

end Config

end ScriptMachine
