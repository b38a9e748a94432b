import ScriptMachine.Proofs.Ledger.Restored

/-!
# The gates of a capture

A continuation comes into being when host code asks for it, and it takes frames when a host
function answers with it. `Config.step_handles` lists all that a step can do to a continuation.
The two gates look at different things: the request wants a context that accepts captures, the
move wants an activation that is alone on its context and runs no generator. Nothing looks at
whether captures are accepted when the frames move.
-/

namespace ScriptMachine

variable {σ : Type} {α β goal : Kind}

/-! ## What a step does to a continuation -/

/-- What the next step may do to a continuation: leave it alone, make it, move the frames of an
activation into it, or move its frames out. -/
inductive Config.Handles (k : Id .continuation) (X : Config σ goal) :
    Option CaptureState → Option CaptureState → Prop
  | stays (state : Option CaptureState) : Handles k X state state
  | requested {c : Id .context} {κ : Kind} {next : Except Fault Pending → Program σ κ}
      {s : Stack σ κ goal}
      (hX : X.state = .running (.ask (.context (.requestCapture c)) next) s)
      (haccepts : (X.store.context c).acceptsCaptures = true)
      (halone : (X.store.context c).depth = 1) : Handles k X none (some .pending)
  | captured {a : Activation} {p : Pending} {s : Stack σ .exit goal}
      (hX : X.state = .returning (κ := .completion) (.error (.suspended p)) (.cons (.called a) s))
      (hp : p.continuation = k) (hgenerator : a.isGenerator = false)
      (halone : (X.store.context a.context).depth ≤ 1) :
      Handles k X (some .pending) (some (.captured a.frames))
  | resumed (frames : List Frame) : Handles k X (some (.captured frames)) (some .resumed)

namespace Config

variable (host : Host σ) (thread : Id .thread) (m : Store σ)

theorem continuations_follow (c : Id .context) (flow : Flow) (s : Stack σ .exit goal) :
    (follow m c flow s).store.continuations = m.continuations := by
  cases flow <;> rfl

theorem continuations_execute (a : Activation) (s : Stack σ .exit goal) :
    (execute m a s).store.continuations = m.continuations := by
  have hm := (a.execute_frame m).2
  unfold execute
  split
  · next heq =>
    rw [heq] at hm
    rw [continuations_follow, hm]
  · next heq =>
    rw [heq] at hm
    exact hm

theorem continuations_beginOutermost (f : Callable) (site : CallSite) (isStrict : Bool)
    (s : Stack σ .completion goal) :
    (beginOutermost host m f site isStrict s).store.continuations = m.continuations := by
  unfold beginOutermost
  split
  · rfl
  · dsimp only
    split <;> rfl

theorem continuations_beginStep (g : Generator) (op : GeneratorOp) (c : Id .context) (v : Value)
    (s : Stack σ .step goal) :
    (beginStep m g op c v s).store.continuations = m.continuations := by
  unfold beginStep
  dsimp only
  split
  · cases op <;> rfl
  · split
    · rfl
    · split
      · cases op with
        | next => rfl
        | throw =>
          dsimp only
          split <;> rfl
        | «return» =>
          dsimp only
          split <;> rfl
      · cases op <;> rfl

theorem continuations_beginResumption (via : Executable) (g : Generator) (op : GeneratorOp)
    (c : Id .context) (scope : Id .scope) (v : Value) (s : Stack σ .step goal) :
    (beginResumption host m via g op c scope v s).store.continuations = m.continuations := by
  unfold beginResumption
  split
  · rfl
  · split
    · exact continuations_beginStep _ _ _ _ _ _
    · exact continuations_beginOutermost _ _ _ _ _ _

theorem continuations_beginBind (c : Id .context) (s : Stack σ .entered goal) :
    (beginBind thread m c s).store.continuations = m.continuations := by
  unfold beginBind
  split <;> rfl

theorem continuations_beginMake (f : Id .factory) (s : Stack σ .made goal) :
    (beginMake host m f s).store.continuations = m.continuations := by
  unfold beginMake
  split <;> rfl

theorem continuations_beginEnter (f : Id .factory) (requested : Option (Id .context))
    (s : Stack σ .entered goal) :
    (beginEnter host thread m f requested s).store.continuations = m.continuations := by
  unfold beginEnter
  split
  · rfl
  · split
    · exact continuations_beginBind _ _ _ _
    · exact continuations_beginMake _ _ _ _

theorem continuations_beginExit (s : Stack σ .left goal) :
    (beginExit thread m s).store.continuations = m.continuations := by
  unfold beginExit
  split
  · rfl
  · split <;> rfl

theorem continuations_beginAction (a : Action) (s : Stack σ a.kind goal) :
    (beginAction host thread m a s).store.continuations = m.continuations := by
  have hcapturing : ∀ (f : Callable) (c : Id .context) (scope : Id .scope) (args : List Value)
      (isStrict : Bool) (s : Stack σ .completion goal),
      (beginCapturing host m f c scope args isStrict s).store.continuations = m.continuations :=
    fun f c scope args isStrict s => continuations_beginOutermost _ _ _ _ _ _
  cases a with
  | call f site => rfl
  | callOutermost f site isStrict => exact continuations_beginOutermost _ _ _ _ _ _
  | execute e c scope =>
    simp only [beginAction]
    split <;> rfl
  | executeCapturing e c scope =>
    simp only [beginAction, beginAction.beginCapturingCall]
    split
    · rfl
    · split
      · rfl
      · exact hcapturing _ _ _ _ _ _
  | callCapturing e c scope args =>
    simp only [beginAction, beginAction.beginCapturingCall]
    split
    · rfl
    · exact hcapturing _ _ _ _ _ _
  | resume k c scope v =>
    simp only [beginAction]
    split
    · rfl
    · split
      · rfl
      · exact hcapturing _ _ _ _ _ _
  | step via g op c scope v => exact continuations_beginResumption _ _ _ _ _ _ _ _ _
  | enter f requested => exact continuations_beginEnter _ _ _ _ _ _
  | exit => exact continuations_beginExit _ _ _
  | makeContext f => exact continuations_beginMake _ _ _ _

variable {m} (k : Id .continuation)

theorem Handles.of_eq {X Y : Config σ goal}
    (h : Y.store.continuations = X.store.continuations) :
    X.Handles k (X.store.continuations.get? k) (Y.store.continuations.get? k) := by
  rw [h]
  exact .stays _

theorem CaptureState.get?_of_get {t : Table .continuation CaptureState} {k : Id .continuation}
    {state : CaptureState} (h : t.get k = state) (hstate : state ≠ .resumed) :
    t.get? k = some state := by
  rw [Table.get] at h
  cases hget : t.get? k with
  | none =>
    rw [hget] at h
    exact absurd h.symm hstate
  | some state' =>
    rw [hget] at h
    exact congrArg some h

theorem get?_set {t : Table .continuation CaptureState} {k k' : Id .continuation}
    {state state' : CaptureState} (h : t.get? k' = some state) :
    (t.set k' state').get? k = if k = k' then some state' else t.get? k := by
  rw [Table.set, Table.get?_modify]
  split
  · next heq => rw [heq, h]; rfl
  · rfl

/-- An activation that is answered with a continuation moves its frames into it, if nothing was
moved into it before and the gate is open. -/
theorem handles_called (a : Activation) (e : Abrupt) (s : Stack σ .exit goal) :
    (⟨m, .returning (κ := .completion) (.error e) (.cons (.called a) s)⟩ : Config σ goal).Handles k
      (m.continuations.get? k) ((a.fail e m).2.continuations.get? k) := by
  cases e with
  | thrown | aborted | fault => exact .stays _
  | suspended p =>
    simp only [Activation.fail, Activation.capture]
    split
    · exact .stays _
    next hgenerator =>
      split
      · exact .stays _
      next halone =>
        dsimp only
        split
        · exact .stays _
        next hcaptured =>
          have hget : m.continuations.get? p.continuation = some .pending := by
            refine CaptureState.get?_of_get ?_ fun h => by cases h
            cases hstate : m.continuations.get p.continuation with
            | pending => rfl
            | captured | resumed => simp [hstate, CaptureState.isCaptured] at hcaptured
          rw [get?_set hget]
          split
          · next heq =>
            rw [heq, hget]
            exact .captured rfl rfl (Bool.eq_false_iff.mpr hgenerator) (Nat.le_of_not_lt halone)
          · exact .stays _

theorem handles_take (t : Task σ α β) (x : α.Result) (s : Stack σ β goal) :
    (⟨m, .returning x (.cons t s)⟩ : Config σ goal).Handles k (m.continuations.get? k)
      ((take host thread m t x s).store.continuations.get? k) := by
  cases t with
  | called a =>
    cases x with
    | ok v => exact .of_eq k (continuations_follow _ _ _ _)
    | error e =>
      show Handles k _ _ ((follow (a.fail e m).2 a.context (a.fail e m).1 s).store.continuations.get? k)
      rw [continuations_follow]
      exact handles_called k a e s
  | observed a =>
    cases x with
    | ok u => exact .stays _
    | error reason => exact .of_eq k (continuations_follow _ _ _ _)
  | bodyEnd g =>
    simp only [take, endBody]
    split <;> exact .stays _
  | callEnd =>
    cases x with
    | ok exit => cases exit <;> exact .stays _
    | error e => exact .stays _
  | flattenResult | recordStep | reportStep | bracketBody => cases x <;> exact .stays _
  | notifying event c rest => cases rest <;> exact .stays _
  | bindMade =>
    simp only [take]
    split
    · exact .stays _
    · exact .of_eq k (continuations_beginBind _ _ _ _)
  | release => exact .of_eq k (continuations_beginExit _ _ _)
  | program | clearTopCall | restoreCaptures | entered | left | released | repanic | guarded =>
    exact .stays _

theorem handles_takeFrames {X : Config σ goal} {k' : Id .continuation} {frames : List Frame}
    {m' : Store σ} (h : m.takeFrames k' = .ok (frames, m')) :
    X.Handles k (m.continuations.get? k) (m'.continuations.get? k) := by
  unfold Store.takeFrames at h
  split at h
  · next heq =>
    cases h
    have hget := CaptureState.get?_of_get heq nofun
    show Handles k X _ ((m.continuations.set k' .resumed).get? k)
    rw [get?_set hget]
    split
    · next hk =>
      rw [hk, hget]
      exact .resumed _
    · exact .stays _
  · cases h
  · cases h

theorem handles_beginCall (f : Callable) (site : CallSite) (s : Stack σ .completion goal) :
    (⟨m, .calling f site s⟩ : Config σ goal).Handles k (m.continuations.get? k)
      ((beginCall host m f site s).store.continuations.get? k) := by
  cases f with
  | executable e =>
    simp only [beginCall]
    split
    · unfold interpret
      dsimp only
      split <;> exact .stays _
    · exact .of_eq k (continuations_beginOutermost _ _ _ _ _ _)
  | hostFunction f => exact .stays _
  | resumption r g op => exact .of_eq k (continuations_beginStep _ _ _ _ _ _)
  | continuation k' v =>
    simp only [beginCall, beginContinuation]
    split
    · exact .stays _
    · next heq => exact handles_takeFrames k heq
    · next frame callers m' heq =>
      show Handles k _ _ (m'.continuations.get? k)
      exact handles_takeFrames k heq

theorem handles_ask {κ : Kind} (q : Query σ) (next : q.Reply → Program σ κ)
    (s : Stack σ κ goal) :
    (⟨m, .running (.ask q next) s⟩ : Config σ goal).Handles k (m.continuations.get? k)
      ((q.perform host thread m).2.continuations.get? k) := by
  cases q with
  | context q =>
    cases q with
    | setController c controller =>
      simp only [Query.perform, ContextQuery.perform]
      split <;> exact .stays _
    | requestCapture c =>
      simp only [Query.perform, ContextQuery.perform, Store.requestCapture]
      by_cases hdepth : (m.context c).depth = 0
      · rw [if_pos hdepth]
        exact .stays _
      by_cases haccepts : (m.context c).acceptsCaptures = true
      · by_cases halone : 1 < (m.context c).depth
        · simp only [if_neg hdepth, haccepts, Bool.not_true, if_pos halone]
          exact .stays _
        · simp only [if_neg hdepth, haccepts, Bool.not_true, if_neg halone]
          by_cases hk : k = m.continuations.next
          · subst hk
            have hnone : m.continuations.get? m.continuations.next = none := by
              simp [Table.get?, Table.next]
            have hsome : (m.continuations.insert .pending).2.get? m.continuations.next =
                some .pending := by rw [Table.get?_insert, if_pos rfl]
            show Handles _ _ _ ((m.continuations.insert .pending).2.get? m.continuations.next)
            rw [hnone, hsome]
            exact .requested rfl haccepts (by simp only; omega)
          · show Handles _ _ _ ((m.continuations.insert .pending).2.get? k)
            rw [Table.get?_insert, if_neg hk]
            exact .stays _
      · rw [if_neg hdepth, if_pos (by simpa using haccepts)]
        exact .stays _
    | _ => exact .stays _
  | code q =>
    cases q with
    | create kind r domain =>
      simp only [Query.perform, CodeQuery.perform, Store.createExecutable]
      split
      · exact .stays _
      · split
        · exact .stays _
        · split
          · exact .stays _
          · split
            · exact .stays _
            · split <;> exact .stays _
    | nested e index =>
      simp only [Query.perform, CodeQuery.perform]
      split <;> exact .stays _
    | share r => exact .stays _
  | _ => exact .stays _

/-- All that a step can do to a continuation. -/
theorem step_handles (X : Config σ goal) :
    X.Handles k (X.store.continuations.get? k) ((X.step host thread).store.continuations.get? k) := by
  obtain ⟨m, state⟩ := X
  cases state with
  | running p s =>
    cases p with
    | ask q next => exact handles_ask host thread k q next s
    | act a next => exact .of_eq k (continuations_beginAction host thread m a (.cons (.program next) s))
    | bracket f body next =>
      exact .of_eq k (continuations_beginEnter host thread m f none
        (.cons (.bracketBody body) (.cons (.program next) s)))
    | finish | panic | guard => exact .stays _
  | calling f site s => exact handles_beginCall host k f site s
  | counting a s =>
    refine .of_eq k ?_
    simp only [step, count]
    split <;> rfl
  | executing a s => exact .of_eq k (continuations_execute m a s)
  | returning x s =>
    cases s with
    | nil => exact .stays _
    | cons t s => exact handles_take host thread k t x s
  | panicking s =>
    cases s with
    | nil => exact .stays _
    | cons t s =>
      cases t with
      | release => exact .of_eq k (continuations_beginExit thread m (.cons .repanic s))
      | _ => exact .stays _
  | crashed => exact .stays _

/-- The gates of a capture, on a run of host code from a store in which nothing is under way.

A continuation comes into being when host code asks for it on a context that accepts captures
and has one activation under way. Frames move into a continuation when a host function answers
with it to an activation that runs no generator, is the only one of its context and belongs to
its top call; they are the frames of that activation, and the continuation had none before. In
every other activation the answer becomes an illegal state, and no continuation changes. -/
theorem capture_gates (hhost : host.Entrusts) {m : Store σ} {p : Program σ goal}
    (hidle : ∀ c, m.ledger c = .idle) (hspares : ∀ c, p.Spares c)
    (hgrounded : ∀ n, ((start m p).run host thread n).IsGrounded) {n : Nat} {X : Config σ goal}
    (hrun : (start m p).run host thread n = X) :
    (∀ k, X.store.continuations.get? k = none →
      (X.step host thread).store.continuations.get? k ≠ none →
      ∃ (c : Id .context) (κ : Kind) (next : Except Fault Pending → Program σ κ)
        (s : Stack σ κ goal),
        X.state = .running (.ask (.context (.requestCapture c)) next) s ∧
        (X.store.context c).acceptsCaptures = true ∧ s.activations c = 1) ∧
    (∀ k frames, X.store.continuations.get? k ≠ some (.captured frames) →
      (X.step host thread).store.continuations.get? k = some (.captured frames) →
      X.store.continuations.get? k = some .pending ∧
      ∃ (a : Activation) (q : Pending) (s : Stack σ .exit goal),
        X.state = .returning (κ := .completion) (.error (.suspended q)) (.cons (.called a) s) ∧
        q.continuation = k ∧ frames = a.frames ∧ a.isGenerator = false ∧
        (Stack.cons (.called a) s).activations a.context = 1 ∧
        (X.store.context a.context).topCall.isSome) ∧
    ∀ (a : Activation) (q : Pending) (s : Stack σ .exit goal),
      X.state = .returning (κ := .completion) (.error (.suspended q)) (.cons (.called a) s) →
      a.isGenerator = true ∨ 1 < (Stack.cons (.called a) s).activations a.context →
      ∃ (m' : Store σ) (cause : IllegalState),
        X.step host thread = give m' .exit (.error (.illegalState cause)) s ∧
        m'.continuations = X.store.continuations := by
  have horder : ∀ c, X.InOrder c := by
    intro c
    rw [← hrun]
    exact run_inOrder hhost thread (start_inOrder (hidle c) (hspares c)) hgrounded n
  have hactivation : ∀ (a : Activation) (q : Pending) (s : Stack σ .exit goal),
      X.state = .returning (κ := .completion) (.error (.suspended q)) (.cons (.called a) s) →
      (X.store.context a.context).depth = (Stack.cons (.called a) s).activations a.context ∧
      (X.store.context a.context).topCall.isSome ∧ 0 < (X.store.context a.context).depth := by
    intro a q s hX
    have haccounts := horder a.context
    rw [InOrder, hX] at haccounts
    have hpos := haccounts.1.2 rfl
    exact ⟨haccounts.depth_eq, haccounts.1.1.depth hpos, hpos⟩
  refine ⟨?_, ?_, ?_⟩
  · intro k hnone hsome
    have hmove := step_handles host thread k X
    rw [hnone] at hmove
    generalize (X.step host thread).store.continuations.get? k = after at hmove hsome
    cases hmove with
    | stays => exact absurd rfl hsome
    | @requested c κ next s hX haccepts halone =>
      refine ⟨c, κ, next, s, hX, haccepts, ?_⟩
      have haccounts := horder c
      rw [InOrder, hX] at haccounts
      rw [← haccounts.2.2.depth_eq]
      exact halone
  · intro k frames hbefore hafter
    have hmove := step_handles host thread k X
    rw [hafter] at hmove
    generalize X.store.continuations.get? k = before at hmove hbefore
    cases hmove with
    | stays => exact absurd rfl hbefore
    | captured hX hq hgenerator halone =>
      obtain ⟨hdepth, htop, hpos⟩ := hactivation _ _ _ hX
      refine ⟨rfl, _, _, _, hX, hq, rfl, hgenerator, ?_, htop⟩
      omega
  · intro a q s hX hclosed
    obtain ⟨hdepth, -, -⟩ := hactivation a q s hX
    obtain ⟨m', state⟩ := X
    obtain rfl : state = _ := hX
    have hfail : ∃ cause, a.fail (.suspended q) m' =
        (.leave (.error (.illegalState cause)), m') := by
      simp only [Activation.fail, Activation.capture]
      by_cases hgenerator : a.isGenerator = true
      · exact ⟨_, if_pos hgenerator⟩
      · have hmany : 1 < (m'.context a.context).depth := by
          rw [hdepth]
          exact hclosed.resolve_left hgenerator
        rw [if_neg hgenerator, if_pos hmany]
        exact ⟨_, rfl⟩
    obtain ⟨cause, hfail⟩ := hfail
    refine ⟨changeDepth m' a.context (· - 1), cause, ?_, rfl⟩
    show follow (a.fail (.suspended q) m').2 a.context (a.fail (.suspended q) m').1 s = _
    rw [hfail]
    rfl

/-! ## A continuation that is kept for later -/

/-- A host whose first function asks for a capture and keeps it; the others answer with what was
kept. -/
def keepingHost : Host (Option Pending) where
  run f site :=
    if f = ⟨0⟩ then
      .ask (.context (.requestCapture site.context)) fun
        | .ok p => .ask (.setHost (some p)) fun _ => .finish (κ := .completion) (.ok .undefined)
        | .error f => .finish (κ := .completion) (.error (.fault f))
    else
      .ask .host fun
        | some p => .finish (κ := .completion) (.error (.suspended p))
        | none => .finish (κ := .completion) (.ok .undefined)
  makeContext _ _ := .finish (κ := .made) ⟨0⟩
  outermost _ := .standardOutermost
  observe _ _ _ := .finish (κ := .verdict) (.ok ())
  hasFeature _ _ _ _ := false
  notify _ _ _ := .finish (κ := .done) ()
  resolve _ domain s := (domain, s)

/-- A capture is asked for in a call that accepts captures, and answered with in a plain call
afterwards. -/
def keepAndRaise : Program (Option Pending) .completion :=
  .act (.callCapturing callArgument ⟨0⟩ ⟨0⟩ [.hostFunction ⟨⟨0⟩, "f"⟩]) fun (_ : Outcome) =>
    .act (.call (.executable callArgument) ⟨⟨0⟩, ⟨0⟩, .undefined, [.hostFunction ⟨⟨1⟩, "g"⟩]⟩)
      (.finish (κ := .completion))

/-- The store before, with one idle context. -/
def keepingStore : Store (Option Pending) :=
  { Store.initial none with contexts := ⟨#[{ factory := ⟨0⟩ }]⟩ }

/-- The activation of the plain call, when the host function has answered. -/
def raisingActivation : Activation :=
  .plain defaultFrameLimit ⟨0⟩ [{ frameAt 3 [] with
    locals := #[.hostFunction ⟨⟨1⟩, "g"⟩], receiver := .undefined }]

/-- What is under way beneath the plain call. -/
def beneathRaising : Stack (Option Pending) .exit .completion :=
  .cons .callEnd (.cons .flattenResult (.cons (.clearTopCall ⟨0⟩)
    (.cons (.program (.finish (κ := .completion))) .nil)))

theorem state_keepAndRaise :
    ((start keepingStore keepAndRaise).run keepingHost ⟨0⟩ 32).state =
      .returning (κ := .completion) (.error (.suspended ⟨⟨0⟩, none⟩))
        (.cons (.called raisingActivation) beneathRaising) := rfl

/-- Frames may move in a call that does not accept captures: the continuation was asked for in
another one. The plain call ends with the continuation, and not with an illegal state. -/
theorem not_accepts_of_moves :
    ¬ ∀ (n : Nat) (a : Activation) (q : Pending) (s : Stack (Option Pending) .exit .completion),
      ((start keepingStore keepAndRaise).run keepingHost ⟨0⟩ n).state =
        .returning (κ := .completion) (.error (.suspended q)) (.cons (.called a) s) →
      ((start keepingStore keepAndRaise).run keepingHost ⟨0⟩ (n + 1)).store.continuations.get?
        q.continuation = some (.captured a.frames) →
      (((start keepingStore keepAndRaise).run keepingHost ⟨0⟩ n).store.context
        a.context).acceptsCaptures = true := by
  intro h
  have haccepts := h 32 raisingActivation ⟨⟨0⟩, none⟩ beneathRaising state_keepAndRaise rfl
  cases haccepts

theorem entrusts_keepingHost : keepingHost.Entrusts where
  run f site c := by
    simp only [keepingHost]
    split
    · intro reply
      cases reply with
      | ok p => exact fun _ => trivial
      | error f => trivial
    · intro reply
      cases reply <;> trivial
  makeContext _ _ _ := trivial
  outermost p f site c hc := by
    refine ⟨fun _ => hc, ?_⟩
    intro o
    cases o with
    | ok v => exact fun _ => trivial
    | error e => trivial
  observe _ _ _ _ := trivial
  notify _ _ _ _ := trivial

theorem isGrounded_keepAndRaise (n : Nat) :
    ((start keepingStore keepAndRaise).run keepingHost ⟨0⟩ n).IsGrounded := by
  have hend : ((start keepingStore keepAndRaise).run keepingHost ⟨0⟩ 38).ending?.isSome := by
    decide +kernel
  have hbefore : ∀ n ≤ 38, ((start keepingStore keepAndRaise).run keepingHost ⟨0⟩ n).IsGrounded := by
    decide +kernel
  exact forall_run_of_ending _ _ hend hbefore n

/-- The frames that move in the plain call come from an activation that runs no generator and is
alone on its context. -/
theorem gates_keepAndRaise :
    ((start keepingStore keepAndRaise).run keepingHost ⟨0⟩ 33).store.continuations.get? ⟨0⟩ =
        some (.captured raisingActivation.frames) ∧
      raisingActivation.isGenerator = false ∧
      (Stack.cons (.called raisingActivation) beneathRaising).activations ⟨0⟩ = 1 := by
  have hspares : ∀ c, keepAndRaise.Spares c :=
    fun c => And.intro trivial fun _ => And.intro (fun h => absurd h id) fun _ => trivial
  obtain ⟨-, hmoves, -⟩ := capture_gates keepingHost ⟨0⟩ entrusts_keepingHost
    (ledger_of_single rfl rfl) hspares isGrounded_keepAndRaise (n := 32) rfl
  have hpending : ((start keepingStore keepAndRaise).run keepingHost ⟨0⟩ 32).store.continuations.get?
      ⟨0⟩ = some .pending := rfl
  obtain ⟨-, a, q, s, hstate, -, -, hgenerator, halone, -⟩ :=
    hmoves ⟨0⟩ raisingActivation.frames (by rw [hpending]; nofun) rfl
  rw [state_keepAndRaise] at hstate
  cases hstate
  exact ⟨rfl, hgenerator, halone⟩

end Config

end ScriptMachine
