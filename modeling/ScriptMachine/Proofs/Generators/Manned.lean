import ScriptMachine.Proofs.Generators.Phases

/-!
# Who runs the body of a generator

The task that waits for the end of a body stands beneath the activation that runs the body, and
host code never runs in the place of that activation. A step keeps it so (`Config.step_isManned`).
Hence no body is waited for when no activation runs, waits or is being left
(`State.IsManned.bodies_eq_zero`).
-/

namespace ScriptMachine

variable {σ : Type} {α β goal : Kind}

/-! ## Activations above bodies -/

/-- The task on top waits for no body. -/
def Stack.IsClear (s : Stack σ α goal) : Prop := ∀ i, s.topBodies i = 0

/-- Only the end of an activation is the end of a body. -/
theorem Stack.isClear_of_ne (s : Stack σ α goal) (hα : α ≠ .exit) : s.IsClear := by
  intro i
  cases s with
  | nil => rfl
  | cons t rest =>
    cases t with
    | bodyEnd g => exact absurd rfl hα
    | _ => rfl

/-- Nothing but an activation stands on a task that waits for a body. -/
def Stack.IsManned : {α : Kind} → Stack σ α goal → Prop
  | _, .nil => True
  | _, .cons t rest => (t.isActivation = true ∨ rest.IsClear) ∧ rest.IsManned

/-- Host code does not run in the place of an activation either. -/
def State.IsManned : State σ goal → Prop
  | .running _ s => s.IsClear ∧ s.IsManned
  | .calling _ _ s | .counting _ s | .executing _ s | .returning _ s | .panicking s => s.IsManned
  | .crashed => False

theorem Stack.IsManned.cons {s : Stack σ β goal} (h : s.IsManned) (t : Task σ α β)
    (hβ : β ≠ .exit) : (Stack.cons t s).IsManned :=
  ⟨.inr (s.isClear_of_ne hβ), h⟩

theorem Stack.IsManned.running {s : Stack σ α goal} (h : s.IsManned) (hα : α ≠ .exit)
    (p : Program σ α) : (State.running p s).IsManned :=
  ⟨s.isClear_of_ne hα, h⟩

/-! ## Steps -/

namespace Config

variable (host : Host σ) (thread : Id .thread) (m : Store σ)

theorem manned_follow (c : Id .context) (flow : Flow) {s : Stack σ .exit goal} (h : s.IsManned) :
    (follow m c flow s).state.IsManned := by
  cases flow <;> exact h

theorem manned_execute (a : Activation) {s : Stack σ .exit goal} (h : s.IsManned) :
    (execute m a s).state.IsManned := by
  unfold execute
  split
  · exact manned_follow _ _ _ h
  · exact ⟨.inl rfl, h⟩

theorem manned_interpret (e : Executable) (site : CallSite) {s : Stack σ .completion goal}
    (h : s.IsManned) : (interpret m e site s).state.IsManned := by
  unfold interpret
  dsimp only
  split
  · exact h
  · exact h.cons .callEnd (by decide)

theorem manned_beginOutermost (f : Callable) (site : CallSite) (isStrict : Bool)
    {s : Stack σ .completion goal} (h : s.IsManned) :
    (beginOutermost host m f site isStrict s).state.IsManned := by
  have htop := h.cons (.clearTopCall site.context) (by decide)
  unfold beginOutermost
  split
  · exact h
  · dsimp only
    split
    · exact htop.running (by decide) _
    · exact htop.cons .flattenResult (by decide)
    · exact htop.cons .flattenResult (by decide)

theorem manned_beginCapturing (f : Callable) (c : Id .context) (scope : Id .scope)
    (args : List Value) (isStrict : Bool) {s : Stack σ .completion goal} (h : s.IsManned) :
    (beginCapturing host m f c scope args isStrict s).state.IsManned :=
  manned_beginOutermost host _ _ _ _ (h.cons (.restoreCaptures c _) (by decide))

theorem manned_beginCapturingCall (e : Executable) (c : Id .context) (scope : Id .scope)
    (args : List Value) {s : Stack σ .completion goal} (h : s.IsManned) :
    (beginAction.beginCapturingCall host m e c scope args s).state.IsManned := by
  unfold beginAction.beginCapturingCall
  split
  · exact h
  · exact manned_beginCapturing _ _ _ _ _ _ _ h

theorem manned_beginStep (g : Generator) (op : GeneratorOp) (c : Id .context) (v : Value)
    {s : Stack σ .step goal} (h : s.IsManned) : (beginStep m g op c v s).state.IsManned := by
  have hbody := h.cons (.bodyEnd g) (by decide)
  unfold beginStep
  dsimp only
  split
  · cases op <;> exact h
  · split
    · exact h
    · split
      · cases op with
        | next => exact hbody
        | throw =>
          dsimp only
          split <;> exact hbody
        | «return» =>
          dsimp only
          split <;> exact hbody
      · cases op with
        | next => exact hbody
        | throw | «return» => exact h

theorem manned_beginResumption (via : Executable) (g : Generator) (op : GeneratorOp)
    (c : Id .context) (scope : Id .scope) (v : Value) {s : Stack σ .step goal} (h : s.IsManned) :
    (beginResumption host m via g op c scope v s).state.IsManned := by
  unfold beginResumption
  split
  · exact h
  · split
    · exact manned_beginStep _ _ _ _ _ h
    · exact manned_beginOutermost _ _ _ _ _ (h.cons (.reportStep _) (by decide))

theorem manned_beginContinuation (k : Id .continuation) (v : Value) (c : Id .context)
    {s : Stack σ .completion goal} (h : s.IsManned) :
    (beginContinuation m k v c s).state.IsManned := by
  unfold beginContinuation
  split
  · exact h
  · exact h
  · exact h.cons .callEnd (by decide)

theorem manned_beginCall (f : Callable) (site : CallSite) {s : Stack σ .completion goal}
    (h : s.IsManned) : (beginCall host m f site s).state.IsManned := by
  cases f with
  | executable e =>
    simp only [beginCall]
    split
    · exact manned_interpret _ _ _ h
    · exact manned_beginOutermost _ _ _ _ _ h
  | hostFunction f => exact h.running (by decide) _
  | resumption r g op => exact manned_beginStep _ _ _ _ _ (h.cons (.recordStep r) (by decide))
  | continuation k v => exact manned_beginContinuation _ _ _ _ h

theorem manned_beginMake (f : Id .factory) {s : Stack σ .made goal} (h : s.IsManned) :
    (beginMake host m f s).state.IsManned := by
  unfold beginMake
  split
  · exact h
  · exact h
  · exact h.running (by decide) _

theorem manned_beginBind (c : Id .context) {s : Stack σ .entered goal} (h : s.IsManned) :
    (beginBind thread m c s).state.IsManned := by
  unfold beginBind
  split
  · exact h
  · exact (h.cons (.entered c) (by decide)).cons (.notifying _ _ _) (by decide)

theorem manned_beginEnter (f : Id .factory) (requested : Option (Id .context))
    {s : Stack σ .entered goal} (h : s.IsManned) :
    (beginEnter host thread m f requested s).state.IsManned := by
  unfold beginEnter
  split
  · exact h
  · split
    · exact manned_beginBind _ _ _ h
    · exact manned_beginMake _ _ _ (h.cons .bindMade (by decide))

theorem manned_beginExit {s : Stack σ .left goal} (h : s.IsManned) :
    (beginExit thread m s).state.IsManned := by
  unfold beginExit
  split
  · exact h
  · split
    · exact h
    · exact h
    · exact (h.cons .left (by decide)).cons (.notifying _ _ _) (by decide)

theorem manned_beginAction (a : Action) {s : Stack σ a.kind goal} (h : s.IsManned) :
    (beginAction host thread m a s).state.IsManned := by
  cases a with
  | call f site => exact h
  | callOutermost f site isStrict => exact manned_beginOutermost _ _ _ _ _ h
  | execute e c scope =>
    simp only [beginAction]
    split <;> exact h
  | executeCapturing e c scope =>
    simp only [beginAction]
    split
    · exact h
    · exact manned_beginCapturingCall _ _ _ _ _ _ h
  | callCapturing e c scope args => exact manned_beginCapturingCall _ _ _ _ _ _ h
  | resume k c scope v =>
    simp only [beginAction]
    split
    · exact h
    · split
      · exact h
      · exact manned_beginCapturing _ _ _ _ _ _ _ h
  | step via g op c scope v => exact manned_beginResumption _ _ _ _ _ _ _ _ h
  | enter f requested => exact manned_beginEnter _ _ _ _ _ h
  | exit => exact manned_beginExit _ _ h
  | makeContext f => exact manned_beginMake _ _ _ h

theorem manned_endBody (g : Generator) (e : Except Abrupt Exit) {s : Stack σ .step goal}
    (h : s.IsManned) : (endBody m g e s).state.IsManned := by
  unfold endBody
  dsimp only
  split <;> exact h

theorem manned_take (t : Task σ α β) (x : α.Result) {s : Stack σ β goal}
    (h : (Stack.cons t s).IsManned) : (take host thread m t x s).state.IsManned := by
  obtain ⟨ht, hs⟩ := h
  cases t with
  | program k => exact ⟨ht.resolve_left Bool.false_ne_true, hs⟩
  | called a =>
    cases x with
    | ok v => exact manned_follow _ _ _ hs
    | error e => exact manned_follow _ _ _ hs
  | observed a => cases x <;> exact hs
  | flattenResult | recordStep | reportStep => cases x <;> exact hs
  | callEnd =>
    cases x with
    | ok exit => cases exit <;> exact hs
    | error e => exact hs
  | bodyEnd g => exact manned_endBody _ _ _ hs
  | bindMade =>
    simp only [take]
    split
    · exact hs
    · exact manned_beginBind _ _ _ hs
  | notifying event c rest =>
    cases rest with
    | nil => exact hs
    | cons l rest => exact (hs.cons (.notifying event c rest) (by decide)).running (by decide) _
  | bracketBody body =>
    cases x with
    | ok c => exact (hs.cons .release (by decide)).running (by decide) _
    | error f => exact hs
  | release => exact manned_beginExit _ _ (hs.cons .released (by decide))
  | clearTopCall | restoreCaptures | entered | left | released | repanic | guarded => exact hs

theorem manned_runProgram {κ : Kind} (p : Program σ κ) {s : Stack σ κ goal} (hclear : s.IsClear)
    (h : s.IsManned) : (runProgram host thread m p s).state.IsManned := by
  have hwaits {γ : Kind} (k : γ.Result → Program σ κ) :
      (Stack.cons (.program k) s).IsManned := ⟨.inr hclear, h⟩
  cases p with
  | finish | panic => exact h
  | ask q k => exact ⟨hclear, h⟩
  | act a k => exact manned_beginAction _ _ _ _ (hwaits k)
  | bracket f body k =>
    exact manned_beginEnter _ _ _ _ _ ((hwaits k).cons (.bracketBody body) (by decide))
  | guard body k => exact ((hwaits k).cons .guarded (by decide)).running (by decide) _

theorem manned_count (a : Activation) {s : Stack σ .exit goal} (h : s.IsManned) :
    (count host m a s).state.IsManned := by
  unfold count
  dsimp only
  split
  · exact ⟨fun _ => rfl, .inl rfl, h⟩
  · exact h

/-- Activations keep to the bodies they run, until a panic meets another one. -/
theorem step_isManned {X : Config σ goal} (h : X.state.IsManned) :
    (X.step host thread).state.IsManned ∨
      (∃ s, X.state = .panicking (.cons .repanic s)) ∧ (X.step host thread).state = .crashed := by
  obtain ⟨m, state⟩ := X
  cases state with
  | running p s => exact .inl (manned_runProgram _ _ _ _ h.1 h.2)
  | calling f site s => exact .inl (manned_beginCall _ _ _ _ h)
  | counting a s => exact .inl (manned_count _ _ _ h)
  | executing a s => exact .inl (manned_execute _ _ h)
  | returning x s =>
    cases s with
    | nil => exact .inl h
    | cons t s => exact .inl (manned_take _ _ _ _ _ h)
  | panicking s =>
    cases s with
    | nil => exact .inl h
    | cons t s =>
      cases t with
      | repanic => exact .inr ⟨⟨s, rfl⟩, rfl⟩
      | release => exact .inl (manned_beginExit thread m (h.2.cons .repanic (by decide)))
      | _ => exact .inl h.2
  | crashed => exact absurd h id

end Config

/-! ## Stacks without activations -/

/-- No activation waits on a stack. -/
def Stack.isIdle : {α : Kind} → Stack σ α goal → Bool
  | _, .nil => true
  | _, .cons t rest => !t.isActivation && rest.isIdle

/-- No activation runs, waits or is being left. -/
def State.isQuiet : State σ goal → Bool
  | .counting _ _ | .executing _ _ => false
  | .running _ s | .calling _ _ s => s.isIdle
  | .returning (κ := κ) _ s | .panicking (κ := κ) s => κ != .exit && s.isIdle
  | .crashed => true

theorem Stack.IsManned.bodies_eq {s : Stack σ α goal} (h : s.IsManned) (hidle : s.isIdle = true)
    (i : Id .generator) : s.bodies i = s.topBodies i := by
  -- only the task on top may wait for a body: any other one would have an activation above it
  induction s with
  | nil => rfl
  | cons t rest ih =>
    obtain ⟨ht, hrest⟩ := h
    simp only [isIdle, Bool.and_eq_true, Bool.not_eq_true'] at hidle
    obtain ⟨hno, hidle⟩ := hidle
    have hclear : rest.IsClear := by
      refine ht.resolve_left ?_
      rw [hno]
      exact Bool.false_ne_true
    rw [bodies_cons, ih hrest hidle, hclear i]
    rfl

/-- Where no activation is under way, no body is waited for. -/
theorem State.IsManned.bodies_eq_zero {state : State σ goal} (h : state.IsManned)
    (hquiet : state.isQuiet = true) (i : Id .generator) : state.bodies i = 0 := by
  have hleft {κ : Kind} {s : Stack σ κ goal} (h : s.IsManned)
      (hquiet : (κ != .exit && s.isIdle) = true) : s.bodies i = 0 := by
    simp only [Bool.and_eq_true, bne_iff_ne] at hquiet
    exact (h.bodies_eq hquiet.2 i).trans (s.isClear_of_ne hquiet.1 i)
  cases state with
  | running p s => exact (h.2.bodies_eq hquiet i).trans (h.1 i)
  | calling f site s =>
    exact (Stack.IsManned.bodies_eq h hquiet i).trans (s.isClear_of_ne (by decide) i)
  | counting | executing => cases hquiet
  | returning x s => exact hleft h hquiet
  | panicking s => exact hleft h hquiet
  | crashed => rfl

end ScriptMachine
