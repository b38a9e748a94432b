import ScriptMachine.Machine.Step
import ScriptMachine.Proofs.Machine.Nesting

/-!
# Host code that is blind to the depth

Host code may read how many activations of a context are under way. `Host.IsBlind` says of a
host that none of its code makes anything of that number; `Config.isBlind_step` that all host
code that comes up in a run is then blind.
-/

namespace ScriptMachine

variable {σ : Type} {α β goal : Kind}

/-- What host code does with the reply to a query does not depend on how many activations of a
context are under way. -/
def Query.Hides {γ : Type} (c : Id .context) : (q : Query σ) → (q.Reply → γ) → Prop
  | .context (.state other), k =>
    other = c → ∀ (cx : Context) (depth : Nat), k { cx with depth } = k cx
  | _, _ => True

/-- Host code never looks at how many activations of a context are under way. -/
def Program.IsBlind (c : Id .context) : {κ : Kind} → Program σ κ → Prop
  | _, .finish _ | _, .panic => True
  | _, .ask q k => q.Hides c k ∧ ∀ r, (k r).IsBlind c
  | _, .act _ k => ∀ r, (k r).IsBlind c
  | _, .bracket _ body k => (∀ other, (body other).IsBlind c) ∧ ∀ r, (k r).IsBlind c
  | _, .guard body k => body.IsBlind c ∧ ∀ r, (k r).IsBlind c

/-- No code of the host looks at how many activations of a context are under way. -/
structure Host.IsBlind (host : Host σ) (c : Id .context) : Prop where
  run : ∀ f site, (host.run f site).IsBlind c
  makeContext : ∀ p f, (host.makeContext p f).IsBlind c
  outermost : ∀ p f site, (host.outermost p f site).IsBlind c
  observe : ∀ p other n, (host.observe p other n).IsBlind c
  notify : ∀ l event other, (host.notify l event other).IsBlind c

/-- Host code that waits on the stack is blind. -/
def Task.IsBlind (c : Id .context) : Task σ α β → Prop
  | .program k => ∀ x, (k x).IsBlind c
  | .bracketBody body => ∀ other, (body other).IsBlind c
  | _ => True

def Stack.IsBlind (c : Id .context) : {α : Kind} → Stack σ α goal → Prop
  | _, .nil => True
  | _, .cons t rest => t.IsBlind c ∧ rest.IsBlind c

def State.IsBlind (c : Id .context) : State σ goal → Prop
  | .running p s => p.IsBlind c ∧ s.IsBlind c
  | .calling _ _ s | .counting _ s | .executing _ s | .returning _ s | .panicking s => s.IsBlind c
  | .crashed => True

/-! ## Blindness goes on -/

namespace Config

/-- Whatever host code there is does not look at how many activations are under way. -/
def IsBlind (c : Id .context) (X : Config σ goal) : Prop := X.state.IsBlind c

variable {host : Host σ} {thread : Id .thread} {c : Id .context} {m : Store σ}

theorem isBlind_follow {s : Stack σ .exit goal} (hs : s.IsBlind c) (other : Id .context)
    (flow : Flow) : (follow m other flow s).IsBlind c := by
  cases flow <;> exact hs

theorem isBlind_execute {s : Stack σ .exit goal} (hs : s.IsBlind c) (a : Activation) :
    (execute m a s).IsBlind c := by
  unfold execute
  split
  · exact isBlind_follow hs _ _
  · exact ⟨trivial, hs⟩

variable (hhost : host.IsBlind c)

theorem isBlind_interpret {s : Stack σ .completion goal} (hs : s.IsBlind c) (e : Executable)
    (site : CallSite) : (interpret m e site s).IsBlind c := by
  unfold interpret
  dsimp only
  split
  · exact hs
  · exact ⟨trivial, hs⟩

include hhost in
theorem isBlind_beginOutermost {s : Stack σ .completion goal} (hs : s.IsBlind c) (f : Callable)
    (site : CallSite) (isStrict : Bool) :
    (beginOutermost host m f site isStrict s).IsBlind c := by
  unfold beginOutermost
  split
  · exact hs
  · dsimp only
    split
    · exact ⟨hhost.outermost _ _ _, trivial, hs⟩
    · exact ⟨trivial, trivial, hs⟩
    · exact ⟨trivial, trivial, hs⟩

include hhost in
theorem isBlind_beginCapturing {s : Stack σ .completion goal} (hs : s.IsBlind c) (f : Callable)
    (other : Id .context) (scope : Id .scope) (args : List Value) (isStrict : Bool) :
    (beginCapturing host m f other scope args isStrict s).IsBlind c := by
  have hs' : ∀ previous, (Stack.cons (.restoreCaptures other previous) s).IsBlind c :=
    fun _ => ⟨trivial, hs⟩
  exact isBlind_beginOutermost hhost (hs' _) _ _ _

theorem isBlind_beginStep {s : Stack σ .step goal} (hs : s.IsBlind c) (g : Generator)
    (op : GeneratorOp) (other : Id .context) (v : Value) :
    (beginStep m g op other v s).IsBlind c := by
  have hbody : (Stack.cons (.bodyEnd g) s).IsBlind c := ⟨trivial, hs⟩
  unfold beginStep
  dsimp only
  split
  · cases op <;> exact hs
  · split
    · exact hs
    · split
      · cases op with
        | next => exact hbody
        | throw | «return» =>
          dsimp only
          split <;> exact hbody
      · cases op with
        | next => exact hbody
        | throw | «return» => exact hs

include hhost in
theorem isBlind_beginResumption {s : Stack σ .step goal} (hs : s.IsBlind c) (via : Executable)
    (g : Generator) (op : GeneratorOp) (other : Id .context) (scope : Id .scope) (v : Value) :
    (beginResumption host m via g op other scope v s).IsBlind c := by
  have hs' : ∀ r, (Stack.cons (.reportStep r) s).IsBlind c := fun _ => ⟨trivial, hs⟩
  unfold beginResumption
  split
  · exact hs
  · split
    · exact isBlind_beginStep hs _ _ _ _
    · exact isBlind_beginOutermost hhost (hs' _) _ _ _

theorem isBlind_beginContinuation {s : Stack σ .completion goal} (hs : s.IsBlind c)
    (k : Id .continuation) (v : Value) (other : Id .context) :
    (beginContinuation m k v other s).IsBlind c := by
  unfold beginContinuation
  split
  · exact hs
  · exact hs
  · exact ⟨trivial, hs⟩

include hhost in
theorem isBlind_beginCall {s : Stack σ .completion goal} (hs : s.IsBlind c) (f : Callable)
    (site : CallSite) : (beginCall host m f site s).IsBlind c := by
  cases f with
  | executable e =>
    simp only [beginCall]
    split
    · exact isBlind_interpret hs _ _
    · exact isBlind_beginOutermost hhost hs _ _ _
  | hostFunction h => exact ⟨hhost.run _ _, hs⟩
  | resumption r g op =>
    exact isBlind_beginStep (s := .cons (.recordStep r) s) ⟨trivial, hs⟩ _ _ _ _
  | continuation k v => exact isBlind_beginContinuation hs _ _ _

include hhost in
theorem isBlind_beginMake {s : Stack σ .made goal} (hs : s.IsBlind c) (f : Id .factory) :
    (beginMake host m f s).IsBlind c := by
  unfold beginMake
  split
  · exact hs
  · exact hs
  · exact ⟨hhost.makeContext _ _, hs⟩

theorem isBlind_beginBind {s : Stack σ .entered goal} (hs : s.IsBlind c) (other : Id .context) :
    (beginBind thread m other s).IsBlind c := by
  unfold beginBind
  split
  · exact hs
  · exact ⟨trivial, trivial, hs⟩

include hhost in
theorem isBlind_beginEnter {s : Stack σ .entered goal} (hs : s.IsBlind c) (f : Id .factory)
    (requested : Option (Id .context)) :
    (beginEnter host thread m f requested s).IsBlind c := by
  unfold beginEnter
  split
  · exact hs
  · split
    · exact isBlind_beginBind hs _
    · exact isBlind_beginMake hhost (s := .cons .bindMade s) ⟨trivial, hs⟩ _

theorem isBlind_beginExit {s : Stack σ .left goal} (hs : s.IsBlind c) :
    (beginExit thread m s).IsBlind c := by
  unfold beginExit
  split
  · exact hs
  · split
    · exact hs
    · exact hs
    · exact ⟨trivial, trivial, hs⟩

include hhost in
theorem isBlind_beginAction (a : Action) {s : Stack σ a.kind goal} (hs : s.IsBlind c) :
    (beginAction host thread m a s).IsBlind c := by
  have hcall : ∀ (e : Executable) (other : Id .context) (scope : Id .scope) (args : List Value)
      {s : Stack σ .completion goal}, s.IsBlind c →
      (beginAction.beginCapturingCall host m e other scope args s).IsBlind c := by
    intro e other scope args s hs
    unfold beginAction.beginCapturingCall
    split
    · exact hs
    · exact isBlind_beginCapturing hhost hs _ _ _ _ _
  cases a with
  | call f site => exact hs
  | callOutermost f site isStrict => exact isBlind_beginOutermost hhost hs _ _ _
  | execute e other scope =>
    simp only [beginAction]
    split <;> exact hs
  | executeCapturing e other scope =>
    simp only [beginAction]
    split
    · exact hs
    · exact hcall _ _ _ _ hs
  | callCapturing e other scope args => exact hcall _ _ _ _ hs
  | resume k other scope v =>
    simp only [beginAction]
    split
    · exact hs
    · split
      · exact hs
      · exact isBlind_beginCapturing hhost hs _ _ _ _ _
  | step via g op other scope v => exact isBlind_beginResumption hhost hs _ _ _ _ _ _
  | enter f requested => exact isBlind_beginEnter hhost hs _ _
  | exit => exact isBlind_beginExit hs
  | makeContext f => exact isBlind_beginMake hhost hs _

include hhost in
theorem isBlind_take (t : Task σ α β) (ht : t.IsBlind c) (x : α.Result) {s : Stack σ β goal}
    (hs : s.IsBlind c) : (take host thread m t x s).IsBlind c := by
  cases t with
  | program k => exact ⟨ht x, hs⟩
  | called a => cases x <;> exact isBlind_follow hs _ _
  | observed a =>
    cases x with
    | ok u => exact hs
    | error reason => exact hs
  | callEnd =>
    cases x with
    | ok exit => cases exit <;> exact hs
    | error e => exact hs
  | bodyEnd g =>
    show (endBody m g x s).IsBlind c
    unfold endBody
    dsimp only
    split <;> exact hs
  | flattenResult | recordStep | reportStep => cases x <;> exact hs
  | bindMade =>
    simp only [take]
    split
    · exact hs
    · exact isBlind_beginBind hs _
  | notifying event other rest =>
    cases rest with
    | nil => exact hs
    | cons l rest => exact ⟨hhost.notify _ _ _, trivial, hs⟩
  | bracketBody body =>
    cases x with
    | ok other => exact ⟨ht other, trivial, hs⟩
    | error f => exact hs
  | release => exact isBlind_beginExit (s := .cons .released s) ⟨trivial, hs⟩
  | clearTopCall | restoreCaptures | entered | left | released | repanic | guarded => exact hs

theorem isBlind_passPanic (t : Task σ α β) {s : Stack σ β goal} (hs : s.IsBlind c) :
    (passPanic thread m t s).IsBlind c := by
  cases t with
  | release => exact isBlind_beginExit (s := .cons .repanic s) ⟨trivial, hs⟩
  | repanic => trivial
  | _ => exact hs

include hhost in
/-- No step brings up host code that is not blind. -/
theorem isBlind_step {X : Config σ goal} (h : X.IsBlind c) : (X.step host thread).IsBlind c := by
  obtain ⟨m, state⟩ := X
  cases state with
  | running p s =>
    obtain ⟨hp, hs⟩ := h
    cases p with
    | finish | panic => exact hs
    | ask q k => exact ⟨hp.2 _, hs⟩
    | act a k => exact isBlind_beginAction hhost a (s := .cons (.program k) s) ⟨hp, hs⟩
    | bracket f body k =>
      exact isBlind_beginEnter hhost (s := .cons (.bracketBody body) (.cons (.program k) s))
        ⟨hp.1, hp.2, hs⟩ _ _
    | guard body k => exact ⟨hp.1, trivial, hp.2, hs⟩
  | calling f site s => exact isBlind_beginCall hhost h f site
  | counting a s =>
    show (count host m a s).IsBlind c
    unfold count
    dsimp only
    split
    · exact ⟨hhost.observe _ _ _, trivial, h⟩
    · exact h
  | executing a s => exact isBlind_execute h a
  | returning x s =>
    cases s with
    | nil => exact h
    | cons t s => exact isBlind_take hhost t h.1 x h.2
  | panicking s =>
    cases s with
    | nil => exact h
    | cons t s => exact isBlind_passPanic t h.2
  | crashed => exact h

end Config

end ScriptMachine
