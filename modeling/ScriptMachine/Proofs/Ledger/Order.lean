import ScriptMachine.Proofs.Capture.Course

/-!
# Bookkeeping in order

What the bookkeeping of a context says at some moment is what the stack says: each of its
activations is on the stack once, its top call has the task that clears it beneath all of them,
and captures are accepted only with the task beneath that one that puts the flag back.
`Stack.InOrder` reads this off task by task, and `Config.step_inOrder` says that every step
keeps it, if host code calls suspended computations only where a policy is asked to perform
them.
-/

namespace ScriptMachine

variable {σ : Type} {α β goal : Kind}

/-! ## The bookkeeping of a context that may not be made yet -/

namespace Ledger

/-- Nothing is under way. -/
def idle : Ledger := ⟨none, false, 0⟩

/-- Activations and accepted captures belong to a top call. -/
structure Tidy (l : Ledger) : Prop where
  depth : 0 < l.depth → l.topCall.isSome
  captures : l.acceptsCaptures = true → l.topCall.isSome

theorem tidy_idle : idle.Tidy := ⟨nofun, nofun⟩

theorem tidy_of_isSome {l : Ledger} (h : l.topCall.isSome) : l.Tidy := ⟨fun _ => h, fun _ => h⟩

/-- A context without a top call does not accept captures and runs nothing. -/
theorem Tidy.eq_idle {l : Ledger} (h : l.Tidy) (htop : l.topCall = none) : l = idle := by
  obtain ⟨topCall, acceptsCaptures, depth⟩ := l
  obtain rfl : topCall = none := htop
  have hdepth : depth = 0 := Nat.eq_zero_of_not_pos fun hpos => by cases h.depth hpos
  have hflag : acceptsCaptures = false := Bool.eq_false_iff.mpr fun hflag => by
    cases h.captures hflag
  rw [hdepth, hflag]
  rfl

theorem leaveIn_self (c : Id .context) (l : Ledger) : l.leaveIn c c = l.leave := if_pos rfl

theorem leaveIn_of_ne {c other : Id .context} (h : other ≠ c) (l : Ledger) :
    l.leaveIn c other = l := if_neg h

end Ledger

namespace Store

variable {m m' : Store σ} {c : Id .context}

theorem ledger_of_contexts_eq (h : m'.contexts = m.contexts) : m'.ledger c = m.ledger c := by
  rw [ledger, ledger, context, context, h]

/-- A context that was not made yet is idle. -/
theorem ledger_of_not_knows (h : ¬ m.Knows c) : m.ledger c = .idle := by
  have hnone : m.contexts.get? c = none := by simpa [Knows] using h
  rw [ledger, context, Table.get, hnone]
  rfl

theorem knows_of_ledger_ne (h : m.ledger c ≠ .idle) : m.Knows c :=
  Classical.byContradiction fun hc => h (ledger_of_not_knows hc)

theorem knows_of_topCall (h : (m.ledger c).topCall.isSome) : m.Knows c := by
  refine knows_of_ledger_ne fun hidle => ?_
  rw [hidle] at h
  cases h

theorem ledger_modifyContext_of_ne {other : Id .context} (h : other ≠ c)
    (f : Context → Context) : (m.modifyContext other f).ledger c = m.ledger c := by
  rw [ledger, context_modifyContext_of_ne (Ne.symm h), ledger]

/-- A change that is none for the bookkeeping of one context is none for any. -/
theorem ledger_modifyContext_same {other : Id .context} {f : Context → Context}
    (h : (f (m.context other)).ledger = (m.context other).ledger) :
    (m.modifyContext other f).ledger c = m.ledger c := by
  by_cases hc : other = c
  · subst hc
    by_cases hk : m.Knows other
    · rw [ledger, context_modifyContext hk, h, ledger]
    · have hk' : ¬ (m.modifyContext other f).Knows other := by
        simpa [Knows, modifyContext, Table.get?_modify] using hk
      rw [ledger_of_not_knows hk', ledger_of_not_knows hk]
  · exact ledger_modifyContext_of_ne hc f

/-- A context that is made is idle. -/
theorem ledger_insert {cx : Context} (h : cx.ledger = .idle) :
    ({ m with contexts := (m.contexts.insert cx).2 } : Store σ).ledger c = m.ledger c := by
  by_cases hc : c = m.contexts.next
  · subst hc
    have hk : ¬ m.Knows m.contexts.next := by simp [Knows, Table.get?, Table.next]
    rw [ledger_of_not_knows hk, ← h]
    simp [ledger, context, Table.get, Table.get?_insert]
  · simp only [ledger, context, Table.get, Table.get?_insert, if_neg hc]

/-- No query touches the bookkeeping of a context. -/
theorem ledger_ask (host : Host σ) (thread : Id .thread) (m : Store σ) (q : Query σ)
    (c : Id .context) : (q.perform host thread m).2.ledger c = m.ledger c := by
  cases q with
  | context q =>
    cases q with
    | create f => exact ledger_insert rfl
    | setController other controller =>
      simp only [Query.perform, ContextQuery.perform]
      split
      · rfl
      · exact ledger_modifyContext_same rfl
    | requestCapture other =>
      simp only [Query.perform, ContextQuery.perform]
      split
      · next h => exact ledger_of_contexts_eq (contexts_requestCapture h)
      · rfl
    | state | current | hasFeature => rfl
    | setVersion | setThreshold | setFrameLimit | setCountsGenerated | setExtension =>
      exact ledger_modifyContext_same rfl
  | code q =>
    cases q with
    | share r => rfl
    | create kind r domain =>
      exact ledger_of_contexts_eq (contexts_createExecutable host thread m kind r domain)
    | nested e index =>
      simp only [Query.perform, CodeQuery.perform]
      split <;> rfl
  | _ => rfl

end Store

/-! ## Host code and suspended computations -/

/-- A generator to be resumed or a continuation to be run again. -/
def Callable.IsSuspended : Callable → Prop
  | .resumption _ _ _ | .continuation _ _ => True
  | .executable _ | .hostFunction _ => False

/-- The action does not call a suspended computation within the top call of a context. -/
def Action.Spares (c : Id .context) : Action → Prop
  | .call f site => f.IsSuspended → site.context ≠ c
  | _ => True

/-- Host code that does not call suspended computations within the top call of a context. -/
def Program.Spares (c : Id .context) : {κ : Kind} → Program σ κ → Prop
  | _, .finish _ => True
  | _, .panic => True
  | _, .ask _ k => ∀ r, (k r).Spares c
  | _, .act a k => a.Spares c ∧ ∀ r, (k r).Spares c
  | _, .bracket _ body k => (∀ other, (body other).Spares c) ∧ ∀ r, (k r).Spares c
  | _, .guard body k => body.Spares c ∧ ∀ r, (k r).Spares c

/-- Suspended computations are handed to the policy that is to perform them as an outermost
call, and it calls them on the context of that call alone. -/
structure Host.Entrusts (host : Host σ) : Prop where
  run : ∀ f site c, (host.run f site).Spares c
  makeContext : ∀ p f c, (host.makeContext p f).Spares c
  outermost : ∀ p f site c, site.context ≠ c → (host.outermost p f site).Spares c
  observe : ∀ p other n c, (host.observe p other n).Spares c
  notify : ∀ l event other c, (host.notify l event other).Spares c

/-- The context that an action calls something on. -/
def Action.on? : Action → Option (Id .context)
  | .call _ site | .callOutermost _ site _ => some site.context
  | .execute _ c _ | .executeCapturing _ c _ | .callCapturing _ c _ _ | .resume _ c _ _
  | .step _ _ _ c _ _ => some c
  | .enter _ _ | .exit | .makeContext _ => none

/-- The context that something is about to be called on. -/
def State.on? : State σ goal → Option (Id .context)
  | .running (.act a _) _ => a.on?
  | .calling _ site _ => some site.context
  | _ => none

/-- Whatever is about to be called is called on a context that was made. -/
def Config.IsGrounded (X : Config σ goal) : Prop := ∀ c, X.state.on? = some c → X.store.Knows c

/-! ## Stacks in order -/

/-- Host code that waits spares a context, unless it runs within the top call of that context. -/
def Ledger.Admits (l : Ledger) (spares : Prop) : Prop := spares ∨ l.topCall.isSome

theorem Ledger.Admits.mono {l : Ledger} {p q : Prop} (h : l.Admits p) (hpq : p → q) :
    l.Admits q := h.imp_left hpq

/-- What a task presumes of the bookkeeping of a context when everything above it is through. -/
def Task.Presumes (c : Id .context) (l : Ledger) : Task σ α β → Prop
  | .program k => l.Tidy ∧ l.Admits (∀ x, (k x).Spares c)
  | .bracketBody body => l.Tidy ∧ l.Admits (∀ other, (body other).Spares c)
  | .called a | .observed a => l.Tidy ∧ (a.context = c → 0 < l.depth)
  | .clearTopCall other => l.Tidy ∧ (other = c → l.topCall.isSome ∧ l.depth = 0)
  | .restoreCaptures other previous =>
    if other = c then l = ⟨none, true, 0⟩ ∧ previous = false else l.Tidy
  | _ => l.Tidy

/-- The stack says what the bookkeeping says. -/
def Stack.Accounts (c : Id .context) : {α : Kind} → Ledger → Stack σ α goal → Prop
  | _, l, .nil => l = .idle
  | _, l, .cons t rest => t.Presumes c l ∧ rest.Accounts c (t.settle c l)

/-- What runs and the stack beneath say what the bookkeeping says. -/
def State.Accounts (c : Id .context) (l : Ledger) : State σ goal → Prop
  | .running p s => l.Tidy ∧ l.Admits (p.Spares c) ∧ s.Accounts c l
  | .calling f site s =>
    l.Tidy ∧ (f.IsSuspended → site.context = c → l.topCall.isSome) ∧ s.Accounts c l
  | .counting a s | .executing a s => (Stack.cons (.called a) s).Accounts c l
  | .returning _ s | .panicking s => s.Accounts c l
  | .crashed => True

/-- The bookkeeping of a context is what a stack says. -/
def Stack.InOrder (c : Id .context) (m : Store σ) (s : Stack σ α goal) : Prop :=
  (m.ledger c).Tidy ∧ s.Accounts c (m.ledger c)

/-- The bookkeeping of a context is what the stack and what runs on it say. -/
def Config.InOrder (c : Id .context) (X : Config σ goal) : Prop :=
  X.state.Accounts c (X.store.ledger c)

namespace Stack

variable {m m' : Store σ} {c : Id .context} {s : Stack σ α goal}

theorem InOrder.of_ledger_eq (h : s.InOrder c m) (hm : m'.ledger c = m.ledger c) :
    s.InOrder c m' := by
  rw [InOrder, hm]
  exact h

/-- A task that owes nothing may come. -/
theorem InOrder.cons (h : s.InOrder c m) {t : Task σ β α} (ht : ∀ l, t.settle c l = l)
    (hpresumes : t.Presumes c (m.ledger c)) : (Stack.cons t s).InOrder c m := by
  refine ⟨h.1, hpresumes, ?_⟩
  rw [ht]
  exact h.2

theorem InOrder.program (h : s.InOrder c m) {k : β.Result → Program σ α}
    (hk : (m.ledger c).Admits (∀ x, (k x).Spares c)) :
    (Stack.cons (.program k) s).InOrder c m := h.cons (fun _ => rfl) ⟨h.1, hk⟩

end Stack

/-! ## The beginnings of activities -/

namespace Config

variable {m : Store σ} {c : Id .context}

/-- The bookkeeping of a context with a task on top that owes a change of it. -/
theorem ledger_changed (hm : m.Knows c) (f : Context → Context) :
    (m.modifyContext c f).ledger c = (f (m.context c)).ledger := by
  rw [Store.ledger, Store.context_modifyContext hm]

theorem ledger_changeDepth (hm : m.Knows c) (f : Nat → Nat) :
    (changeDepth m c f).ledger c = { m.ledger c with depth := f (m.ledger c).depth } :=
  ledger_changed hm _

theorem beginActivation_inOrder {s : Stack σ .exit goal} (h : s.InOrder c m)
    {other : Id .context} (hother : other = c → (m.ledger c).topCall.isSome)
    (frames : List Frame) (isGenerator : Bool) :
    (beginActivation m other frames isGenerator s).InOrder c := by
  show (Stack.cons (.called _) s).Accounts c ((changeDepth m other (· + 1)).ledger c)
  by_cases hc : other = c
  · subst hc
    have htop := hother rfl
    rw [ledger_changeDepth (Store.knows_of_topCall htop)]
    refine ⟨⟨Ledger.tidy_of_isSome htop, fun _ => Nat.succ_pos _⟩, ?_⟩
    show s.Accounts other (Ledger.leaveIn other other _)
    rw [Ledger.leaveIn_self]
    exact h.2
  · rw [changeDepth, Store.ledger_modifyContext_of_ne hc]
    refine ⟨⟨h.1, fun hcontext => absurd hcontext hc⟩, ?_⟩
    show s.Accounts c (Ledger.leaveIn c other _)
    rw [Ledger.leaveIn_of_ne hc]
    exact h.2

/-- An activation that waited is left. -/
theorem accounts_leave {a : Activation} {s : Stack σ .exit goal}
    (h : (Stack.cons (.called a) s).Accounts c (m.ledger c)) :
    s.Accounts c ((changeDepth m a.context (· - 1)).ledger c) := by
  obtain ⟨⟨-, hdepth⟩, hrest⟩ := h
  by_cases hc : a.context = c
  · subst hc
    have hknown : m.Knows a.context := by
      refine Store.knows_of_ledger_ne fun hidle => ?_
      have hpos := hdepth rfl
      rw [hidle] at hpos
      exact absurd hpos (Nat.lt_irrefl 0)
    rw [ledger_changeDepth hknown]
    have hsettle : Task.settle a.context (σ := σ) (.called a) (m.ledger a.context) =
        (m.ledger a.context).leave := Ledger.leaveIn_self _ _
    rw [hsettle] at hrest
    exact hrest
  · rw [changeDepth, Store.ledger_modifyContext_of_ne hc]
    have hsettle : Task.settle c (σ := σ) (.called a) (m.ledger c) = m.ledger c :=
      Ledger.leaveIn_of_ne hc _
    rw [hsettle] at hrest
    exact hrest

theorem follow_inOrder {a : Activation} {flow : Flow} {s : Stack σ .exit goal}
    (h : (Stack.cons (.called a) s).Accounts c (m.ledger c)) (hflow : flow.Continues a) :
    (follow m a.context flow s).InOrder c := by
  cases flow with
  | next b =>
    obtain ⟨f, callers, rfl⟩ := hflow
    exact h
  | leave e => exact accounts_leave h

theorem execute_inOrder {a : Activation} {s : Stack σ .exit goal}
    (h : (Stack.cons (.called a) s).Accounts c (m.ledger c)) : (execute m a s).InOrder c := by
  have hmove := a.execute_continues m
  have hm : (a.execute m).2.ledger c = m.ledger c :=
    Store.ledger_of_contexts_eq (a.execute_frame m).1
  unfold execute
  split
  · next flow m' heq =>
    rw [heq] at hmove hm
    refine follow_inOrder ?_ hmove
    rw [hm]
    exact h
  · next b f site m' heq =>
    rw [heq] at hmove hm
    obtain ⟨⟨g, callers, rfl⟩, -, hawaited⟩ := hmove
    have hnot : ¬ f.IsSuspended := by
      cases f with
      | executable | hostFunction => exact id
      | resumption | continuation => exact absurd hawaited id
    show _ ∧ _ ∧ (Stack.cons (.called _) s).Accounts c (m'.ledger c)
    rw [hm]
    exact ⟨h.1.1, fun hf => absurd hf hnot, h⟩

theorem interpret_inOrder {s : Stack σ .completion goal} (h : s.InOrder c m) (e : Executable)
    {site : CallSite} (hsite : site.context = c → (m.ledger c).topCall.isSome) :
    (interpret m e site s).InOrder c := by
  unfold interpret
  dsimp only
  split
  · exact h.2
  · exact beginActivation_inOrder (s := .cons .callEnd s) (h.cons (fun _ => rfl) h.1) hsite _ _

variable {host : Host σ} (hhost : host.Entrusts)
include hhost

/-- An outermost call may begin on a context that is not in use; elsewhere nothing changes. -/
theorem beginOutermost_inOrder {s : Stack σ .completion goal} (hs : s.Accounts c (m.ledger c))
    (f : Callable) {site : CallSite} (htidy : site.context ≠ c → (m.ledger c).Tidy)
    (hdepth : (m.ledger c).topCall = none → (m.ledger c).depth = 0)
    (hknown : site.context = c → m.Knows c) (isStrict : Bool) :
    (beginOutermost host m f site isStrict s).InOrder c := by
  unfold beginOutermost
  split
  · exact hs
  next hnone =>
    -- the new top call is cleared by the task that is put on the stack
    have hbegun : (Stack.cons (.clearTopCall site.context) s).InOrder c
          (m.modifyContext site.context fun cx =>
            { cx with topCall := some ⟨site.scope, isStrict⟩ }) ∧
        (site.context = c → ((m.modifyContext site.context fun cx =>
          { cx with topCall := some ⟨site.scope, isStrict⟩ }).ledger c).topCall.isSome) := by
      by_cases hc : site.context = c
      · have htop : (m.ledger c).topCall = none := by
          subst hc
          simpa [Store.ledger, Context.ledger] using hnone
        have hledger : (m.modifyContext site.context fun cx =>
            { cx with topCall := some ⟨site.scope, isStrict⟩ }).ledger c =
              { m.ledger c with topCall := some ⟨site.scope, isStrict⟩ } := by
          rw [hc]
          exact ledger_changed (hknown hc) _
        rw [Stack.InOrder, hledger]
        refine ⟨⟨Ledger.tidy_of_isSome rfl, ⟨Ledger.tidy_of_isSome rfl,
          fun _ => ⟨rfl, hdepth htop⟩⟩, ?_⟩, fun _ => rfl⟩
        have hsettle : Task.settle c (σ := σ) (.clearTopCall site.context)
            { m.ledger c with topCall := some ⟨site.scope, isStrict⟩ } = m.ledger c := by
          rw [Task.settle, if_pos hc, ← htop]
        rw [hsettle]
        exact hs
      · have hledger : (m.modifyContext site.context fun cx =>
            { cx with topCall := some ⟨site.scope, isStrict⟩ }).ledger c = m.ledger c :=
          Store.ledger_modifyContext_of_ne hc _
        rw [Stack.InOrder, hledger]
        refine ⟨⟨htidy hc, ⟨htidy hc, fun h => absurd h hc⟩, ?_⟩, fun h => absurd h hc⟩
        rw [Task.settle, if_neg hc]
        exact hs
    obtain ⟨horder, htop⟩ := hbegun
    dsimp only
    split
    · next p _ =>
      refine ⟨horder.1, ?_, horder.2⟩
      by_cases hc : site.context = c
      · exact .inr (htop hc)
      · exact .inl (hhost.outermost p f site c hc)
    · have hflatten := horder.cons (t := .flattenResult) (fun _ => rfl) horder.1
      exact ⟨hflatten.1, fun _ => htop, hflatten.2⟩
    · have hflatten := horder.cons (t := .flattenResult) (fun _ => rfl) horder.1
      exact ⟨hflatten.1, fun _ => htop, hflatten.2⟩

theorem beginOutermost_of_inOrder {s : Stack σ .completion goal} (h : s.InOrder c m)
    (f : Callable) {site : CallSite} (hknown : site.context = c → m.Knows c) (isStrict : Bool) :
    (beginOutermost host m f site isStrict s).InOrder c := by
  refine beginOutermost_inOrder hhost h.2 f (fun _ => h.1) ?_ hknown isStrict
  intro hnone
  exact congrArg Ledger.depth (h.1.eq_idle hnone)

theorem beginCapturing_inOrder {s : Stack σ .completion goal} (h : s.InOrder c m) (f : Callable)
    {other : Id .context} (hnone : ¬ (m.context other).topCall.isSome)
    (hknown : other = c → m.Knows c) (scope : Id .scope) (args : List Value) (isStrict : Bool) :
    (beginCapturing host m f other scope args isStrict s).InOrder c := by
  unfold beginCapturing
  by_cases hc : other = c
  · subst hc
    have htop : (m.ledger other).topCall = none := by
      simpa [Store.ledger, Context.ledger] using hnone
    have hidle := h.1.eq_idle htop
    have hflag : (m.context other).acceptsCaptures = false :=
      congrArg Ledger.acceptsCaptures hidle
    have hledger : (m.modifyContext other fun cx => { cx with acceptsCaptures := true }).ledger
        other = ⟨none, true, 0⟩ := by
      rw [ledger_changed (hknown rfl)]
      show Ledger.mk (m.ledger other).topCall true (m.ledger other).depth = _
      rw [hidle]
      rfl
    refine beginOutermost_inOrder hhost ?_ _ (fun hne => absurd rfl hne) ?_
      (fun _ => Store.knows_modifyContext other _ (hknown rfl)) _
    · rw [hledger, hflag]
      refine ⟨by rw [Task.Presumes, if_pos rfl]; exact ⟨rfl, rfl⟩, ?_⟩
      rw [Task.settle, if_pos rfl]
      have hs := h.2
      rwa [hidle] at hs
    · rw [hledger]
      exact fun _ => rfl
  · have hledger : (m.modifyContext other fun cx => { cx with acceptsCaptures := true }).ledger c =
        m.ledger c := Store.ledger_modifyContext_of_ne hc _
    refine beginOutermost_inOrder hhost ?_ _ ?_ ?_ (fun h => absurd h hc) _
    · rw [hledger]
      refine ⟨by rw [Task.Presumes, if_neg hc]; exact h.1, ?_⟩
      rw [Task.settle, if_neg hc]
      exact h.2
    · rw [hledger]
      exact fun _ => h.1
    · rw [hledger]
      intro htop
      rw [h.1.eq_idle htop]
      rfl

omit hhost in
theorem beginStep_inOrder {s : Stack σ .step goal} (h : s.InOrder c m) (g : Generator)
    (op : GeneratorOp) {other : Id .context}
    (hother : other = c → (m.ledger c).topCall.isSome) (v : Value) :
    (beginStep m g op other v s).InOrder c := by
  have hbody : (Stack.cons (.bodyEnd g) s).InOrder c m := h.cons (fun _ => rfl) h.1
  have hrun : ∀ (state : GeneratorState) (frames : List Frame),
      (beginActivation { m with generators := m.generators.set g.id state } other frames true
        (.cons (.bodyEnd g) s)).InOrder c := by
    intro state frames
    exact beginActivation_inOrder (hbody.of_ledger_eq rfl) hother frames true
  unfold beginStep
  dsimp only
  split
  · cases op <;> exact h.2
  · split
    · exact h.2
    · split
      · cases op with
        | next => exact hrun _ _
        | throw =>
          dsimp only
          split
          · exact hrun _ _
          · exact hbody.2
        | «return» =>
          dsimp only
          split
          · exact hrun _ _
          · exact hbody.2
      · cases op with
        | next => exact hrun _ _
        | throw | «return» => exact h.2

theorem beginResumption_inOrder {s : Stack σ .step goal} (h : s.InOrder c m) (via : Executable)
    (g : Generator) (op : GeneratorOp) {other : Id .context} (hknown : other = c → m.Knows c)
    (scope : Id .scope) (v : Value) :
    (beginResumption host m via g op other scope v s).InOrder c := by
  unfold beginResumption
  split
  · exact h.2
  · split
    · next htop =>
      refine beginStep_inOrder h g op ?_ v
      rintro rfl
      exact htop
    · have hreport : (Stack.cons (.reportStep m.resumptions.next) s).InOrder c
          { m with resumptions := (m.resumptions.insert { value := some v }).2 } :=
        Stack.InOrder.of_ledger_eq (h.cons (fun _ => rfl) h.1) rfl
      exact beginOutermost_of_inOrder hhost hreport _ hknown _

omit hhost in
theorem beginContinuation_inOrder {s : Stack σ .completion goal} (h : s.InOrder c m)
    (k : Id .continuation) (v : Value) {other : Id .context}
    (hother : other = c → (m.ledger c).topCall.isSome) :
    (beginContinuation m k v other s).InOrder c := by
  unfold beginContinuation
  split
  · exact h.2
  · next heq =>
    obtain ⟨continuations, rfl⟩ := Store.takeFrames_frame heq
    exact (h.of_ledger_eq rfl).2
  · next heq =>
    obtain ⟨continuations, rfl⟩ := Store.takeFrames_frame heq
    have hend : (Stack.cons .callEnd s).InOrder c m := h.cons (fun _ => rfl) h.1
    exact beginActivation_inOrder (hend.of_ledger_eq rfl) hother _ _

theorem beginCall_inOrder {s : Stack σ .completion goal} {f : Callable} {site : CallSite}
    (h : (⟨m, .calling f site s⟩ : Config σ goal).InOrder c)
    (hknown : site.context = c → m.Knows c) : (beginCall host m f site s).InOrder c := by
  obtain ⟨htidy, hsuspended, hs⟩ := h
  have horder : s.InOrder c m := ⟨htidy, hs⟩
  cases f with
  | executable e =>
    simp only [beginCall]
    split
    · next htop =>
      refine interpret_inOrder horder e ?_
      rintro rfl
      exact htop
    · exact beginOutermost_of_inOrder hhost horder _ hknown _
  | hostFunction f => exact ⟨htidy, .inl (hhost.run f.id site c), hs⟩
  | resumption r g op =>
    have hrecord : (Stack.cons (.recordStep r) s).InOrder c { m with
        resumptions := m.resumptions.modify r fun x => { x with value := none } } :=
      Stack.InOrder.of_ledger_eq (horder.cons (fun _ => rfl) htidy) rfl
    exact beginStep_inOrder hrecord g op (hsuspended trivial) _
  | continuation k v => exact beginContinuation_inOrder horder k v (hsuspended trivial)

theorem beginMake_inOrder {s : Stack σ .made goal} (h : s.InOrder c m) (f : Id .factory) :
    (beginMake host m f s).InOrder c := by
  unfold beginMake
  split
  · exact (h.of_ledger_eq (Store.ledger_insert rfl)).2
  · exact (h.of_ledger_eq (Store.ledger_insert rfl)).2
  · exact ⟨h.1, .inl (hhost.makeContext _ f c), h.2⟩

omit hhost in
theorem beginNotify_inOrder {s : Stack σ .done goal} (h : s.InOrder c m) (event : ContextEvent)
    (other : Id .context) : (beginNotify m event other s).InOrder c :=
  (h.cons (t := .notifying event other (m.factoryOf other).listeners) (fun _ => rfl) h.1).2

omit hhost in
theorem beginBind_inOrder (thread : Id .thread) {s : Stack σ .entered goal} (h : s.InOrder c m)
    (other : Id .context) : (beginBind thread m other s).InOrder c := by
  unfold beginBind
  split
  · exact h.2
  · next cx hbind =>
    have hentered : (Stack.cons (.entered other) s).InOrder c m := h.cons (fun _ => rfl) h.1
    exact beginNotify_inOrder
      (hentered.of_ledger_eq (Store.ledger_modifyContext_same (Context.ledger_bind hbind))) _ _

theorem beginEnter_inOrder (thread : Id .thread) {s : Stack σ .entered goal} (h : s.InOrder c m)
    (f : Id .factory) (requested : Option (Id .context)) :
    (beginEnter host thread m f requested s).InOrder c := by
  unfold beginEnter
  split
  · exact (h.of_ledger_eq (Store.ledger_modifyContext_same rfl)).2
  · split
    · exact beginBind_inOrder thread h _
    · exact beginMake_inOrder hhost (s := .cons .bindMade s) (h.cons (fun _ => rfl) h.1) f

omit hhost in
theorem beginExit_inOrder (thread : Id .thread) {s : Stack σ .left goal} (h : s.InOrder c m) :
    (beginExit thread m s).InOrder c := by
  unfold beginExit
  split
  · exact h.2
  · split
    · exact h.2
    · next cx hrelease =>
      exact (h.of_ledger_eq (Store.ledger_modifyContext_same (Context.ledger_release hrelease))).2
    · next cx hrelease =>
      have hleft : (Stack.cons .left s).InOrder c m := h.cons (fun _ => rfl) h.1
      exact beginNotify_inOrder
        (hleft.of_ledger_eq (Store.ledger_modifyContext_same (Context.ledger_release hrelease)))
        _ _

theorem beginCapturingCall_inOrder {s : Stack σ .completion goal} (h : s.InOrder c m)
    (e : Executable) {other : Id .context} (hknown : other = c → m.Knows c) (scope : Id .scope)
    (args : List Value) :
    (beginAction.beginCapturingCall host m e other scope args s).InOrder c := by
  unfold beginAction.beginCapturingCall
  split
  · exact h.2
  · next hnone => exact beginCapturing_inOrder hhost h _ hnone hknown _ _ _

theorem beginAction_inOrder (thread : Id .thread) (a : Action) {s : Stack σ a.kind goal}
    (h : s.InOrder c m) (hspares : (m.ledger c).Admits (a.Spares c))
    (hknown : ∀ other, a.on? = some other → m.Knows other) :
    (beginAction host thread m a s).InOrder c := by
  have hon : ∀ other, a.on? = some other → other = c → m.Knows c :=
    fun other hother heq => heq ▸ hknown other hother
  cases a with
  | call f site =>
    refine ⟨h.1, ?_, h.2⟩
    intro hsuspended hsite
    rcases hspares with hspares | htop
    · exact absurd hsite (hspares hsuspended)
    · exact htop
  | callOutermost f site isStrict => exact beginOutermost_of_inOrder hhost h _ (hon _ rfl) _
  | execute e other scope =>
    simp only [beginAction]
    split
    · exact h.2
    · exact ⟨h.1, fun hsuspended => absurd hsuspended id, h.2⟩
  | executeCapturing e other scope =>
    simp only [beginAction]
    split
    · exact h.2
    · exact beginCapturingCall_inOrder hhost h _ (hon _ rfl) _ _
  | callCapturing e other scope args => exact beginCapturingCall_inOrder hhost h _ (hon _ rfl) _ _
  | resume k other scope v =>
    simp only [beginAction]
    split
    · exact h.2
    · next hnone =>
      split
      · exact h.2
      · exact beginCapturing_inOrder hhost h _ hnone (hon _ rfl) _ _ _
  | step via g op other scope v => exact beginResumption_inOrder hhost h _ _ _ (hon _ rfl) _ _
  | enter f requested => exact beginEnter_inOrder hhost thread h _ _
  | exit => exact beginExit_inOrder thread h
  | makeContext f => exact beginMake_inOrder hhost h _

/-! ## Results, panics and steps -/

omit hhost in
theorem endBody_inOrder {s : Stack σ .step goal} (h : s.Accounts c (m.ledger c)) (g : Generator)
    (e : Except Abrupt Exit) : (endBody m g e s).InOrder c := by
  unfold endBody
  dsimp only
  split <;> exact h

omit hhost in
/-- A top call is cleared, or captures are accepted as before, as the stack says. -/
theorem accounts_settled {t : Task σ .completion .completion} {s : Stack σ .completion goal}
    (h : (Stack.cons t s).Accounts c (m.ledger c)) {other : Id .context}
    {f : Context → Context} {g : Ledger → Ledger}
    (hf : (f (m.context other)).ledger = g (m.context other).ledger)
    (ht : ∀ l, t.settle c l = if other = c then g l else l)
    (hknown : other = c → m.Knows c) :
    s.Accounts c ((m.modifyContext other f).ledger c) := by
  have hrest := h.2
  rw [ht] at hrest
  by_cases hc : other = c
  · subst hc
    rw [ledger_changed (hknown rfl), hf]
    rwa [if_pos rfl] at hrest
  · rw [Store.ledger_modifyContext_of_ne hc]
    rwa [if_neg hc] at hrest

omit hhost in
theorem clearTopCall_inOrder {other : Id .context} {s : Stack σ .completion goal}
    (h : (Stack.cons (.clearTopCall other) s).Accounts c (m.ledger c)) :
    s.Accounts c ((m.modifyContext other fun cx => { cx with topCall := none }).ledger c) :=
  accounts_settled h (g := fun l => { l with topCall := none }) rfl (fun _ => rfl) fun hc =>
    Store.knows_of_topCall (h.1.2 hc).1

omit hhost in
theorem restoreCaptures_inOrder {other : Id .context} {previous : Bool}
    {s : Stack σ .completion goal}
    (h : (Stack.cons (.restoreCaptures other previous) s).Accounts c (m.ledger c)) :
    s.Accounts c
      ((m.modifyContext other fun cx => { cx with acceptsCaptures := previous }).ledger c) := by
  refine accounts_settled h (g := fun l => { l with acceptsCaptures := previous }) rfl
    (fun _ => rfl) fun hc => ?_
  have hpresumes := h.1
  rw [Task.Presumes, if_pos hc] at hpresumes
  refine Store.knows_of_ledger_ne fun hidle => ?_
  rw [hpresumes.1] at hidle
  cases hidle

theorem take_inOrder (thread : Id .thread) (t : Task σ α β) (x : α.Result) {s : Stack σ β goal}
    (h : (Stack.cons t s).Accounts c (m.ledger c)) : (take host thread m t x s).InOrder c := by
  cases t with
  | program k => exact ⟨h.1.1, h.1.2.mono fun hk => hk x, h.2⟩
  | clearTopCall other => exact clearTopCall_inOrder h
  | restoreCaptures other previous => exact restoreCaptures_inOrder h
  | called a =>
    cases x with
    | ok v => exact follow_inOrder h (a.deliver_continues v)
    | error e =>
      refine follow_inOrder (m := (a.fail e m).2) ?_ (a.fail_continues m e)
      rw [Store.ledger_of_contexts_eq (a.contexts_fail m e)]
      exact h
  | observed a =>
    cases x with
    | ok u => exact h
    | error reason =>
      have hleave : Flow.Continues a (.leave (.error (.aborted reason))) := trivial
      exact follow_inOrder (a := a) h hleave
  | callEnd =>
    cases x with
    | ok exit => cases exit <;> exact h.2
    | error e => exact h.2
  | bodyEnd g => exact endBody_inOrder h.2 _ _
  | flattenResult | recordStep | reportStep => cases x <;> exact h.2
  | bindMade =>
    simp only [take]
    split
    · exact h.2
    · exact beginBind_inOrder thread ⟨h.1, h.2⟩ _
  | notifying event other rest =>
    cases rest with
    | nil => exact h.2
    | cons l rest =>
      have hrest : (Stack.cons (.notifying event other rest) s).InOrder c m := ⟨h.1, h.1, h.2⟩
      exact ⟨h.1, .inl (hhost.notify l event other c), hrest.2⟩
  | bracketBody body =>
    cases x with
    | ok other => exact ⟨h.1.1, h.1.2.mono fun hbody => hbody other, h.1.1, h.2⟩
    | error f => exact h.2
  | release =>
    have hrest : s.InOrder c m := ⟨h.1, h.2⟩
    exact beginExit_inOrder thread (s := .cons .released s) (hrest.cons (fun _ => rfl) h.1)
  | entered | left | released | repanic | guarded => exact h.2

omit hhost in
theorem passPanic_inOrder (thread : Id .thread) (t : Task σ α β) {s : Stack σ β goal}
    (h : (Stack.cons t s).Accounts c (m.ledger c)) : (passPanic thread m t s).InOrder c := by
  cases t with
  | clearTopCall other => exact clearTopCall_inOrder h
  | restoreCaptures other previous => exact restoreCaptures_inOrder h
  | called a | observed a => exact accounts_leave (a := a) h
  | release =>
    have hrest : s.InOrder c m := ⟨h.1, h.2⟩
    exact beginExit_inOrder thread (s := .cons .repanic s) (hrest.cons (fun _ => rfl) h.1)
  | repanic => trivial
  | _ => exact h.2

theorem runProgram_inOrder (thread : Id .thread) {κ : Kind} (p : Program σ κ)
    {s : Stack σ κ goal} (h : (⟨m, .running p s⟩ : Config σ goal).InOrder c)
    (hgrounded : (⟨m, .running p s⟩ : Config σ goal).IsGrounded) :
    (runProgram host thread m p s).InOrder c := by
  obtain ⟨htidy, hadmits, hs⟩ := h
  have horder : s.InOrder c m := ⟨htidy, hs⟩
  cases p with
  | finish result => exact hs
  | panic => exact hs
  | ask q k =>
    show State.Accounts c ((q.perform host thread m).2.ledger c) (.running _ s)
    rw [Store.ledger_ask]
    exact ⟨htidy, hadmits.mono fun hk => hk _, hs⟩
  | act a k =>
    refine beginAction_inOrder hhost thread a (s := .cons (.program k) s) ?_
      (hadmits.mono fun hk => hk.1) fun other hother => hgrounded other hother
    exact horder.program (hadmits.mono fun hk => hk.2)
  | bracket f body k =>
    have hprogram := horder.program (β := .left) (k := k) (hadmits.mono fun hk => hk.2)
    exact beginEnter_inOrder hhost thread (s := .cons (.bracketBody body) (.cons (.program k) s))
      (hprogram.cons (fun _ => rfl) ⟨htidy, hadmits.mono fun hk => hk.1⟩) f none
  | guard body k =>
    have hprogram := horder.program (β := .guarded) (k := k) (hadmits.mono fun hk => hk.2)
    have hguarded := hprogram.cons (t := .guarded) (fun _ => rfl) htidy
    exact ⟨htidy, hadmits.mono fun hk => hk.1, hguarded.2⟩

theorem count_inOrder {a : Activation} {s : Stack σ .exit goal}
    (h : (Stack.cons (.called a) s).Accounts c (m.ledger c)) : (count host m a s).InOrder c := by
  have hm : (m.modifyContext a.context fun _ => ((m.context a.context).countInstruction).2).ledger c
      = m.ledger c := Store.ledger_modifyContext_same (Context.ledger_countInstruction _)
  unfold count
  dsimp only
  split
  · show State.Accounts c (Store.ledger _ c) _
    rw [hm]
    exact ⟨h.1.1, .inl (hhost.observe _ _ _ c), h⟩
  · show State.Accounts c (Store.ledger _ c) _
    rw [hm]
    exact h

/-- Every step keeps the bookkeeping in order. -/
theorem step_inOrder (thread : Id .thread) {X : Config σ goal} (h : X.InOrder c)
    (hgrounded : X.IsGrounded) : (X.step host thread).InOrder c := by
  obtain ⟨m, state⟩ := X
  cases state with
  | running p s => exact runProgram_inOrder hhost thread p h hgrounded
  | calling f site s =>
    exact beginCall_inOrder hhost h fun hc => hc ▸ hgrounded site.context rfl
  | counting a s => exact count_inOrder hhost h
  | executing a s => exact execute_inOrder h
  | returning x s =>
    cases s with
    | nil => exact h
    | cons t s => exact take_inOrder hhost thread t x h
  | panicking s =>
    cases s with
    | nil => exact h
    | cons t s => exact passPanic_inOrder thread t h
  | crashed => exact h

omit hhost in
/-- A run that starts with every context idle starts in order. -/
theorem start_inOrder {p : Program σ goal} (hidle : m.ledger c = .idle) (hspares : p.Spares c) :
    (start m p).InOrder c := by
  refine ⟨?_, .inl hspares, hidle⟩
  show (m.ledger c).Tidy
  rw [hidle]
  exact Ledger.tidy_idle

/-- Along a run on contexts that were made, the bookkeeping stays in order. -/
theorem run_inOrder (thread : Id .thread) {X : Config σ goal} (h : X.InOrder c)
    (hgrounded : ∀ n, (X.run host thread n).IsGrounded) (n : Nat) :
    (X.run host thread n).InOrder c := by
  induction n generalizing X with
  | zero => exact h
  | succ n ih => exact ih (step_inOrder hhost thread h (hgrounded 0)) fun k => hgrounded (k + 1)

end Config

end ScriptMachine
