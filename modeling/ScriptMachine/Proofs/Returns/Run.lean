import ScriptMachine.Proofs.Capture.Transparency
import ScriptMachine.Proofs.Machine.Moves
import ScriptMachine.Proofs.Machine.Nesting
import ScriptMachine.Proofs.Returns.Machine
import ScriptMachine.Proofs.Safety.Run

/-!
# The end of the code is a return of undefined

A run is followed side by side with a run in which the units return undefined explicitly. The two
take different numbers of steps where an instruction is counted and where a unit comes to the end
of its code, and match again afterwards: `Config.Matches.rejoin`. So they make the same calls of
host functions in the same order, and one ends if the other does, in the same way:
`Config.end_of_code_is_return`.

It does make a difference where a handler with a finally block is still active at the end of the
code. A return runs the block and the end of the code does not: `Config.finally_left_out`.
-/

namespace ScriptMachine

variable {σ : Type} {goal : Kind} {U : Units} {S : σ → σ → Prop}

/-! ## Counting -/

/-- The store after an instruction was counted in a context. -/
def Store.counted (m : Store σ) (c : Id .context) : Store σ :=
  m.modifyContext c fun _ => (m.context c).countInstruction.2

/-- Nobody looks on when instructions are counted in a context, or whoever does lets them pass. -/
def Store.Unobserved (host : Host σ) (m : Store σ) (c : Id .context) : Prop :=
  (m.context c).observerThreshold = 0 ∨
    ∀ p, (m.factoryOf c).policy = .custom p →
      ∀ n, host.observe p c n = .finish (κ := .verdict) (.ok ())

theorem Context.uncounted_countInstruction (c : Context) :
    c.countInstruction.2.uncounted = c.uncounted := by
  unfold countInstruction
  split
  · rfl
  · dsimp only
    split <;> rfl

namespace Store

variable {m m' : Store σ} (c : Id .context)

theorem contexts_counted :
    (m.counted c).contexts.map Context.uncounted = m.contexts.map Context.uncounted := by
  have hsame : (m.context c).countInstruction.2.uncounted =
      (m.contexts.map Context.uncounted).get c := by
    rw [Context.uncounted_countInstruction, Table.get_map Context.uncounted _ rfl]
    rfl
  have hmodify := Table.modify_map m.contexts (f := Context.uncounted)
    (g := fun _ => (m.context c).countInstruction.2)
    (k := fun _ => (m.context c).countInstruction.2.uncounted) (fun _ => rfl) c
  rw [hsame, Table.modify_get] at hmodify
  exact hmodify.symm

/-- A side may count more than the other. -/
theorem Matches.countedRight (h : m.Matches U S m') : m.Matches U S (m'.counted c) :=
  { h with contexts := (m'.contexts_counted c).trans h.contexts }

theorem Matches.counted (h : m.Matches U S m') : (m.counted c).Matches U S (m'.counted c) :=
  { h with contexts :=
      (m'.contexts_counted c).trans (h.contexts.trans (m.contexts_counted c).symm) }

theorem factoryOf_counted : (m.counted c).factoryOf c = m.factoryOf c := by
  have hcontext : ((m.counted c).context c).uncounted = (m.context c).uncounted := by
    rw [context, context, ← Table.get_map Context.uncounted _ rfl,
      ← Table.get_map Context.uncounted _ rfl, contexts_counted]
  exact congrArg m.factories.get (congrArg Context.factory hcontext :)

theorem Matches.unobserved {host host' : Host σ} (h : m.Matches U S m')
    (hhost : host.Matches U S host') {c : Id .context} (hc : m.Unobserved host c) :
    m'.Unobserved host' c := by
  rcases hc with hc | hc
  · exact .inl ((h.observerThreshold c).trans hc)
  · refine .inr fun p hp n => ?_
    rw [h.factoryOf] at hp
    have hobserve := hhost.observe p c n
    rw [hc p hp n] at hobserve
    revert hobserve
    generalize host'.observe p c n = program
    rintro ⟨rfl⟩
    rfl

end Store

namespace Config

variable {host host' : Host σ} {thread : Id .thread}

/-! ## Calls of host functions -/

/-- The host function that is about to be called, and the circumstances. -/
def calledHost? (X : Config σ goal) : Option (HostFunction × CallSite) :=
  match X.state with
  | .calling (.hostFunction f) site _ => some (f, site)
  | _ => none

/-- The calls of host functions in a number of steps, in order. -/
def hostCalls (host : Host σ) (thread : Id .thread) :
    Nat → Config σ goal → List (HostFunction × CallSite)
  | 0, _ => []
  | n + 1, X => X.calledHost?.toList ++ hostCalls host thread n (X.step host thread)

theorem hostCalls_add (n k : Nat) (X : Config σ goal) :
    hostCalls host thread (n + k) X =
      hostCalls host thread n X ++ hostCalls host thread k (X.run host thread n) := by
  induction n generalizing X with
  | zero => simp [hostCalls, run]
  | succ n ih => rw [Nat.succ_add, hostCalls, hostCalls, run, ih, List.append_assoc]

/-- Calls with explicit returns in the code that is handed over. -/
def explicitCalls (U : Units) (calls : List (HostFunction × CallSite)) :
    List (HostFunction × CallSite) :=
  calls.map fun call => (call.1, call.2.explicit U)

theorem Matches.calledHost {X Y : Config σ goal} (h : X.Matches U S Y) :
    Y.calledHost?.toList = explicitCalls U X.calledHost?.toList := by
  obtain ⟨m, state⟩ := X
  obtain ⟨m', state'⟩ := Y
  cases h.state with
  | calling f site hs => cases f <;> rfl
  | running | counting | executing | returning | panicking | crashed => rfl

/-! ## Out of step -/

variable (thread)

/-- Unobserved counting takes some steps without a call. -/
theorem run_unobserved {m : Store σ} {a : Activation} (h : m.Unobserved host a.context)
    (s : Stack σ .exit goal) :
    ∃ n, run host thread (n + 1) ⟨m, .counting a s⟩ = ⟨m.counted a.context, .executing a s⟩ ∧
      hostCalls host thread (n + 1) (⟨m, .counting a s⟩ : Config σ goal) = [] := by
  have hstep : step host thread ⟨m, .counting a s⟩ = count host m a s := rfl
  have hpolicy : ((m.modifyContext a.context fun _ =>
      (m.context a.context).countInstruction.2).factoryOf a.context).policy =
        (m.factoryOf a.context).policy :=
    congrArg Factory.policy (m.factoryOf_counted a.context)
  cases hdue : (m.context a.context).countInstruction.1 with
  | none =>
    have hcount : count host m a s = ⟨m.counted a.context, .executing a s⟩ := by
      simp only [count, hdue]
      rfl
    exact ⟨0, hstep.trans hcount, rfl⟩
  | some n =>
    cases hp : (m.factoryOf a.context).policy with
    | standard | planned =>
      have hcount : count host m a s = ⟨m.counted a.context, .executing a s⟩ := by
        simp only [count, hdue, hpolicy.trans hp]
        rfl
      exact ⟨0, hstep.trans hcount, rfl⟩
    | custom p =>
      have hsilent : host.observe p a.context n = .finish (κ := .verdict) (.ok ()) := by
        rcases h with hoff | hsilent
        · have hnone : (m.context a.context).countInstruction.1 = none := by
            rw [Context.countInstruction, if_pos hoff]
          cases hnone.symm.trans hdue
        · exact hsilent p hp n
      have hcount : count host m a s = ⟨m.counted a.context,
          .running (.finish (κ := .verdict) (.ok ())) (.cons (.observed a) s)⟩ := by
        rw [← hsilent]
        simp only [count, hdue, hpolicy.trans hp]
        rfl
      refine ⟨2, ?_, ?_⟩
      · rw [run, hstep, hcount]
        rfl
      · rw [hostCalls, hstep, hcount]
        rfl

/-- Nobody interferes when instructions are counted. -/
def IsUnobserved (host : Host σ) (X : Config σ goal) : Prop :=
  ∀ a s, X.state = .counting a s ∨ X.state = .executing a s →
    X.store.Unobserved host a.context

/-- The frame of a unit that has come to the end of its code and is about to be left. -/
def endedFrame? (U : Units) (X : Config σ goal) : Option Frame :=
  match X.state with
  | .executing a _ => a.frames.head?.filter fun f => f.fetch?.isNone && U.has f.body.routine
  | _ => none

/-- A unit that has come to the end of its code has no finally block left to run. -/
def EndsFreely (U : Units) (X : Config σ goal) : Prop :=
  ∀ f ∈ X.endedFrame? U, ∀ h ∈ f.handlers, h.finallyAt = none

instance (U : Units) (X : Config σ goal) : Decidable (X.EndsFreely U) :=
  inferInstanceAs (Decidable (∀ f ∈ X.endedFrame? U, ∀ h ∈ f.handlers, h.finallyAt = none))

/-- After some steps of each two configurations match, and both have made the same calls. -/
def Rejoin (U : Units) (S : σ → σ → Prop) (host host' : Host σ) (thread : Id .thread)
    (X Y : Config σ goal) : Prop :=
  ∃ n k, (X.run host thread (n + 1)).Matches U S (Y.run host' thread (k + 1)) ∧
    hostCalls host' thread (k + 1) Y = explicitCalls U (hostCalls host thread (n + 1) X)

theorem rejoin_counting (hhost : host.Matches U S host') {m m' : Store σ}
    (hm : m.Matches U S m') {a : Activation} (h : m.Unobserved host a.context)
    {s s' : Stack σ .exit goal} (hs : s.Matches U S s') :
    Rejoin U S host host' thread (⟨m, .counting a s⟩ : Config σ goal)
      ⟨m', .counting (a.explicit U) s'⟩ := by
  have h' : m'.Unobserved host' (a.explicit U).context := hm.unobserved hhost h
  obtain ⟨n, hrun, hcalls⟩ := run_unobserved thread h s
  obtain ⟨k, hrun', hcalls'⟩ := run_unobserved thread h' s'
  refine ⟨n, k, ?_, ?_⟩
  · rw [hrun, hrun']
    exact ⟨hm.counted a.context, .executing a hs⟩
  · rw [hcalls, hcalls']
    rfl

/-- At the end of its code a unit completes its call on one side. On the other undefined is pushed,
the next instruction is counted, and the return completes the call. -/
theorem rejoin_end (hhost : host.Matches U S host') {m m' : Store σ} (hm : m.Matches U S m')
    {a : Activation} {f : Frame} {callers : List Frame} (hframes : a.frames = f :: callers)
    (hfetch : f.fetch? = none) (hhas : U.has f.body.routine = true)
    (hposition : f.position ≤ f.body.routine.code.size)
    (hfinally : ∀ h ∈ f.handlers, h.finallyAt = none) (h : m.Unobserved host a.context)
    {s s' : Stack σ .exit goal} (hs : s.Matches U S s') :
    Rejoin U S host host' thread (⟨m, .executing a s⟩ : Config σ goal)
      ⟨m', .executing (a.explicit U) s'⟩ := by
  have hend : f.position = f.body.routine.code.size := by
    have hcode := Option.map_eq_none_iff.mp hfetch
    exact Nat.le_antisymm hposition (Array.getElem?_eq_none_iff.mp hcode)
  obtain ⟨b, hcontext, hpush, hreturn⟩ :=
    Activation.execute_explicit_of_end (σ := σ) hframes hend hhas hfinally
  have h' : m'.Unobserved host' b.context := by
    rw [hcontext]
    exact hm.unobserved hhost h
  obtain ⟨k, hrun, hcalls⟩ := run_unobserved thread h' s'
  have hleft : step host thread ⟨m, .executing a s⟩ =
      follow m a.context (a.complete callers .undefined) s := by
    simp only [step, execute, Activation.execute_of_end hframes hfetch]
  have hpushed : step host' thread ⟨m', .executing (a.explicit U) s'⟩ =
      (⟨m', .counting b s'⟩ : Config σ goal) := by
    simp only [step, execute, hpush, follow]
  have hreturned : step host' thread ⟨m'.counted b.context, .executing b s'⟩ =
      follow (m'.counted b.context) a.context
        ((a.complete callers .undefined).explicit U) s' := by
    simp only [step, execute, hreturn, hcontext]
  have hright : run host' thread (k + 1 + 1 + 1) ⟨m', .executing (a.explicit U) s'⟩ =
      follow (m'.counted b.context) a.context
        ((a.complete callers .undefined).explicit U) s' := by
    rw [run_succ, run, hpushed, hrun, hreturned]
  refine ⟨0, k + 2, ?_, ?_⟩
  · rw [run_one, hleft]
    exact hright ▸ matches_follow (hm.countedRight b.context) a.context _ hs
  · have hsilent : hostCalls host' thread (k + 1 + 1 + 1)
        (⟨m', .executing (a.explicit U) s'⟩ : Config σ goal) = [] := by
      rw [hostCalls_add (k + 1 + 1) 1, hostCalls, hpushed, hcalls, run, hpushed, hrun]
      rfl
    rw [hsilent]
    rfl

/-- Two configurations that match do so again after some steps of each. -/
theorem Matches.rejoin (hhost : host.Matches U S host') {X Y : Config σ goal}
    (h : X.Matches U S Y) {P : Executable → Prop} {Q : σ → Prop} (hX : X.Sound P Q)
    (hunobserved : X.IsUnobserved host) (hfree : X.EndsFreely U) :
    Rejoin U S host host' thread X Y := by
  by_cases hstep : X.IsOutOfStep U
  · obtain ⟨m, state⟩ := X
    obtain ⟨m', state'⟩ := Y
    obtain ⟨hm, hstate⟩ := h
    cases hstate with
    | counting a hs => exact rejoin_counting thread hhost hm (hunobserved a _ (.inl rfl)) hs
    | executing a hs =>
      obtain ⟨f, callers, hframes, hfetch, hhas⟩ := hstep
      have hsound : f.Sound P := hX.state.1.head hframes
      have hfinally := hfree f (by simp [endedFrame?, hframes, hfetch, hhas])
      exact rejoin_end thread hhost hm hframes hfetch hhas hsound.position hfinally
        (hunobserved a _ (.inr rfl)) hs
    | running | calling | returning | panicking | crashed => exact absurd hstep id
  · refine ⟨0, 0, h.step hhost hstep, ?_⟩
    have hcalls := h.calledHost
    simp only [hostCalls, List.append_nil, hcalls]

/-! ## Runs -/

/-- How a run with explicit returns ends. -/
def explicitEnding (U : Units) : Ending goal → Ending goal
  | .result x => .result (explicitResult U goal x)
  | .panicked => .panicked
  | .crashed => .crashed

theorem Matches.ending {X Y : Config σ goal} (h : X.Matches U S Y) :
    Y.ending? = X.ending?.map (explicitEnding U) := by
  obtain ⟨m, state⟩ := X
  obtain ⟨m', state'⟩ := Y
  cases h.state with
  | returning x hs => cases hs <;> rfl
  | panicking hs => cases hs <;> rfl
  | running | calling | counting | executing | crashed => rfl

/-- Two runs match again and again, and until then they have made the same calls. -/
theorem Matches.meet (hhost : host.Matches U S host') {X Y : Config σ goal}
    (h : X.Matches U S Y) (hX : X.Sound (fun _ => True) fun _ => True)
    (hunobserved : ∀ n, (X.run host thread n).IsUnobserved host)
    (hfree : ∀ n, (X.run host thread n).EndsFreely U) (i : Nat) :
    ∃ n k, i ≤ n ∧ i ≤ k ∧ (X.run host thread n).Matches U S (Y.run host' thread k) ∧
      hostCalls host' thread k Y = explicitCalls U (hostCalls host thread n X) := by
  -- Both runs take a step at least from one meeting to the next, so they meet beyond any number.
  induction i with
  | zero => exact ⟨0, 0, Nat.le_refl 0, Nat.le_refl 0, h, rfl⟩
  | succ i ih =>
    obtain ⟨n, k, hn, hk, hmatch, hcalls⟩ := ih
    have hsound : (X.run host thread n).Sound (fun _ => True) fun _ => True :=
      hX.run host.over_true fun _ _ => trivial
    obtain ⟨n', k', hagain, hmore⟩ :=
      hmatch.rejoin thread hhost hsound (hunobserved n) (hfree n)
    refine ⟨n + (n' + 1), k + (k' + 1), by omega, by omega, ?_, ?_⟩
    · rw [run_add host thread X n, run_add host' thread Y k]
      exact hagain
    · rw [hostCalls_add n, hostCalls_add k, hcalls, hmore]
      exact List.map_append.symm

/-- A number of steps makes the first calls of a greater number. -/
theorem hostCalls_isInitial {n k : Nat} (h : n ≤ k) (X : Config σ goal) :
    hostCalls host thread n X <+: hostCalls host thread k X := by
  obtain ⟨d, rfl⟩ := Nat.exists_eq_add_of_le h
  rw [hostCalls_add]
  exact List.prefix_append _ _

/-- Falling off the end of the code is a return of undefined. The two configurations are the same
but for the explicit returns in all code that they hold: units that are being run or were
suspended, whatever was bound, and the embedder's program with all it has yet to do. So are the
host functions. Then the two runs end in the same way and leave the same store, counts of
instructions aside, and make the same calls of host functions in the same order until then.
Observers of the counts must let them pass, and no frame of a unit may come to the end of its code
with a finally block pending. -/
theorem end_of_code_is_return (hhost : host.Matches U S host') {X Y : Config σ goal}
    (h : X.Matches U S Y) (hX : X.Sound (fun _ => True) fun _ => True)
    (hunobserved : ∀ n, (X.run host thread n).IsUnobserved host)
    (hfree : ∀ n, (X.run host thread n).EndsFreely U) :
    (∀ n x, (X.run host thread n).ending? = some x → ∃ k,
      (Y.run host' thread k).ending? = some (explicitEnding U x) ∧
        (X.run host thread n).store.Matches U S (Y.run host' thread k).store) ∧
    (∀ k y, (Y.run host' thread k).ending? = some y → ∃ n x,
      (X.run host thread n).ending? = some x ∧ y = explicitEnding U x ∧
        (X.run host thread n).store.Matches U S (Y.run host' thread k).store) ∧
    (∀ n, ∃ k, explicitCalls U (hostCalls host thread n X) <+: hostCalls host' thread k Y) ∧
    ∀ k, ∃ n, hostCalls host' thread k Y <+: explicitCalls U (hostCalls host thread n X) := by
  have hmeet := h.meet thread hhost hX hunobserved hfree
  refine ⟨fun n x hx => ?_, fun k y hy => ?_, fun n => ?_, fun k => ?_⟩
  -- A run that has ended stays where it is, so the next meeting is at its end.
  · obtain ⟨n', k, hn, -, hmatch, -⟩ := hmeet n
    obtain ⟨d, rfl⟩ := Nat.exists_eq_add_of_le hn
    rw [run_add, run_of_ending host thread hx] at hmatch
    exact ⟨k, by rw [hmatch.ending, hx]; rfl, hmatch.store⟩
  · obtain ⟨n, k', -, hk, hmatch, -⟩ := hmeet k
    obtain ⟨d, rfl⟩ := Nat.exists_eq_add_of_le hk
    rw [run_add, run_of_ending host' thread hy] at hmatch
    have hending := hmatch.ending
    rw [hy] at hending
    obtain ⟨x, hx, rfl⟩ := Option.map_eq_some_iff.mp hending.symm
    exact ⟨n, x, hx, rfl, hmatch.store⟩
  · obtain ⟨n', k, hn, -, -, hcalls⟩ := hmeet n
    refine ⟨k, ?_⟩
    rw [hcalls]
    exact (hostCalls_isInitial thread hn X).map _
  · obtain ⟨n, k', -, hk, -, hcalls⟩ := hmeet k
    refine ⟨n, ?_⟩
    rw [← hcalls]
    exact hostCalls_isInitial thread hk Y

/-! ## A generator that ends within a try statement -/

/-- A generator function that yields within a try statement, which is still active at the end of
its code. -/
def yielding : Executable where
  id := ⟨0⟩
  shared := ⟨⟨⟨0⟩, []⟩,
    { name := some "yielding"
      kind := .function
      isGenerator := true
      isStrict := false
      isExpression := true
      paramCount := 0
      names := #[]
      isConst := #[]
      code := #[.enterTry (some 3) none, .null, .yield]
      nested := [] }⟩
  security := none
  valid := by decide

/-- Make a generator and go on with it twice. -/
def resumeTwice (e : Executable) : Program Unit .step :=
  .act (.call (.executable e) ⟨⟨0⟩, ⟨0⟩, .undefined, []⟩) fun (o : Outcome) =>
    match o with
    | .ok (.generator g) =>
      .act (.step e g .next ⟨0⟩ ⟨0⟩ .undefined) fun _ =>
        .act (.step e g .next ⟨0⟩ ⟨0⟩ .undefined) fun (x : Except Abrupt GeneratorStep) =>
          .finish (κ := .step) x
    | _ => .panic

/-- The generator is made and goes on twice. -/
def resumedToEnd (e : Executable) : Config Unit .step := start oneContext (resumeTwice e)

theorem matches_plainHost : plainHost.Matches U (fun _ _ => True) plainHost where
  run _ _ := .finish rfl
  makeContext _ _ := .panic
  outermost _ f site := .act (.call f site) fun _ _ h => .finish h
  observe _ _ _ := .finish rfl
  hasFeature _ _ _ _ _ _ := rfl
  notify _ _ _ := .finish rfl
  resolve _ _ _ _ _ := ⟨rfl, trivial⟩

theorem matches_resumeTwice (e : Executable) :
    (resumeTwice e).Matches U (fun _ _ => True) (resumeTwice (e.explicit U)) := by
  refine .act (.call _ _) fun (o : Outcome) o' ho => ?_
  subst ho
  cases o with
  | error e => exact .panic
  | ok v =>
    cases v with
    | generator g =>
      exact .act (.step e g .next _ _ .undefined) fun _ _ _ =>
        .act (.step e g .next _ _ .undefined) fun _ _ h => .finish h
    | undefined | null | bool | number | string | object | executable | hostFunction =>
      exact .panic

theorem matches_oneContext : oneContext.Matches U (fun _ _ => True) oneContext :=
  have h : (Store.initial ()).Matches U (fun _ _ => True) (Store.initial ()) :=
    Store.matches_initial trivial
  { h with contexts := rfl }

theorem matches_resumedToEnd (e : Executable) :
    (resumedToEnd e).Matches U (fun _ _ => True) (resumedToEnd (e.explicit U)) :=
  ⟨matches_oneContext, .running (matches_resumeTwice e) .nil⟩

theorem sound_resumedToEnd (e : Executable) :
    (resumedToEnd e).Sound (fun _ => True) fun _ => True := by
  have hgoal : Kind.step ≠ .exit := nofun
  have hm : (Store.initial ()).Sound (fun _ => True) fun _ => True := Store.sound_initial trivial
  exact ⟨⟨hm.scopes, hm.generators, hm.continuations, hm.resumptions, hm.host⟩, hgoal,
    Program.over_true hgoal _, trivial⟩

theorem isUnobserved_plainHost (X : Config Unit goal) : X.IsUnobserved plainHost :=
  fun _ _ _ => .inr fun _ _ _ => rfl

/-- The generator yields, and comes to the end of its code with its try statement active. With an
explicit return it ends in the same way. -/
theorem end_of_code_is_return_resumed :
    (∃ f ∈ ((resumedToEnd yielding).run plainHost ⟨0⟩ 23).endedFrame? (.named "yielding"),
      f.handlers.length = 1) ∧
    ((resumedToEnd yielding).run plainHost ⟨0⟩ 31).ending? =
      some (.result (.ok ⟨.undefined, true⟩)) ∧
    (yielding.explicit (.named "yielding")).routine.code =
      #[.enterTry (some 3) none, .null, .yield, .undefined, .ret] ∧
    ∃ k, ((resumedToEnd (yielding.explicit (.named "yielding"))).run plainHost ⟨0⟩ k).ending? =
      some (.result (.ok ⟨.undefined, true⟩)) := by
  have hending : ((resumedToEnd yielding).run plainHost ⟨0⟩ 31).ending? =
      some (.result (.ok ⟨.undefined, true⟩)) := rfl
  -- The run has ended after 31 steps, so only those before need to be looked at.
  have hbefore : ∀ n ≤ 31,
      ((resumedToEnd yielding).run plainHost ⟨0⟩ n).EndsFreely (.named "yielding") := by
    decide +kernel
  have hfree := forall_run_of_ending (P := EndsFreely (.named "yielding")) plainHost ⟨0⟩
    (by rw [hending]; rfl) hbefore
  obtain ⟨hends, -⟩ := end_of_code_is_return ⟨0⟩ matches_plainHost
    (matches_resumedToEnd yielding) (sound_resumedToEnd yielding)
    (fun _ => isUnobserved_plainHost _) hfree
  obtain ⟨k, hk, -⟩ := hends 31 _ hending
  exact ⟨by decide +kernel, hending, rfl, k, hk⟩

/-! ## A finally block at the end of the code -/

/-- A script that jumps to the end of its code from a try statement with a finally block. -/
def cleaning : Executable where
  id := ⟨0⟩
  shared := ⟨⟨⟨0⟩, []⟩,
    { name := some "cleaning"
      kind := .script
      isGenerator := false
      isStrict := false
      isExpression := true
      paramCount := 0
      names := #[]
      isConst := #[]
      code := #[.enterTry none (some 2), .jump 5, .text "cleaned", .defineName "x", .endFinally]
      nested := [] }⟩
  security := none
  valid := by decide

/-- The script is executed in a scope. -/
def executed (e : Executable) : Config Unit .completion :=
  start { oneContext with scopes := ⟨#[{}]⟩ }
    (.act (.execute e ⟨0⟩ ⟨0⟩) fun (o : Outcome) => .finish (κ := .completion) o)

/-- An explicit return runs the finally block, which binds a name. The end of the code does not. -/
theorem finally_left_out :
    (cleaning.explicit (.named "cleaning")).routine.code = cleaning.routine.code ++ returnUndefined ∧
    ((executed cleaning).run plainHost ⟨0⟩ 40).ending? = some (.result (.ok .undefined)) ∧
    ((executed cleaning).run plainHost ⟨0⟩ 40).store.scopes.find? ⟨0⟩ "x" = none ∧
    ((executed (cleaning.explicit (.named "cleaning"))).run plainHost ⟨0⟩ 40).ending? =
      some (.result (.ok .undefined)) ∧
    ((executed (cleaning.explicit (.named "cleaning"))).run plainHost ⟨0⟩ 40).store.scopes.find?
      ⟨0⟩ "x" = some (.string (.flat "cleaned")) := by
  refine ⟨rfl, rfl, rfl, rfl, rfl⟩

end Config

end ScriptMachine
