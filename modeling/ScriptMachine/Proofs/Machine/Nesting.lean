import ScriptMachine.Machine.Step

/-!
# Runs on top of other runs

A step looks at the task on top and at nothing beneath it, so whatever runs above some stack
runs there as it would run alone. `Config.step_onto` is that fact for one step and
`Config.exists_run_onto` for a run; the other statements of this library about host calls,
nested activations and guards start from a run on an empty stack and put it back on top.
-/

namespace ScriptMachine

variable {σ : Type} {α β γ : Kind}

/-- Put a stack on top of another one. -/
def Stack.append : {α : Kind} → Stack σ α β → Stack σ β γ → Stack σ α γ
  | _, .nil, s => s
  | _, .cons t rest, s => .cons t (rest.append s)

@[simp] theorem Stack.nil_append (s : Stack σ α β) : Stack.nil.append s = s := rfl

@[simp] theorem Stack.cons_append {δ : Kind} (t : Task σ δ α) (rest : Stack σ α β)
    (s : Stack σ β γ) : (Stack.cons t rest).append s = .cons t (rest.append s) := rfl

theorem Stack.append_assoc {δ : Kind} (r : Stack σ α β) (s : Stack σ β γ) (u : Stack σ γ δ) :
    (r.append s).append u = r.append (s.append u) := by
  induction r with
  | nil => rfl
  | cons t rest ih => simp only [cons_append, ih]

/-- What runs at the moment, with a stack put beneath it. -/
def State.onto (s : Stack σ α β) : State σ α → State σ β
  | .running p r => .running p (r.append s)
  | .calling f site r => .calling f site (r.append s)
  | .counting a r => .counting a (r.append s)
  | .executing a r => .executing a (r.append s)
  | .returning x r => .returning x (r.append s)
  | .panicking r => .panicking (r.append s)
  | .crashed => .crashed

namespace Config

/-- A configuration with a stack put beneath it. -/
def onto (config : Config σ α) (s : Stack σ α β) : Config σ β :=
  ⟨config.store, config.state.onto s⟩

@[simp] theorem onto_mk (m : Store σ) (state : State σ α) (s : Stack σ α β) :
    onto ⟨m, state⟩ s = ⟨m, state.onto s⟩ := rfl

theorem onto_append {config : Config σ α} (r : Stack σ α β) (s : Stack σ β γ) :
    config.onto (r.append s) = (config.onto r).onto s := by
  obtain ⟨m, state⟩ := config
  cases state <;> simp only [onto_mk, State.onto, Stack.append_assoc]

variable (host : Host σ) (thread : Id .thread) (m : Store σ) {goal : Kind}

/-! ## The beginnings of activities -/

theorem follow_append (c : Id .context) (flow : Flow) (r : Stack σ .exit goal)
    (s : Stack σ goal γ) :
    follow m c flow (r.append s) = (follow m c flow r).onto s := by
  cases flow <;> rfl

theorem execute_append (a : Activation) (r : Stack σ .exit goal) (s : Stack σ goal γ) :
    execute m a (r.append s) = (execute m a r).onto s := by
  unfold execute
  split
  · exact follow_append _ _ _ _ _
  · rfl

theorem interpret_append (e : Executable) (site : CallSite) (r : Stack σ .completion goal)
    (s : Stack σ goal γ) :
    interpret m e site (r.append s) = (interpret m e site r).onto s := by
  unfold interpret
  dsimp only
  split <;> rfl

theorem beginOutermost_append (f : Callable) (site : CallSite) (isStrict : Bool)
    (r : Stack σ .completion goal) (s : Stack σ goal γ) :
    beginOutermost host m f site isStrict (r.append s) =
      (beginOutermost host m f site isStrict r).onto s := by
  unfold beginOutermost
  dsimp only
  split
  · rfl
  · split <;> rfl

theorem beginStep_append (g : Generator) (op : GeneratorOp) (c : Id .context) (v : Value)
    (r : Stack σ .step goal) (s : Stack σ goal γ) :
    beginStep m g op c v (r.append s) = (beginStep m g op c v r).onto s := by
  unfold beginStep
  dsimp only
  split
  · cases op <;> rfl
  · split
    · rfl
    · split
      · cases op with
        | next => rfl
        | throw =>
          dsimp only
          split <;> rfl
        | «return» =>
          dsimp only
          split <;> rfl
      · cases op <;> rfl

theorem beginResumption_append (via : Executable) (g : Generator) (op : GeneratorOp)
    (c : Id .context) (scope : Id .scope) (v : Value) (r : Stack σ .step goal)
    (s : Stack σ goal γ) :
    beginResumption host m via g op c scope v (r.append s) =
      (beginResumption host m via g op c scope v r).onto s := by
  unfold beginResumption
  split
  · rfl
  · split
    · exact beginStep_append _ _ _ _ _ _ _
    · dsimp only [Table.insert]
      rw [← Stack.cons_append]
      exact beginOutermost_append host _ _ _ _ _ _

theorem beginContinuation_append (k : Id .continuation) (v : Value) (c : Id .context)
    (r : Stack σ .completion goal) (s : Stack σ goal γ) :
    beginContinuation m k v c (r.append s) = (beginContinuation m k v c r).onto s := by
  unfold beginContinuation
  split <;> rfl

theorem beginCall_append (f : Callable) (site : CallSite) (r : Stack σ .completion goal)
    (s : Stack σ goal γ) :
    beginCall host m f site (r.append s) = (beginCall host m f site r).onto s := by
  cases f with
  | executable e =>
    simp only [beginCall]
    split
    · exact interpret_append _ _ _ _ _
    · exact beginOutermost_append host _ _ _ _ _ _
  | hostFunction h => rfl
  | resumption i g op => exact beginStep_append _ _ _ _ _ (.cons (.recordStep i) r) s
  | continuation k v => exact beginContinuation_append _ _ _ _ _ _

theorem beginBind_append (c : Id .context) (r : Stack σ .entered goal) (s : Stack σ goal γ) :
    beginBind thread m c (r.append s) = (beginBind thread m c r).onto s := by
  unfold beginBind
  split <;> rfl

theorem beginMake_append (f : Id .factory) (r : Stack σ .made goal) (s : Stack σ goal γ) :
    beginMake host m f (r.append s) = (beginMake host m f r).onto s := by
  unfold beginMake
  split <;> rfl

theorem beginEnter_append (f : Id .factory) (requested : Option (Id .context))
    (r : Stack σ .entered goal) (s : Stack σ goal γ) :
    beginEnter host thread m f requested (r.append s) =
      (beginEnter host thread m f requested r).onto s := by
  unfold beginEnter
  split
  · rfl
  · split
    · exact beginBind_append _ _ _ _ _
    · exact beginMake_append host _ _ (.cons .bindMade r) s

theorem beginExit_append (r : Stack σ .left goal) (s : Stack σ goal γ) :
    beginExit thread m (r.append s) = (beginExit thread m r).onto s := by
  unfold beginExit
  split
  · rfl
  · split <;> rfl

theorem beginCapturing_append (f : Callable) (c : Id .context) (scope : Id .scope)
    (args : List Value) (isStrict : Bool) (r : Stack σ .completion goal) (s : Stack σ goal γ) :
    beginCapturing host m f c scope args isStrict (r.append s) =
      (beginCapturing host m f c scope args isStrict r).onto s := by
  unfold beginCapturing
  dsimp only
  rw [← Stack.cons_append]
  exact beginOutermost_append host _ _ _ _ _ _

theorem beginCapturingCall_append (e : Executable) (c : Id .context) (scope : Id .scope)
    (args : List Value) (r : Stack σ .completion goal) (s : Stack σ goal γ) :
    beginAction.beginCapturingCall host m e c scope args (r.append s) =
      (beginAction.beginCapturingCall host m e c scope args r).onto s := by
  unfold beginAction.beginCapturingCall
  split
  · rfl
  · exact beginCapturing_append host _ _ _ _ _ _ _ _

theorem beginAction_append (a : Action) (r : Stack σ a.kind goal) (s : Stack σ goal γ) :
    beginAction host thread m a (r.append s) = (beginAction host thread m a r).onto s := by
  cases a with
  | call f site => rfl
  | callOutermost f site isStrict => exact beginOutermost_append host _ _ _ _ _ _
  | execute e c scope =>
    simp only [beginAction]
    split <;> rfl
  | executeCapturing e c scope =>
    simp only [beginAction]
    split
    · rfl
    · exact beginCapturingCall_append host _ _ _ _ _ _ _
  | callCapturing e c scope args => exact beginCapturingCall_append host _ _ _ _ _ _ _
  | resume k c scope v =>
    simp only [beginAction]
    split
    · rfl
    · split
      · rfl
      · exact beginCapturing_append host _ _ _ _ _ _ _ _
  | step via g op c scope v => exact beginResumption_append host _ _ _ _ _ _ _ _ _
  | enter f requested => exact beginEnter_append host _ _ _ _ _ _
  | exit => exact beginExit_append _ _ _ _
  | makeContext f => exact beginMake_append host _ _ _ _

/-! ## Results, panics and steps -/

theorem endBody_append (g : Generator) (e : Except Abrupt Exit) (r : Stack σ .step goal)
    (s : Stack σ goal γ) : endBody m g e (r.append s) = (endBody m g e r).onto s := by
  unfold endBody
  dsimp only
  split <;> rfl

theorem take_append (t : Task σ α β) (x : α.Result) (r : Stack σ β goal) (s : Stack σ goal γ) :
    take host thread m t x (r.append s) = (take host thread m t x r).onto s := by
  cases t with
  | flattenResult => cases x <;> rfl
  | called a => cases x <;> exact follow_append _ _ _ _ _
  | observed a =>
    cases x with
    | ok u => rfl
    | error reason => exact follow_append m a.context (.leave (.error (.aborted reason))) r s
  | callEnd =>
    cases x with
    | ok exit => cases exit <;> rfl
    | error e => rfl
  | bodyEnd g => exact endBody_append _ _ _ _ _
  | recordStep i => cases x <;> rfl
  | reportStep i => cases x <;> rfl
  | bindMade =>
    simp only [take]
    split
    · rfl
    · exact beginBind_append _ _ _ _ _
  | notifying event c rest => cases rest <;> rfl
  | bracketBody body => cases x <;> rfl
  | release => exact beginExit_append _ _ (.cons .released r) s
  | program | clearTopCall | restoreCaptures | entered | left | released | repanic | guarded => rfl

theorem passPanic_append (t : Task σ α β) (r : Stack σ β goal) (s : Stack σ goal γ) :
    passPanic thread m t (r.append s) = (passPanic thread m t r).onto s := by
  cases t with
  | release => exact beginExit_append _ _ (.cons .repanic r) s
  | _ => rfl

theorem runProgram_append {κ : Kind} (p : Program σ κ) (r : Stack σ κ goal)
    (s : Stack σ goal γ) :
    runProgram host thread m p (r.append s) = (runProgram host thread m p r).onto s := by
  cases p with
  | act a k => exact beginAction_append host _ _ _ (.cons (.program k) r) s
  | bracket f body k =>
    simp only [runProgram, ← Stack.cons_append]
    exact beginEnter_append host _ _ _ _ _ _
  | finish | panic | ask | guard => rfl

theorem count_append (a : Activation) (r : Stack σ .exit goal) (s : Stack σ goal γ) :
    count host m a (r.append s) = (count host m a r).onto s := by
  unfold count
  dsimp only
  split <;> rfl

variable {m}

/-- A step that something takes on a stack of its own it also takes on top of another stack. -/
theorem step_onto {config : Config σ α} (s : Stack σ α β) (h : config.ending? = none) :
    (config.onto s).step host thread = (config.step host thread).onto s := by
  obtain ⟨m, state⟩ := config
  cases state with
  | running p r => exact runProgram_append host _ _ _ _ _
  | calling f site r => exact beginCall_append host _ _ _ _ _
  | counting a r => exact count_append host _ _ _ _
  | executing a r => exact execute_append _ _ _ _
  | returning x r =>
    cases r with
    | nil => simp [ending?, State.ending?] at h
    | cons t r => exact take_append host _ _ _ _ _ _
  | panicking r =>
    cases r with
    | nil => simp [ending?, State.ending?] at h
    | cons t r => exact passPanic_append _ _ _ _ _
  | crashed => rfl

/-- A configuration that has come to its end stays as it is. -/
theorem step_of_ending {config : Config σ α} {x : Ending α} (h : config.ending? = some x) :
    config.step host thread = config := by
  obtain ⟨m, state⟩ := config
  cases state with
  | returning x r => cases r <;> simp_all [ending?, State.ending?, step]
  | panicking r => cases r <;> simp_all [ending?, State.ending?, step]
  | crashed => rfl
  | running | calling | counting | executing => simp [ending?, State.ending?] at h

theorem run_of_ending {config : Config σ α} {x : Ending α} (h : config.ending? = some x)
    (n : Nat) : config.run host thread n = config := by
  induction n with
  | zero => rfl
  | succ n ih => rw [run, step_of_ending host thread h, ih]

/-- A result on an empty stack is the end. -/
theorem run_give_nil (m : Store σ) (x : α.Result) (n : Nat) :
    (give m α x .nil : Config σ α).run host thread n = give m α x .nil :=
  run_of_ending host thread (x := .result x) rfl n

theorem run_add (config : Config σ α) (n k : Nat) :
    config.run host thread (n + k) = (config.run host thread n).run host thread k := by
  induction n generalizing config with
  | zero => simp [run]
  | succ n ih => rw [Nat.succ_add, run, run, ih]

theorem run_one (config : Config σ α) : config.run host thread 1 = config.step host thread := rfl

theorem run_succ (config : Config σ α) (n : Nat) :
    config.run host thread (n + 1) = (config.run host thread n).step host thread := by
  rw [run_add, run_one]

/-- It is enough to look at a run until its end. -/
theorem forall_run_of_ending {config : Config σ α} {P : Config σ α → Prop} {k : Nat}
    (hend : (config.run host thread k).ending?.isSome)
    (hbefore : ∀ n ≤ k, P (config.run host thread n)) (n : Nat) :
    P (config.run host thread n) := by
  rcases Nat.lt_or_ge n k with hlt | hge
  · exact hbefore n (Nat.le_of_lt hlt)
  · obtain ⟨d, rfl⟩ := Nat.exists_eq_add_of_le hge
    obtain ⟨x, hx⟩ := Option.isSome_iff_exists.mp hend
    rw [run_add, run_of_ending host thread hx]
    exact hbefore k (Nat.le_refl k)

/-- As long as a run on a stack of its own has not come to its end, it goes on top of another
stack as it goes alone. -/
theorem run_onto {config : Config σ α} (s : Stack σ α β) {n : Nat}
    (h : ∀ j < n, (config.run host thread j).ending? = none) :
    (config.onto s).run host thread n = (config.run host thread n).onto s := by
  induction n generalizing config with
  | zero => rfl
  | succ n ih =>
    have hnext : ∀ j < n, ((config.step host thread).run host thread j).ending? = none :=
      fun j hj => h (j + 1) (Nat.succ_lt_succ hj)
    have hnow : config.ending? = none := h 0 (Nat.succ_pos n)
    rw [run, step_onto host thread s hnow, ih hnext, run]

/-- A run comes to its end at some first moment. -/
theorem exists_first_ending {config : Config σ α} {n : Nat} {x : Ending α}
    (h : (config.run host thread n).ending? = some x) :
    ∃ k ≤ n, config.run host thread k = config.run host thread n ∧
      ∀ j < k, (config.run host thread j).ending? = none := by
  induction n generalizing config with
  | zero => exact ⟨0, Nat.le_refl 0, rfl, fun j hj => absurd hj (Nat.not_lt_zero j)⟩
  | succ n ih =>
    cases hnow : config.ending? with
    | some y =>
      refine ⟨0, Nat.zero_le _, ?_, fun j hj => absurd hj (Nat.not_lt_zero j)⟩
      exact (run_of_ending host thread hnow (n + 1)).symm
    | none =>
      obtain ⟨k, hk, hrun, hopen⟩ := ih h
      refine ⟨k + 1, Nat.succ_le_succ hk, hrun, ?_⟩
      intro j hj
      cases j with
      | zero => exact hnow
      | succ j => exact hopen j (Nat.lt_of_succ_lt_succ hj)

/-- What a run on a stack of its own comes to, it also comes to on top of another stack. -/
theorem exists_run_onto (config : Config σ α) (s : Stack σ α β) (n : Nat) :
    ∃ k ≤ n, (config.onto s).run host thread k = (config.run host thread n).onto s := by
  induction n generalizing config with
  | zero => exact ⟨0, Nat.le_refl 0, rfl⟩
  | succ n ih =>
    cases h : config.ending? with
    | some x =>
      refine ⟨0, Nat.zero_le _, ?_⟩
      rw [run_of_ending host thread h, run]
    | none =>
      obtain ⟨k, hk, hrun⟩ := ih (config.step host thread)
      refine ⟨k + 1, Nat.succ_le_succ hk, ?_⟩
      rw [run, step_onto host thread s h, hrun, run]

/-! ## Ends of runs -/

variable {host thread}

/-- What a run comes to before it ends, ends as the run does. -/
theorem run_of_run {X Y : Config σ α} {n k : Nat} {x : Ending α}
    (hk : X.run host thread k = Y) (hend : (X.run host thread n).ending? = some x) :
    Y.run host thread n = X.run host thread n := by
  have hboth : (X.run host thread k).run host thread n =
      (X.run host thread n).run host thread k := by
    rw [← run_add, ← run_add, Nat.add_comm]
  rw [← hk, hboth, run_of_ending host thread hend]

/-- A run ends in one way. -/
theorem run_unique {X : Config σ α} {n k : Nat} {x y : Ending α}
    (hn : (X.run host thread n).ending? = some x) (hk : (X.run host thread k).ending? = some y) :
    X.run host thread n = X.run host thread k := by
  rw [← run_of_run rfl hn, run_of_ending host thread hk]

theorem ending_unique {X : Config σ α} {n k : Nat} {x y : Ending α}
    (hn : (X.run host thread n).ending? = some x) (hk : (X.run host thread k).ending? = some y) :
    x = y := by
  rw [run_unique hn hk, hk] at hn
  exact (Option.some.inj hn).symm

/-- What has not come to its end alone has not come to it on top of another stack. -/
theorem ending_onto {config : Config σ α} (s : Stack σ α β) (h : config.ending? = none) :
    (config.onto s).ending? = none := by
  obtain ⟨m, state⟩ := config
  cases state with
  | returning x r =>
    cases r with
    | nil => cases h
    | cons t r => rfl
  | panicking r =>
    cases r with
    | nil => cases h
    | cons t r => rfl
  | running | calling | counting | executing => rfl
  | crashed => cases h

/-- A run that ends on top of another stack has come to its end alone on the way. -/
theorem exists_ending_of_onto {config : Config σ α} {s : Stack σ α β} {n : Nat} {y : Ending β}
    (h : ((config.onto s).run host thread n).ending? = some y) :
    ∃ (k : Nat) (x : Ending α), (config.run host thread k).ending? = some x ∧
      (config.onto s).run host thread k = (config.run host thread k).onto s := by
  by_cases hended : ∃ j, j ≤ n ∧ (config.run host thread j).ending? ≠ none
  · obtain ⟨j, -, hj⟩ := hended
    obtain ⟨x, hx⟩ := Option.ne_none_iff_exists'.mp hj
    obtain ⟨k, -, hk, hfirst⟩ := exists_first_ending host thread hx
    refine ⟨k, x, ?_, run_onto host thread s hfirst⟩
    rw [hk, hx]
  · -- it would still be under way on top of the stack
    have hopen (j : Nat) (hj : j ≤ n) : (config.run host thread j).ending? = none :=
      Classical.byContradiction fun h => hended ⟨j, hj, h⟩
    rw [run_onto host thread s fun j hj => hopen j (Nat.le_of_lt hj),
      ending_onto s (hopen n (Nat.le_refl n))] at h
    cases h

/-- The end of a run, as a configuration. -/
theorem ending_cases {X : Config σ α} {x : Ending α} (h : X.ending? = some x) :
    (∃ m r, X = give m α r .nil) ∨ (∃ m, X = ⟨m, .panicking .nil⟩) ∨ ∃ m, X = ⟨m, .crashed⟩ := by
  obtain ⟨m, state⟩ := X
  cases state with
  | returning r s =>
    cases s with
    | nil => exact .inl ⟨m, r, rfl⟩
    | cons t s => cases h
  | panicking s =>
    cases s with
    | nil => exact .inr (.inl ⟨m, rfl⟩)
    | cons t s => cases h
  | crashed => exact .inr (.inr ⟨m, rfl⟩)
  | running | calling | counting | executing => cases h

/-- What stands on a task has not come to a result. -/
theorem onto_cons_ne_give (Y : Config σ α) (t : Task σ α β) (s : Stack σ β γ)
    (m : Store σ) (x : γ.Result) : Y.onto (.cons t s) ≠ give m γ x .nil := by
  intro h
  have hend : (Y.onto (.cons t s)).ending? = some (.result x) := by
    rw [h]
    rfl
  cases hY : Y.ending? with
  | none =>
    rw [ending_onto _ hY] at hend
    cases hend
  | some y => rcases ending_cases hY with ⟨m₁, r, rfl⟩ | ⟨m₁, rfl⟩ | ⟨m₁, rfl⟩ <;> cases hend

/-- A run comes to one result. -/
theorem eq_of_run_give {X : Config σ α} {m m' : Store σ} {k n : Nat} {x y : α.Result}
    (hk : X.run host thread k = give m α x .nil)
    (hn : X.run host thread n = give m' α y .nil) : m = m' ∧ x = y := by
  have hends : (X.run host thread k).ending? = some (.result x) := by rw [hk]; rfl
  have hends' : (X.run host thread n).ending? = some (.result y) := by rw [hn]; rfl
  have heq := run_unique hends hends'
  rw [hk, hn] at heq
  cases heq
  exact ⟨rfl, rfl⟩

/-- What a run comes to, the next configuration comes to as well. -/
theorem run_step_of_give {X : Config σ α} {m : Store σ} {n : Nat} {x : α.Result}
    (h : X.run host thread n = give m α x .nil) :
    (X.step host thread).run host thread n = give m α x .nil := by
  have hend : (X.run host thread n).ending? = some (.result x) := by
    rw [h]
    rfl
  rw [run_of_run (run_one host thread X) hend, h]

end Config

/-! ## Panics -/

/-- A panic goes through the task. -/
def Task.IsOpen : Task σ α β → Prop
  | .release | .repanic | .guarded => False
  | _ => True

/-- A panic goes through the whole stack. -/
def Stack.IsOpen : {α : Kind} → Stack σ α β → Prop
  | _, .nil => True
  | _, .cons t rest => t.IsOpen ∧ rest.IsOpen

namespace Config

variable (host : Host σ) (thread : Id .thread)

theorem exists_run_panicking {s : Stack σ α β} (hs : s.IsOpen) (m : Store σ) :
    ∃ (k : Nat) (m' : Store σ),
      (⟨m, .panicking s⟩ : Config σ β).run host thread k =
        (⟨m', .panicking (.nil : Stack σ β β)⟩ : Config σ β) := by
  induction s generalizing m with
  | nil => exact ⟨0, m, rfl⟩
  | @cons α γ β t rest ih =>
    have hstep : ∃ m' : Store σ, (⟨m, .panicking (.cons t rest)⟩ : Config σ β).step host thread =
        (⟨m', .panicking rest⟩ : Config σ β) := by
      cases t with
      | release | repanic | guarded => exact absurd hs.1 id
      | _ => exact ⟨_, rfl⟩
    obtain ⟨m₁, hstep⟩ := hstep
    obtain ⟨k, m', hrun⟩ := ih hs.2 m₁
    exact ⟨k + 1, m', by rw [run, hstep, hrun]⟩

variable {host thread}

/-- A run that ends with a result on top of a stack that no panic is stopped by has come to a
result alone on the way, and went until then as it goes alone. -/
theorem exists_result_of_onto {X : Config σ α} {s : Stack σ α β} (hs : s.IsOpen) {n : Nat}
    {m' : Store σ} {y : β.Result} (h : (X.onto s).run host thread n = give m' β y .nil) :
    ∃ (k : Nat) (m₁ : Store σ) (x : α.Result), k ≤ n ∧ X.run host thread k = give m₁ α x .nil ∧
      (∀ i ≤ k, (X.onto s).run host thread i = (X.run host thread i).onto s) ∧
      (give m₁ α x s).run host thread n = give m' β y .nil := by
  have hend : ((X.onto s).run host thread n).ending? = some (.result y) := by
    rw [h]
    rfl
  obtain ⟨k', x, hx, -⟩ := exists_ending_of_onto hend
  obtain ⟨k, -, hk, hfirst⟩ := exists_first_ending host thread hx
  rw [← hk] at hx
  have honto : ∀ i ≤ k, (X.onto s).run host thread i = (X.run host thread i).onto s :=
    fun i hi => run_onto host thread s fun j hj => hfirst j (Nat.lt_of_lt_of_le hj hi)
  have hle : k ≤ n := by
    -- before, the run on top of the stack is under way
    refine Nat.le_of_not_lt fun hlt => ?_
    rw [honto n (Nat.le_of_lt hlt), ending_onto s (hfirst n hlt)] at hend
    cases hend
  have hrest := run_of_run (honto k (Nat.le_refl k)) hend
  rw [h] at hrest
  rcases ending_cases hx with ⟨m₁, r, hr⟩ | ⟨m₁, hr⟩ | ⟨m₁, hr⟩
  · rw [hr] at hrest
    exact ⟨k, m₁, r, hle, hr, honto, hrest⟩
  · -- the panic would go through the stack
    rw [hr] at hrest
    obtain ⟨j, m₂, hj⟩ := exists_run_panicking host thread hs m₁
    have hpanicked : ((⟨m₁, .panicking s⟩ : Config σ β).run host thread j).ending? =
        some .panicked := by
      rw [hj]
      rfl
    have hresult : ((⟨m₁, .panicking s⟩ : Config σ β).run host thread n).ending? =
        some (.result y) := by
      rw [show (⟨m₁, .panicking s⟩ : Config σ β).run host thread n = _ from hrest]
      rfl
    rw [run_unique hresult hpanicked, hpanicked] at hresult
    cases hresult
  · rw [hr] at hrest
    have hcrashed : (⟨m₁, .crashed⟩ : Config σ β).run host thread n = ⟨m₁, .crashed⟩ :=
      run_of_ending host thread (x := .crashed) rfl n
    rw [show (⟨m₁, .crashed⟩ : Config σ β).run host thread n = _ from hrest] at hcrashed
    cases hcrashed

end Config

end ScriptMachine
