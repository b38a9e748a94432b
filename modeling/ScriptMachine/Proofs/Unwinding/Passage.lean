import ScriptMachine.Proofs.Machine.Generators

/-!
# Errors on their way down a stack

A result carries an error. The tasks of the library hand it on at once, each in a single step
(`Config.step_carries`); host code forwards it in a run of its own. `Stack.Passes` is a stack
made of the two, and `Config.exists_passage` says that the error comes through: task after task
is met just as it was left, takes the error and is gone.
-/

namespace ScriptMachine

variable {σ : Type} {α β γ goal : Kind}

/-! ## What is carried -/

/-- What an error may be once it has passed an activation. A continuation that cannot be
captured there becomes a fault; every other error stays what it is. -/
def Abrupt.Becomes (e e' : Abrupt) : Prop :=
  e' = e ∨ (∃ p, e = .suspended p) ∧
    (e' = .illegalState .captureInGenerator ∨ e' = .illegalState .captureAcrossHostFrame)

theorem Abrupt.Becomes.refl (e : Abrupt) : e.Becomes e := .inl rfl

theorem Abrupt.Becomes.trans {e e' e'' : Abrupt} (h : e.Becomes e') (h' : e'.Becomes e'') :
    e.Becomes e'' := by
  rcases h with rfl | ⟨hp, hfault⟩
  · exact h'
  · rcases h' with rfl | ⟨⟨p, rfl⟩, -⟩
    · exact .inr ⟨hp, hfault⟩
    · rcases hfault with h | h <;> cases h

theorem Abrupt.Becomes.uncatchable {e e' : Abrupt} (h : e.Becomes e')
    (he : e.isCatchable = false) : e'.isCatchable = false := by
  rcases h with rfl | ⟨-, rfl | rfl⟩
  · exact he
  · rfl
  · rfl

/-- A result carries an error. The verdict of an observer has room for a reason alone. -/
def Kind.Carries (e : Abrupt) : (κ : Kind) → κ.Result → Prop
  | .completion, x | .exit, x | .step, x => x = .error e
  | .verdict, x => ∃ reason, e = .aborted reason ∧ x = .error reason
  | .entered, _ | .left, _ | .made, _ | .guarded, _ | .done, _ => False

/-! ## Activations -/

namespace Activation

variable (a : Activation) (m : Store σ)

/-- An activation leaves with an error that cannot be caught. Unless it is a continuation, the
store stays as it is. -/
theorem exists_fail {e : Abrupt} (he : e.isCatchable = false) :
    ∃ e', e.Becomes e' ∧ (a.fail e m).1 = .leave (.error e') ∧
      ((∀ p, e ≠ .suspended p) → (a.fail e m).2 = m) := by
  cases e with
  | thrown v => cases he
  | suspended p =>
    simp only [fail, capture]
    split
    · exact ⟨_, .inr ⟨⟨p, rfl⟩, .inl rfl⟩, rfl, fun h => absurd rfl (h p)⟩
    · split
      · exact ⟨_, .inr ⟨⟨p, rfl⟩, .inr rfl⟩, rfl, fun h => absurd rfl (h p)⟩
      · exact ⟨_, .refl _, rfl, fun h => absurd rfl (h p)⟩
  | aborted reason => exact ⟨_, .refl _, rfl, fun _ => rfl⟩
  | fault f => exact ⟨_, .refl _, rfl, fun _ => rfl⟩

/-- The instruction that an activation is about to carry out fails. -/
inductive Raises (m : Store σ) : Activation → Abrupt → Prop
  | noFrame {a : Activation} (h : a.frames = []) : Raises m a (.illegalState .noActiveFrame)
  /-- There is no room for the frame of a callee. -/
  | overflow {a : Activation} {f g : Frame} {callers : List Frame} {count : UInt16}
      {callee : Executable} (hframes : a.frames = f :: callers)
      (hfetch : f.fetch? = some (.call count, g))
      (hcallee : (g.popMany count.toNat).2.pop.2.pop.1 = .executable callee)
      (hplain : callee.routine.isGenerator = false) (hfull : a.limit ≤ a.frames.length) :
      Raises m a (.fault (.stackOverflow a.limit))
  /-- An instruction that touches no frame but its own fails. -/
  | own {a : Activation} {f g g' : Frame} {callers : List Frame} {i : Instruction} {e : Abrupt}
      {m' : Store σ} (hframes : a.frames = f :: callers) (hfetch : f.fetch? = some (i, g))
      (hown : i.isOwn) (hperform : g.perform i m = (.error e, g', m')) : Raises m a e

/-- An activation whose instruction fails with an error that cannot be caught is left. -/
theorem Raises.execute {a : Activation} {e : Abrupt} (h : a.Raises m e)
    (he : e.isCatchable = false) : (a.execute m).1 = .flow (.leave (.error e)) := by
  cases h with
  | noFrame hframes => simp only [Activation.execute, hframes]
  | overflow hframes hfetch hcallee hplain hfull =>
    rw [hframes, List.length_cons] at hfull
    simp only [Activation.execute, hframes, hfetch, perform, call, hcallee, hplain,
      List.length_cons, if_pos hfull]
    rfl
  | own hframes hfetch hown hperform =>
    simp only [Activation.execute, hframes, hfetch]
    rw [perform_of_isOwn a _ hown, hperform]
    cases e with
    | thrown v => cases he
    | suspended p => exact absurd rfl (Frame.perform_ne_suspended hperform p)
    | aborted reason => rfl
    | fault f => rfl

end Activation

/-! ## Tasks of the library and tasks of the host -/

/-- The task belongs to the library and deals with the end of a call. -/
def Task.IsOwn : Task σ α β → Prop
  | .clearTopCall _ | .restoreCaptures _ _ | .flattenResult | .called _ | .observed _ | .callEnd
  | .bodyEnd _ | .recordStep _ | .reportStep _ => True
  | _ => False

/-- Every task is host code, or binds a context to the thread for it. -/
def Stack.IsHost : {α : Kind} → Stack σ α goal → Prop
  | _, .nil => True
  | _, .cons t rest => ¬ t.IsOwn ∧ rest.IsHost

/-- Host code returns an error that it receives unchanged, whatever else it does before. -/
def Stack.Forwards (host : Host σ) (thread : Id .thread) (e : Abrupt) (r : Stack σ α β) : Prop :=
  ∀ (m : Store σ) (x : α.Result), α.Carries e x → ∃ (n : Nat) (m' : Store σ) (y : β.Result),
    β.Carries e y ∧ (Config.give m α x r).run host thread n = Config.give m' β y .nil

/-- Host code on a stack returns the errors of a set unchanged. -/
inductive Stack.Passes (host : Host σ) (thread : Id .thread) (E : Abrupt → Prop) :
    {α β : Kind} → Stack σ α β → Prop
  | nil {κ : Kind} : Passes host thread E (.nil : Stack σ κ κ)
  | own {α β γ : Kind} {t : Task σ α β} {s : Stack σ β γ} (ht : t.IsOwn)
      (hs : Passes host thread E s) : Passes host thread E (.cons t s)
  | host {α β γ : Kind} {r : Stack σ α β} {s : Stack σ β γ} (hr : r.IsHost)
      (hforwards : ∀ e, E e → r.Forwards host thread e) (hs : Passes host thread E s) :
      Passes host thread E (r.append s)

/-- A task of the library that stands on a stack of which the upper part is host code stands
beneath that part. -/
theorem Stack.IsHost.split {r : Stack σ α β} (hr : r.IsHost) {s : Stack σ β goal}
    {δ ε : Kind} {upper : Stack σ α δ} {t : Task σ δ ε} {rest : Stack σ ε goal} (ht : t.IsOwn)
    (h : r.append s = upper.append (.cons t rest)) :
    ∃ lower : Stack σ β δ, upper = r.append lower ∧ s = lower.append (.cons t rest) := by
  induction r with
  | nil => exact ⟨upper, rfl, h⟩
  | cons t' r' ih =>
    cases upper with
    | nil =>
      cases h
      exact absurd ht hr.1
    | cons t'' upper' =>
      rw [Stack.cons_append, Stack.cons_append, Stack.cons.injEq] at h
      obtain ⟨rfl, htask, hrest⟩ := h
      obtain rfl := eq_of_heq htask
      obtain ⟨lower, rfl, hs⟩ := ih hr.2 (eq_of_heq hrest)
      exact ⟨lower, rfl, hs⟩

/-! ## The passage -/

namespace Config

variable (host : Host σ) (thread : Id .thread)

/-- A task of the library hands an error on in a single step. -/
theorem step_carries {t : Task σ α β} (ht : t.IsOwn) {e : Abrupt} (he : e.isCatchable = false)
    {x : α.Result} (hx : α.Carries e x) (m : Store σ) (s : Stack σ β goal) :
    ∃ (m' : Store σ) (e' : Abrupt) (y : β.Result), e.Becomes e' ∧ β.Carries e' y ∧
      (give m α x (.cons t s)).step host thread = give m' β y s := by
  cases t with
  | called a =>
    obtain rfl : x = .error e := hx
    obtain ⟨e', hbecomes, hflow, -⟩ := a.exists_fail m he
    refine ⟨changeDepth (a.fail e m).2 a.context (· - 1), e', .error e', hbecomes, rfl, ?_⟩
    show follow (a.fail e m).2 a.context (a.fail e m).1 s = _
    rw [hflow]
    rfl
  | observed a =>
    obtain ⟨reason, rfl, rfl⟩ := hx
    exact ⟨_, _, _, .refl _, rfl, rfl⟩
  | clearTopCall | restoreCaptures | flattenResult | callEnd | bodyEnd | recordStep | reportStep =>
    obtain rfl : x = .error e := hx
    exact ⟨_, e, _, .refl e, rfl, rfl⟩
  | program | bindMade | notifying | entered | left | bracketBody | release | released | repanic
  | guarded => exact absurd ht id

/-- An error of a set comes to a task of a stack and is handed on at once: until then the task
and all that is beneath it are as they were, and one step later the task is gone. -/
def Hands (E : Abrupt → Prop) (X : Config σ goal) (n : Nat)
    {δ ε : Kind} (t : Task σ δ ε) (rest : Stack σ ε goal) : Prop :=
  ∃ i < n, (∀ j ≤ i, ∃ Y : Config σ δ, X.run host thread j = Y.onto (.cons t rest)) ∧
    (∃ (m : Store σ) (x : δ.Result) (e : Abrupt), E e ∧ δ.Carries e x ∧
      X.run host thread i = give m δ x (.cons t rest)) ∧
    ∃ (m' : Store σ) (y : ε.Result) (e' : Abrupt), E e' ∧ ε.Carries e' y ∧
      X.run host thread (i + 1) = give m' ε y rest

variable {host thread}

/-- An error that is handed on later is handed on, if the task is not touched before. -/
theorem Hands.of_run {E : Abrupt → Prop} {X : Config σ goal} {k n : Nat} {δ ε : Kind}
    {t : Task σ δ ε} {rest : Stack σ ε goal}
    (hbefore : ∀ j < k, ∃ Y : Config σ δ, X.run host thread j = Y.onto (.cons t rest))
    (h : (X.run host thread k).Hands host thread E n t rest) :
    X.Hands host thread E (k + n) t rest := by
  obtain ⟨i, hi, hrests, htakes, hgives⟩ := h
  refine ⟨k + i, by omega, ?_, ?_, ?_⟩
  · intro j hj
    rcases Nat.lt_or_ge j k with hjk | hkj
    · exact hbefore j hjk
    · obtain ⟨d, rfl⟩ := Nat.exists_eq_add_of_le hkj
      rw [run_add]
      exact hrests d (by omega)
  · rw [run_add]
    exact htakes
  · rw [Nat.add_assoc, run_add]
    exact hgives

variable (host thread)

/-- An error that cannot be caught comes through a stack on which host code returns the errors
it receives, and every task of the library hands it on at once. -/
theorem exists_passage {E : Abrupt → Prop} (huncatchable : ∀ e, E e → e.isCatchable = false)
    (hclosed : ∀ e e', E e → e.Becomes e' → E e') {s : Stack σ α goal}
    (hs : s.Passes host thread E) {m : Store σ} {x : α.Result} {e : Abrupt} (he : E e)
    (hx : α.Carries e x) :
    ∃ (n : Nat) (m' : Store σ) (y : goal.Result) (e' : Abrupt), E e' ∧ goal.Carries e' y ∧
      (give m α x s).run host thread n = give m' goal y .nil ∧
      ∀ {δ ε : Kind} (upper : Stack σ α δ) (t : Task σ δ ε) (rest : Stack σ ε goal), t.IsOwn →
        s = upper.append (.cons t rest) → (give m α x s).Hands host thread E n t rest := by
  induction hs generalizing m e with
  | nil =>
    refine ⟨0, m, x, e, he, hx, rfl, ?_⟩
    intro δ ε upper t rest _ hsplit
    cases upper <;> cases hsplit
  | @own α β γ t s ht hs ih =>
    obtain ⟨m₁, e₁, x₁, hbecomes, hx₁, hstep⟩ := step_carries host thread ht
      (huncatchable e he) hx m s
    have he₁ := hclosed e e₁ he hbecomes
    obtain ⟨n, m', y, e', he', hy, hrun, hhands⟩ := ih (m := m₁) he₁ hx₁
    refine ⟨1 + n, m', y, e', he', hy, ?_, ?_⟩
    · rw [run_add, run_one, hstep, hrun]
    intro δ ε upper t' rest ht' hsplit
    cases upper with
    | nil =>
      cases hsplit
      refine ⟨0, by omega, ?_, ⟨m, x, e, he, hx, rfl⟩, ⟨m₁, x₁, e₁, he₁, hx₁, hstep⟩⟩
      intro j hj
      obtain rfl : j = 0 := Nat.le_zero.mp hj
      exact ⟨give m α x .nil, rfl⟩
    | cons t₀ upper =>
      cases hsplit
      refine .of_run ?_ ?_
      · intro j hj
        obtain rfl : j = 0 := by omega
        exact ⟨give m α x (.cons t upper), rfl⟩
      · rw [run_one, hstep]
        exact hhands upper t' rest ht' rfl
  | @host α β γ r s hr hforwards hs ih =>
    obtain ⟨k, m₁, x₁, hx₁, hrun₁⟩ := hforwards e he m x hx
    have hending : ((give m α x r).run host thread k).ending? = some (.result x₁) := by
      rw [hrun₁]
      rfl
    obtain ⟨k', -, heq, hopen⟩ := exists_first_ending host thread hending
    rw [hrun₁] at heq
    have honto : ∀ j ≤ k', (give m α x (r.append s)).run host thread j =
        ((give m α x r).run host thread j).onto s :=
      fun j hj => run_onto host thread s fun i hi => hopen i (Nat.lt_of_lt_of_le hi hj)
    obtain ⟨n, m', y, e', he', hy, hrun, hhands⟩ := ih (m := m₁) he hx₁
    have hfirst : (give m α x (r.append s)).run host thread k' = give m₁ β x₁ s := by
      rw [honto k' (Nat.le_refl k'), heq]
      rfl
    refine ⟨k' + n, m', y, e', he', hy, ?_, ?_⟩
    · rw [run_add, hfirst, hrun]
    intro δ ε upper t rest ht hsplit
    obtain ⟨lower, rfl, rfl⟩ := hr.split ht hsplit
    refine .of_run ?_ ?_
    · intro j hj
      rw [honto j (Nat.le_of_lt hj)]
      exact ⟨_, onto_append _ _⟩
    · rw [hfirst]
      exact hhands lower t rest ht rfl

end Config

end ScriptMachine
