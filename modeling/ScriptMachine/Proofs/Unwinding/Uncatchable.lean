import ScriptMachine.Proofs.Capture.Transparency
import ScriptMachine.Proofs.Unwinding.Passage

/-!
# Errors that no script can catch

An abort, a fault or a captured continuation that arises at an activation leaves it in one step;
no frame of it is looked at again, whatever handlers it has. Where host code returns the errors
it receives, the error comes through to the outermost entry, no enclosing activation runs on,
and every generator whose body was under way is finished.
-/

namespace ScriptMachine

variable {σ : Type} {goal : Kind}

namespace Config

/-- An error arises at an activation on a stack: its instruction fails, the observer aborts it,
or something that it called ends with the error. -/
inductive Raises (a : Activation) (s : Stack σ .exit goal) (e : Abrupt) : Config σ goal → Prop
  | instruction (m : Store σ) (h : a.Raises m e) : Raises a s e ⟨m, .executing a s⟩
  | observer (m : Store σ) {reason : String} (h : e = .aborted reason) :
      Raises a s e (give m .verdict (.error reason) (.cons (.observed a) s))
  | callee (m : Store σ) : Raises a s e (give m .completion (.error e) (.cons (.called a) s))

variable (host : Host σ) (thread : Id .thread)

/-- An activation at which an error arises that cannot be caught is left at once. Unless the
error is a continuation, nothing keeps its frames. -/
theorem Raises.step {X : Config σ goal} {a : Activation} {s : Stack σ .exit goal} {e : Abrupt}
    (h : X.Raises a s e) (he : e.isCatchable = false) :
    ∃ (m : Store σ) (e' : Abrupt), e.Becomes e' ∧
      X.step host thread = give m .exit (.error e') s ∧
      ((∀ p, e ≠ .suspended p) →
        m.continuations = X.store.continuations ∧ m.generators = X.store.generators) := by
  cases h with
  | instruction m hraise =>
    have hflow := hraise.execute m he
    refine ⟨changeDepth (a.execute m).2 a.context (· - 1), e, .refl e, ?_, ?_⟩
    · show execute m a s = _
      unfold execute
      split
      · next heq =>
        rw [heq] at hflow
        cases hflow
        rw [heq]
        rfl
      · next heq =>
        rw [heq] at hflow
        cases hflow
    · intro _
      exact ⟨(a.execute_frame m).2, a.generators_execute m⟩
  | observer m hreason =>
    subst hreason
    exact ⟨_, _, .refl _, rfl, fun _ => ⟨rfl, rfl⟩⟩
  | callee m =>
    obtain ⟨e', hbecomes, hflow, hstore⟩ := a.exists_fail m he
    refine ⟨changeDepth (a.fail e m).2 a.context (· - 1), e', hbecomes, ?_, ?_⟩
    · show follow (a.fail e m).2 a.context (a.fail e m).1 s = _
      rw [hflow]
      rfl
    · intro hplain
      rw [hstore hplain]
      exact ⟨rfl, rfl⟩

/-- An entry waits for no body before it has begun. -/
theorem isSingle_ofAction (m : Store σ) (entry : Action) (i : Id .generator) :
    ((ofAction host thread m entry).life i).IsSingle :=
  (moves_beginAction i host thread m entry .nil).isSingle (.inl rfl)

/-- A generator whose body is left with an error is finished. -/
theorem finished_step_of_bodyEnd {X : Config σ goal} {g : Generator} {m : Store σ}
    {e : Abrupt} {rest : Stack σ .step goal} (hsingle : (X.life g.id).IsSingle)
    (hX : X = give m .exit (.error e) (.cons (.bodyEnd g) rest)) :
    (X.step host thread).store.Finished g.id := by
  subst hX
  rcases hsingle with hnone | ⟨-, hstate⟩
  · simp only [life, State.bodies, Stack.bodies_cons, Task.bodies, if_true] at hnone
    omega
  · refine ⟨{ frame := none, started := true, finished := true }, ?_, rfl⟩
    show (m.generators.modify g.id _).get? g.id = _
    have hget : m.generators.get? g.id = some { frame := none, started := true } := hstate
    rw [Table.get?_modify, if_pos rfl, hget]
    rfl

/-- Errors that cannot be caught abandon the code they arise in. Whenever one arises at an
activation, that activation is left in the same step, and nothing of it is on the stack or in
the store any more, except that a captured continuation holds its frames.

If host code on the stack returns the errors it receives, then the run ends with the error at
the outermost entry. On the way no enclosing activation is touched before the error comes to
it, and it is left by the step that brings the error; so is every other task of the library.
And every generator whose body was under way has finished. The error is the same throughout,
except that a continuation may be refused and become a fault. -/
theorem uncatchable_abandons {m₀ : Store σ} {entry : Action} {k : Nat} {a : Activation}
    {s : Stack σ .exit entry.kind} {e : Abrupt} {X : Config σ entry.kind}
    (hX : X = (ofAction host thread m₀ entry).run host thread k) (h : X.Raises a s e)
    (he : e.isCatchable = false) :
    (∃ (m : Store σ) (e' : Abrupt), e.Becomes e' ∧
      X.step host thread = give m .exit (.error e') s ∧
      ((∀ p, e ≠ .suspended p) →
        m.continuations = X.store.continuations ∧ m.generators = X.store.generators)) ∧
    (s.Passes host thread e.Becomes →
      ∃ (n : Nat) (m : Store σ) (y : entry.kind.Result) (e' : Abrupt), e.Becomes e' ∧
        entry.kind.Carries e' y ∧ X.run host thread (n + 1) = give m entry.kind y .nil ∧
        (∀ {δ ε : Kind} (upper : Stack σ .exit δ) (t : Task σ δ ε) (rest : Stack σ ε entry.kind),
          t.IsOwn → s = upper.append (.cons t rest) →
          (X.step host thread).Hands host thread e.Becomes n t rest) ∧
        ∀ (g : Generator) (upper : Stack σ .exit .exit) (rest : Stack σ .step entry.kind),
          s = upper.append (.cons (.bodyEnd g) rest) → m.Finished g.id) := by
  obtain ⟨m₁, e₁, hbecomes, hstep, hstore⟩ := h.step host thread he
  refine ⟨⟨m₁, e₁, hbecomes, hstep, hstore⟩, ?_⟩
  intro hs
  obtain ⟨n, m', y, e', he', hy, hrun, hhands⟩ := exists_passage host thread
    (fun e' h' => h'.uncatchable he) (fun e' e'' h' h'' => h'.trans h'') hs (m := m₁) (e := e₁)
    (x := .error e₁) hbecomes rfl
  rw [← hstep] at hrun hhands
  refine ⟨n, m', y, e', he', hy, hrun, ?_, ?_⟩
  · intro δ ε upper t rest ht hsplit
    exact hhands upper t rest ht hsplit
  · intro g upper rest hsplit
    obtain ⟨i, hi, -, ⟨m, x, e₂, -, hx, htakes⟩, -⟩ := hhands upper (.bodyEnd g) rest trivial hsplit
    obtain rfl : x = .error e₂ := hx
    have hsingle : (((X.step host thread).run host thread i).life g.id).IsSingle := by
      refine isSingle_run host thread ((step_moves g.id host thread X).isSingle ?_) i
      rw [hX]
      exact isSingle_run host thread (isSingle_ofAction host thread m₀ entry g.id) k
    have hfinished := finished_step_of_bodyEnd host thread hsingle htakes
    obtain ⟨d, rfl⟩ := Nat.exists_eq_add_of_le hi
    have hlast := finished_run host thread hfinished d
    rw [run_add, Nat.succ_eq_add_one, run_add, run_one] at hrun
    rw [hrun] at hlast
    exact hlast

/-! ## An abort beneath two handlers -/

/-- A function, or the body of a generator, that calls its argument and catches what is
thrown. -/
def catchingCall (isGenerator : Bool) : Executable where
  id := ⟨0⟩
  shared := ⟨⟨⟨0⟩, []⟩,
    { name := none
      kind := .function
      isGenerator
      isStrict := false
      isExpression := true
      paramCount := 1
      names := #["f"]
      isConst := #[false]
      code := #[.enterTry (some 5) none, .loadLocal 0, .undefined, .call 0, .exitTry, .ret]
      nested := [] }⟩
  security := none
  valid := by cases isGenerator <;> decide

/-- A generator with a body that catches. -/
def catchingGenerator : Generator := ⟨⟨0⟩, catchingCall true⟩

/-- The host function returns the outcome of a resumption. -/
def forwardStep : Except Abrupt GeneratorStep → Program Unit .completion
  | .ok step => .finish (κ := .completion) (.ok step.value)
  | .error e => .finish (κ := .completion) (.error e)

/-- One host function aborts; the others resume the generator and return the outcome. -/
def abortingHost : Host Unit :=
  { uniformHost fun _ => .finish (κ := .completion) (.ok .undefined) with
    run := fun f site =>
      if f = ⟨0⟩ then .finish (κ := .completion) (.error (.aborted "stop"))
      else .act (.step (catchingCall true) catchingGenerator .next site.context site.scope
        .undefined) forwardStep }

/-- A store with an idle context and the generator, which will call the host function that
aborts. -/
def oneGenerator : Store Unit :=
  { oneContext with generators :=
      ⟨#[{ frame := some (.enter (catchingCall true) ⟨0⟩ .undefined [.hostFunction ⟨⟨0⟩, "f"⟩]) }]⟩ }

/-- The function calls the host function that resumes the generator. -/
def resumingEntry : Action :=
  .call (.executable (catchingCall false)) ⟨⟨0⟩, ⟨0⟩, .undefined, [.hostFunction ⟨⟨1⟩, "g"⟩]⟩

/-- An activation that has called the host function and would catch what it throws. -/
def catchingActivation (isGenerator : Bool) (f : HostFunction) : Activation where
  context := ⟨0⟩
  frames := [{
    body := catchingCall isGenerator
    position := 4
    operands := []
    locals := #[.hostFunction f]
    handlers := [⟨some 5, none, 0⟩]
    cleanups := []
    scope := ⟨0⟩
    receiver := .undefined }]
  limit := defaultFrameLimit
  isGenerator

/-- What is under way beneath the body of the generator. -/
def beneathBody : Stack Unit .exit .completion :=
  .cons (.bodyEnd catchingGenerator) (.cons (.program forwardStep)
    (.cons (.called (catchingActivation false ⟨⟨1⟩, "g"⟩)) (.cons .callEnd
      (.cons .flattenResult (.cons (.clearTopCall ⟨0⟩) .nil)))))

theorem raises_aborted :
    ((ofAction abortingHost ⟨0⟩ oneGenerator resumingEntry).run abortingHost ⟨0⟩ 22).Raises
      (catchingActivation true ⟨⟨0⟩, "f"⟩) beneathBody (.aborted "stop") :=
  .callee _

theorem passes_beneathBody (E : Abrupt → Prop) : beneathBody.Passes abortingHost ⟨0⟩ E := by
  have hforwards : ∀ e, E e →
      (Stack.cons (.program forwardStep) .nil : Stack Unit .step .completion).Forwards
        abortingHost ⟨0⟩ e := by
    intro e _ m x hx
    obtain rfl : x = .error e := hx
    exact ⟨2, m, .error e, rfl, rfl⟩
  have hhost : (Stack.cons (.program forwardStep) .nil : Stack Unit .step .completion).IsHost :=
    And.intro id trivial
  refine .own trivial (.host hhost hforwards ?_)
  exact .own trivial (.own trivial (.own trivial (.own trivial .nil)))

/-- An abort in the body of a generator passes the handlers of the body and of the function that
had the generator resumed, and ends the entry; the generator has finished. -/
theorem abandons_aborted :
    ∃ (n : Nat) (m : Store Unit),
      (ofAction abortingHost ⟨0⟩ oneGenerator resumingEntry).run abortingHost ⟨0⟩ n =
        give m .completion (.error (.aborted "stop")) .nil ∧ m.Finished ⟨0⟩ := by
  obtain ⟨-, hpasses⟩ := @uncatchable_abandons _ abortingHost ⟨0⟩ oneGenerator
    resumingEntry 22 _ _ _ _ rfl raises_aborted rfl
  obtain ⟨n, m, y, e, hbecomes, hy, hrun, -, hfinished⟩ := hpasses (passes_beneathBody _)
  obtain rfl : y = .error e := hy
  rcases hbecomes with rfl | ⟨⟨p, hp⟩, -⟩
  · refine ⟨22 + (n + 1), m, ?_, hfinished catchingGenerator .nil _ rfl⟩
    rw [run_add]
    exact hrun
  · cases hp

end Config

end ScriptMachine
