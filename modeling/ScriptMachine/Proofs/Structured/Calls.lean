import ScriptMachine.Proofs.Structured.Simulation
import ScriptMachine.Proofs.Machine.Moves
import ScriptMachine.Proofs.Machine.Nesting

/-!
# Calls of structured functions

The call of a function that is a laid out statement comes to what the evaluation of the statement
says, whatever called it: its value is pushed where the call was made, and what it throws goes on
from there. The induction is on the number of frames that the activation may still have.

`Statement.Balanced.comes` is the result for one activation and for the machine around it.
-/

namespace ScriptMachine

variable {σ : Type} {goal : Kind}

/-! ## Functions that are statements -/

namespace Bodies

variable {J : Journey σ} {a : Activation} {f : Frame} {callers : List Frame} {m : Store σ}

/-- A function that is a laid out statement, from its first instruction on. -/
theorem leaves_enter (hJ : a.context = J.context) {call : Calls σ}
    (hcall : call.Sound J a callers.length) {e : Executable} {s : Statement} {k : Nat}
    (hlaid : e.routine.code = (s.layout 0).toArray) (hs : s.Balanced 0 k) (scope : Id .scope)
    (receiver : Value) (args : List Value) :
    J.Leaves (.next (a.running (Frame.enter e scope receiver args) callers)) m a callers
      ((s.eval call (Frame.enter e scope receiver args) m).1.callEnd,
        (s.eval call (Frame.enter e scope receiver args) m).2.2) := by
  let P : Place := { activation := a, callers, handlers := [], cleanups := [], nested := nofun }
  have hcode : Holds e.routine.code 0 (s.layout 0) := by
    rw [hlaid]
    exact Holds.self [] (s.layout 0)
  have hmeets : J.Meets (P.start (Frame.enter e scope receiver args) 0) m (P.Ends (0 + s.size))
      (s.eval call (Frame.enter e scope receiver args) m) :=
    hs.meets hJ hcall (List.nil_append _).symm rfl hcode
  obtain ⟨c, g, m', hr⟩ : ∃ c g m', s.eval call (Frame.enter e scope receiver args) m =
    (c, g, m') := ⟨_, _, _, rfl⟩
  rw [hr] at hmeets ⊢
  cases c with
  | completes c =>
    have hbody := (hs.stays call (List.nil_append _).symm rfl hr).body
    obtain ⟨flow, hends, hlead⟩ := hmeets
    cases c with
    | normal =>
      obtain rfl := hends.start_eq
      refine J.trans hlead (J.step hJ ?_)
      have hend : e.routine.code[0 + s.size]? = none := by
        rw [hlaid, ← s.length_layout 0]
        simp
      have hfetch : (g.placed (0 + s.size) [] []).fetch? = none := by
        have hcode : g.body.routine.code[0 + s.size]? = none := by
          rw [hbody]
          exact hend
        simp only [Frame.fetch?, Frame.placed, hcode, Option.map_none]
      simp only [Activation.execute, Activation.running, P, hfetch]
      cases callers <;> rfl
    | throw v =>
      obtain ⟨position, pending, -, -, rfl⟩ := hends
      have hthrow := a.throw_of_unhandled callers v
        (Frame.routeThrow_nil g position (pending ++ []) v)
      have hended : P.ended g position pending (.throw v) =
          { a with frames := callers }.throw v := hthrow
      rw [hended] at hlead
      exact hlead
    | «return» v =>
      obtain ⟨position, pending, -, -, rfl⟩ := hends
      have hreturn := a.returnValue_of_done callers v
        (Frame.routeReturn_nil g position (pending ++ []) v)
      have hended : P.ended g position pending (.return v) = a.complete callers v := hreturn
      rw [hended] at hlead
      exact hlead
  | aborts e h =>
    cases e with
    | thrown v => cases h
    | suspended pending => exact hmeets
    | aborted reason => exact hmeets
    | fault fault => exact hmeets
  | silent s =>
    cases s with
    | unanswered => exact hmeets
    | foreign => trivial

/-- A value that is no function is not called, which throws. -/
theorem answers_uncallable (hJ : a.context = J.context) {count : UInt16}
    (hcode : f.body.routine.code[f.position]? = some (.call count)) {v : Value}
    (hcallee : f.callee count.toNat = v) (hv : v.isCallable = false)
    {function : Executable → Id .scope → Value → List Value → Store σ → CallEnd × Store σ}
    {others : Calls σ} (scope : Id .scope) (receiver : Value) (args : List Value) :
    J.Answers (.next (a.running f callers)) m a
      ({ f with position := f.position + 1 }.afterCall count.toNat) callers
      (Calls.dispatch function others v scope receiver args m) := by
  have hdispatch : Calls.dispatch function others v scope receiver args m =
      (.gives (.error (.typeError ((m.flattening v.display).1 ++ " is not a function"))),
        (m.flattening v.display).2) := by
    cases v with
    | executable | hostFunction => cases hv
    | _ => rfl
  have hpopped : ({ f with position := f.position + 1 }.popMany count.toNat).2.pop.2.pop.1 = v :=
    hcallee
  rw [hdispatch]
  apply J.leads_perform hJ hcode
  simp only [Activation.perform, Activation.call, hpopped]
  cases v with
  | executable | hostFunction => cases hv
  | _ => rfl

/-- A function that is called where the activation may not have another frame. -/
theorem answers_overflow (hJ : a.context = J.context) {count : UInt16}
    (hcode : f.body.routine.code[f.position]? = some (.call count)) {e : Executable}
    (hcallee : f.callee count.toNat = .executable e) (hgen : e.routine.isGenerator = false)
    (hfull : a.limit ≤ callers.length + 1) :
    J.Answers (.next (a.running f callers)) m a
      ({ f with position := f.position + 1 }.afterCall count.toNat) callers
      (.gives (.error (.fault (.stackOverflow a.limit))), m) := by
  have hpopped : ({ f with position := f.position + 1 }.popMany count.toNat).2.pop.2.pop.1 =
      .executable e := hcallee
  apply J.leads_perform hJ hcode
  simp only [Activation.perform, Activation.call, hpopped, hgen, List.length_cons, hfull, if_true]
  rfl

/-- A function that is called where the activation may have another frame. -/
theorem leads_enter (hJ : a.context = J.context) {count : UInt16}
    (hcode : f.body.routine.code[f.position]? = some (.call count)) {e : Executable}
    (hcallee : f.callee count.toNat = .executable e) (hgen : e.routine.isGenerator = false)
    (hroom : callers.length + 1 < a.limit) :
    J.Leads (.next (a.running f callers)) m
      (.next (a.running (Frame.enter e f.scope (f.calledOn count.toNat) (f.popMany count.toNat).1)
        ({ f with position := f.position + 1 }.afterCall count.toNat :: callers))) m := by
  have hpopped : ({ f with position := f.position + 1 }.popMany count.toNat).2.pop.2.pop.1 =
      .executable e := hcallee
  have hnot : ¬ a.limit ≤ callers.length + 1 := Nat.not_le.mpr hroom
  apply J.leads_perform hJ hcode
  simp only [Activation.perform, Activation.call, hpopped, hgen, List.length_cons, hnot]
  rfl

/-- Calls are sound if those of interpreted functions are, and those of all other callees. -/
theorem sound_dispatch (hJ : a.context = J.context) {depth : Nat}
    {function : Executable → Id .scope → Value → List Value → Store σ → CallEnd × Store σ}
    {others : Calls σ} (hothers : others.Sound J a depth)
    (hfunction : ∀ {f callers} {count : UInt16} {m e}, callers.length = depth →
      f.body.routine.code[f.position]? = some (.call count) →
      f.callee count.toNat = .executable e → e.routine.isGenerator = false →
      J.Answers (.next (a.running f callers)) m a
        ({ f with position := f.position + 1 }.afterCall count.toNat) callers
        (function e f.scope (f.calledOn count.toNat) (f.popMany count.toNat).1 m)) :
    (Calls.dispatch function others).Sound J a depth := by
  intro f callers count m hdepth hcode
  have hother := hothers f callers count m hdepth hcode
  cases hcallee : f.callee count.toNat with
  | executable e =>
    rw [hcallee] at hother
    cases hgen : e.routine.isGenerator with
    | true =>
      simp only [Calls.dispatch, hgen, if_true]
      exact hother
    | false =>
      simp only [Calls.dispatch, hgen]
      exact hfunction hdepth hcode hcallee hgen
  | hostFunction h =>
    rw [hcallee] at hother
    exact hother
  | _ => exact answers_uncallable hJ hcode hcallee rfl _ _ _

/-- Calls of functions that are laid out statements come to what the evaluation says. -/
theorem sound_calls (bodies : Bodies) (hJ : a.context = J.context) {others : Nat → Calls σ}
    (hothers : ∀ depth, (others (a.limit - (depth + 1))).Sound J a depth) {depth room : Nat}
    (hroom : a.limit - (depth + 1) = room) :
    (bodies.calls a.limit others room).Sound J a depth := by
  induction room generalizing depth with
  | zero =>
    have hother := hothers depth
    rw [hroom] at hother
    apply sound_dispatch hJ hother
    intro f callers count m e hdepth hcode hcallee hgen
    exact answers_overflow hJ hcode hcallee hgen (by omega)
  | succ room ih =>
    have hother := hothers depth
    rw [hroom] at hother
    apply sound_dispatch hJ hother
    intro f callers count m e hdepth hcode hcallee hgen
    cases hbody : bodies.of? e with
    | none =>
      have hanswer := hother f callers count m hdepth hcode
      rw [hcallee] at hanswer
      exact hanswer
    | some s =>
      obtain ⟨k, hs⟩ := bodies.balanced e s hbody
      have hinner : (bodies.calls a.limit others room).Sound J a
          ({ f with position := f.position + 1 }.afterCall count.toNat :: callers).length :=
        ih (by rw [List.length_cons]; omega)
      have hless : callers.length + 1 < a.limit := by omega
      have hleaves := leaves_enter (m := m) hJ hinner (bodies.laid e s hbody) hs f.scope
        (f.calledOn count.toNat) (f.popMany count.toNat).1
      exact hleaves.answers.of_leads (leads_enter hJ hcode hcallee hgen hless)

end Bodies

/-! ## Instructions one after the other -/

/-- Instructions lead from a flow to a flow. -/
inductive Flow.Reaches : Flow → Store σ → Flow → Store σ → Prop
  | refl (flow : Flow) (m : Store σ) : Reaches flow m flow m
  | step {a : Activation} {flow flow' : Flow} {m m₁ m' : Store σ}
      (h : a.execute m = (.flow flow, m₁)) (rest : Reaches flow m₁ flow' m') :
      Reaches (.next a) m flow' m'

namespace Flow

/-- An activation of a context, or none any more. -/
def IsOn (c : Id .context) : Flow → Prop
  | .next a => a.context = c
  | .leave _ => True

theorem Continues.isOn {a : Activation} {flow : Flow} (h : flow.Continues a) :
    flow.IsOn a.context := by
  cases flow with
  | next b => exact h.context
  | leave e => trivial

variable {x y z : Flow} {m m₁ m₂ : Store σ}

theorem Reaches.trans (h : x.Reaches m y m₁) (h' : y.Reaches m₁ z m₂) : x.Reaches m z m₂ := by
  induction h with
  | refl => exact h'
  | step hstep rest ih => exact .step hstep (ih h')

/-- A machine that observes no instructions comes where the instructions lead. -/
theorem Reaches.exists_run (h : x.Reaches m y m₁) {c : Id .context} (hx : x.IsOn c)
    (hm : (m.context c).observerThreshold = 0) (host : Host σ) (thread : Id .thread)
    (s : Stack σ .exit goal) :
    ∃ n, Config.run host thread n (Config.follow m c x s) = Config.follow m₁ c y s := by
  induction h with
  | refl flow m => exact ⟨0, rfl⟩
  | @step a flow flow' m m₁ m' hstep rest ih =>
    obtain rfl : a.context = c := hx
    have hcontinues := a.execute_continues m
    have hcontexts := (a.execute_frame m).1
    rw [hstep] at hcontinues hcontexts
    have hm₁ : (m₁.context a.context).observerThreshold = 0 := by
      rw [Store.context, hcontexts]
      exact hm
    obtain ⟨n, hn⟩ := ih (Continues.isOn hcontinues) hm₁
    refine ⟨2 + n, ?_⟩
    have hfirst : Config.run host thread 2 (Config.follow m a.context (.next a) s) =
        Config.follow m₁ a.context flow s := by
      refine (Config.run_counting host thread hm s).trans ?_
      simp only [Config.execute, hstep]
    rw [Config.run_add, hfirst, hn]

end Flow

/-- The journey on which the activation alone carries out its instructions; host functions are
not called on it. -/
def Journey.instructions (σ : Type) (c : Id .context) : Journey σ where
  context := c
  Leads := Flow.Reaches
  Strays _ _ := False
  refl := .refl
  trans := .trans
  step _ h := .step h (.refl _ _)
  strays _ h := h

/-- Instructions lead from a flow to another, and so does every machine that works on a context
and observes no instructions on it. -/
structure Flow.Comes (c : Id .context) (x : Flow) (m : Store σ) (y : Flow) (m' : Store σ) :
    Prop where
  instructions : x.Reaches m y m'
  machine : (m.context c).observerThreshold = 0 → ∀ {goal : Kind} (host : Host σ)
    (thread : Id .thread) (s : Stack σ .exit goal),
    ∃ n, Config.run host thread n (Config.follow m c x s) = Config.follow m' c y s

theorem Flow.Reaches.comes {x y : Flow} {m m' : Store σ} (h : x.Reaches m y m')
    {c : Id .context} (hx : x.IsOn c) : x.Comes c m y m' :=
  ⟨h, fun hm _ host thread s => h.exists_run hx hm host thread s⟩

/-- Try statements have structured semantics. A balanced statement runs as it is evaluated,
wherever it is laid out and whatever try statements and cleanups are under way around it: it
completes, with the frame and the store that the evaluation gives, and its completion goes on
from there; or it leaves all running code. Functions that are laid out statements are evaluated
as such, in as many frames as the activation may have; others may be described by any sound
account, and without one the evaluation is silent about them. -/
theorem Statement.Balanced.runs_as_evaluated {s : Statement} {n k : Nat} (hs : s.Balanced n k)
    (P : Place) {f : Frame} {p : Nat} (hn : n ≤ f.operands.length)
    (hcode : Holds f.body.routine.code p (s.layout p)) (bodies : Bodies) {others : Nat → Calls σ}
    (hothers : ∀ depth, (others (P.activation.limit - (depth + 1))).Sound
      (.instructions σ P.activation.context) P.activation depth) (m : Store σ) :
    match s.eval (bodies.calls P.activation.limit others
      (P.activation.limit - (P.callers.length + 1))) f m with
    | (.completes c, g, m') => ∃ flow, P.Ends (p + s.size) c g flow ∧
      (P.start f p).Comes P.activation.context m flow m'
    | (.aborts e _, _, m') =>
      (P.start f p).Comes P.activation.context m (.leave (.error e)) m'
    | (.silent reason, _, _) => reason = .foreign := by
  have hcall := bodies.sound_calls (J := .instructions σ P.activation.context) rfl hothers
    (rfl : P.activation.limit - (P.callers.length + 1) = _)
  have hlength : (f.operands.take n).length = n := List.length_take_of_le hn
  have hmeets := hs.meets (m := m) rfl hcall (List.take_append_drop n f.operands).symm hlength hcode
  have hon : (P.start f p).IsOn P.activation.context := rfl
  split
  · next c g m' heq =>
    rw [heq] at hmeets
    obtain ⟨flow, hends, hlead⟩ := hmeets
    exact ⟨flow, hends, Flow.Reaches.comes hlead hon⟩
  · next e he g m' heq =>
    rw [heq] at hmeets
    exact Flow.Reaches.comes hmeets hon
  · next reason g m' heq =>
    rw [heq] at hmeets
    cases reason with
    | unanswered => exact hmeets.elim
    | foreign => rfl

/-! ## An exception from a callee -/

/-- Throw a text. -/
def throwText : Statement := .sequence (.straight (.text "deep") rfl) .throw

theorem isStraight_undefined : Instruction.isStraight .undefined = true := rfl

/-- Call the function in the first slot, catch what it throws, bind a name in any case and return
what was caught. -/
def catchAndReturn : Statement :=
  .sequence
    (.tryCatchFinally
      (.sequence (.straight (.loadLocal 0) rfl)
        (.sequence (.straight .undefined isStraight_undefined) (.call 0)))
      .empty
      (.sequence (.straight (.bool true) rfl) (.straight (.defineName "ran") rfl)))
    .ret

theorem balanced_throwText : throwText.Balanced 0 0 :=
  .sequence (.straight _ _ 0) (.throw 0 0)

theorem balanced_catchAndReturn : catchAndReturn.Balanced 0 0 := by
  apply Statement.Balanced.sequence _ (.ret 0 0)
  apply Statement.Balanced.tryCatchFinally 0 _ (.empty 1)
  · exact .sequence (.straight _ _ 0) (.straight _ _ 0)
  · exact .sequence (.straight _ _ 0) (.sequence (.straight _ _ 1) (.call 0 0))

/-- A function with the code of a statement. -/
def plainRoutine (s : Statement) : Routine where
  name := none
  kind := .function
  isGenerator := false
  isStrict := false
  isExpression := true
  paramCount := 1
  names := #["f"]
  isConst := #[false]
  code := (s.layout 0).toArray
  nested := []

def thrower : Executable := ⟨⟨0⟩, ⟨⟨⟨0⟩, []⟩, plainRoutine throwText⟩, none, by decide⟩

def catcher : Executable := ⟨⟨1⟩, ⟨⟨⟨1⟩, []⟩, plainRoutine catchAndReturn⟩, none, by decide⟩

/-- The function that throws is known by its code. -/
def throwers : Bodies where
  of? e :=
    match e.routine.code.toList with
    | [.text "deep", .throw] => some throwText
    | _ => none
  laid e s h := by
    split at h
    · next hcode =>
      cases h
      have hself : e.routine.code = e.routine.code.toList.toArray := Array.toArray_toList.symm
      rw [hself, hcode]
      rfl
    · cases h
  balanced e s h := by
    split at h
    · cases h
      exact ⟨0, balanced_throwText⟩
    · cases h

/-- The frame that catches, with the function that throws in its slot. -/
def catcherFrame : Frame := Frame.enter catcher ⟨0⟩ .undefined [.executable thrower]

/-- An activation that runs nothing else. -/
def catcherPlace : Place where
  activation := { context := ⟨0⟩, frames := [], limit := 4, isGenerator := false }
  callers := []
  handlers := []
  cleanups := []
  nested := nofun

/-- A store with one scope. -/
def oneScope : Store Unit := { Store.initial () with scopes := ⟨#[{}]⟩ }

/-- What is caught is returned, after the cleanup. -/
theorem comes_catcherFrame :
    ∃ m, m.scopes.find? ⟨0⟩ "ran" = some (.bool true) ∧
      (catcherPlace.start catcherFrame 0).Comes ⟨0⟩ oneScope
        (.leave (.ok (.returned (.text "deep")))) m := by
  have hcode : Holds catcher.routine.code 0 (catchAndReturn.layout 0) :=
    Holds.self [] (catchAndReturn.layout 0)
  have hruns := balanced_catchAndReturn.runs_as_evaluated catcherPlace (f := catcherFrame)
    (Nat.zero_le _) hcode throwers (fun depth => Calls.sound_foreign _ _ depth _) oneScope
  obtain ⟨flow, ⟨position, pending, -, -, rfl⟩, hcomes⟩ := hruns
  exact ⟨_, rfl, hcomes⟩

end ScriptMachine
