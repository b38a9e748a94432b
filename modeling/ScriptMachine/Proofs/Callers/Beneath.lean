import ScriptMachine.Proofs.Forwarding.Grafted
import ScriptMachine.Proofs.FrameLimit.Seats

/-!
# Frames beneath a callee

The frames of an activation lie on top of each other, and an instruction is carried out in the
innermost one. `Activation.above_execute` says what that means for the frames beneath it. As long
as there are frames on top of them they are what they were. They are given the value that the
last frame on top returns, or one that is thrown and handled by no frame on top, or the whole
activation is left.
-/

namespace ScriptMachine

variable {σ : Type} {α goal : Kind}

/-- The next instruction of a frame returns a value from it. -/
inductive Frame.Returns (f : Frame) : Value → Prop
  /-- The code has ended. -/
  | ended (hfetch : f.fetch? = none) : Returns f .undefined
  /-- A value is returned, and no finally block is in the way. -/
  | ret {g : Frame} (hfetch : f.fetch? = some (.ret, g))
      (hfree : (g.pop.2.routeReturn g.pop.1).1 = false) : Returns f g.pop.1
  /-- A finally block has ended that a return led into. -/
  | endFinally {g g' : Frame} {v : Value} (hfetch : f.fetch? = some (.endFinally, g))
      (hcleanup : g.endCleanup = (.return v, g')) (hfree : (g'.routeReturn v).1 = false) :
      Returns f v

/-- The activation with frames on top of its own. -/
def Activation.bearing (a : Activation) (above : List Frame) : Activation :=
  { a with frames := above ++ a.frames }

/-- What becomes of the frames on top of those of `a`: there are frames on top of them still, or
the last one has returned a value, or all have let one through that was thrown, or the activation
is left. -/
inductive Flow.Above (a : Activation) (returns : Value → Prop) : Flow → Prop
  | next {above : List Frame} (h : above ≠ []) : Above a returns (.next (a.bearing above))
  | returned {v : Value} (h : returns v) : Above a returns (a.deliver v)
  | thrown (v : Value) : Above a returns (a.throw v)
  | left {e : Abrupt} (h : ∀ v, e ≠ .thrown v) : Above a returns (.leave (.error e))

/-- What becomes of them after an instruction; a callee may be waited for with frames on top. -/
inductive Move.Above (a : Activation) (returns : Value → Prop) : Move → Prop
  | flow {f : Flow} (h : f.Above a returns) : Above a returns (.flow f)
  | call {above : List Frame} (h : above ≠ []) (f : Callable) (site : CallSite) :
      Above a returns (.call (a.bearing above) f site)

theorem Flow.Above.imp {a : Activation} {P Q : Value → Prop} {flow : Flow} (h : flow.Above a P)
    (hPQ : ∀ v, P v → Q v) : flow.Above a Q := by
  cases h with
  | next h => exact .next h
  | returned h => exact .returned (hPQ _ h)
  | thrown v => exact .thrown v
  | left h => exact .left h

namespace Activation

variable {a : Activation} {P : Value → Prop} {m : Store σ}

theorem above_throw (above : List Frame) (v : Value) :
    ((a.bearing above).throw v).Above a P := by
  simp only [throw, bearing, unwind_append]
  -- a frame on top handles the value, or it comes to the frames beneath
  cases unwind v above with
  | nil =>
    show Flow.Above a P (a.throw v)
    exact .thrown v
  | cons f callers => exact .next (List.cons_ne_nil f callers)

theorem above_complete (ha : a.frames ≠ []) (callers : List Frame) (v : Value) :
    (a.complete (callers ++ a.frames) v).Above a fun w => callers = [] ∧ w = v := by
  cases callers with
  | nil =>
    obtain ⟨caller, rest, hframes⟩ := List.exists_cons_of_ne_nil ha
    have hdeliver : a.complete ([] ++ a.frames) v = a.deliver v := by
      rw [List.nil_append, deliver, hframes]
      rfl
    rw [hdeliver]
    exact .returned ⟨rfl, rfl⟩
  | cons f rest => exact .next (List.cons_ne_nil (f.push v) rest)

theorem above_returnValue (ha : a.frames ≠ []) (f : Frame) (callers : List Frame) (v : Value) :
    ((a.bearing (f :: callers)).returnValue v).Above a fun w =>
      callers = [] ∧ (f.routeReturn v).1 = false ∧ w = v := by
  simp only [returnValue, bearing, List.cons_append]
  split
  · exact .next (List.cons_ne_nil _ callers)
  · next hroute =>
    refine (above_complete ha callers v).imp fun w hw => ?_
    exact ⟨hw.1, congrArg Prod.fst hroute, hw.2⟩

theorem above_deliver {above : List Frame} (h : above ≠ []) (v : Value) :
    ((a.bearing above).deliver v).Above a P := by
  obtain ⟨f, callers, rfl⟩ := List.exists_cons_of_ne_nil h
  exact .next (List.cons_ne_nil (f.push v) callers)

/-- Frames that a continuation takes are left together with those beneath. -/
theorem above_fail (above : List Frame) (e : Abrupt) (m : Store σ) :
    ((a.bearing above).fail e m).1.Above a P := by
  cases e with
  | thrown v => exact above_throw above v
  | suspended p =>
    simp only [fail, capture]
    split
    · exact .left fun v h => by cases h
    · split <;> exact .left fun v h => by cases h
  | aborted reason => exact .left fun v h => by cases h
  | fault f => exact .left fun v h => by cases h

theorem above_call (f : Frame) (callers : List Frame) (count : Nat) (m : Store σ) :
    (a.call f (callers ++ a.frames) count m).1.Above a P := by
  simp only [call]
  split
  · split
    · exact .call (List.cons_ne_nil _ callers) _ _
    · split
      · exact .flow (.left fun v h => by cases h)
      · exact .flow (.next (List.cons_ne_nil _ (_ :: callers)))
  · exact .call (List.cons_ne_nil _ callers) _ _
  · exact .flow (above_fail (_ :: callers) _ _)

theorem above_own (f : Frame) (callers : List Frame) {i : Instruction} (hi : i.isOwn)
    (m : Store σ) : (a.perform f (callers ++ a.frames) i m).1.Above a P := by
  rw [perform_of_isOwn _ _ hi]
  obtain ⟨r, g, m', hr⟩ : ∃ r g m', f.perform i m = (r, g, m') := ⟨_, _, _, rfl⟩
  rw [hr]
  cases r with
  | ok u => exact .flow (.next (List.cons_ne_nil g callers))
  | error e => exact .flow (above_fail (g :: callers) e m')

theorem above_perform (ha : a.frames ≠ []) {f g : Frame} {i : Instruction}
    (hfetch : f.fetch? = some (i, g)) (callers : List Frame) (m : Store σ) :
    (a.perform g (callers ++ a.frames) i m).1.Above a fun v => callers = [] ∧ f.Returns v := by
  cases i with
  | call count => exact above_call g callers count.toNat m
  | ret =>
    refine .flow ((above_returnValue ha g.pop.2 callers g.pop.1).imp ?_)
    rintro v ⟨hlast, hfree, rfl⟩
    exact ⟨hlast, .ret hfetch hfree⟩
  | throw => exact .flow (above_throw (_ :: callers) _)
  | yield =>
    -- with frames beneath it this is not the only frame of the body of a generator
    have hrefused : (!a.isGenerator || !(callers ++ a.frames).isEmpty) = true := by
      obtain ⟨caller, rest, hframes⟩ := List.exists_cons_of_ne_nil ha
      rw [hframes]
      simp
    simp only [perform, hrefused, if_true]
    exact .flow (above_fail (g :: callers) _ m)
  | endFinally =>
    simp only [perform]
    split
    · exact .flow (.next (List.cons_ne_nil _ callers))
    · exact .flow (above_throw (_ :: callers) _)
    · next v g' hcleanup =>
      refine .flow ((above_returnValue ha g' callers v).imp ?_)
      rintro w ⟨hlast, hfree, rfl⟩
      exact ⟨hlast, .endFinally hfetch hcleanup hfree⟩
  | _ => exact above_own g callers rfl m

/-- An instruction does not look at the frames beneath, unless the last frame on top is left. -/
theorem above_execute (ha : a.frames ≠ []) (f : Frame) (callers : List Frame) (m : Store σ) :
    ((a.bearing (f :: callers)).execute m).1.Above a fun v => callers = [] ∧ f.Returns v := by
  simp only [execute, bearing, List.cons_append]
  split
  · next hfetch =>
    refine .flow ((above_complete ha callers .undefined).imp ?_)
    rintro v ⟨hlast, rfl⟩
    exact ⟨hlast, .ended hfetch⟩
  · next i g hfetch => exact above_perform ha hfetch callers m

end Activation

/-! ## Where an activation is -/

namespace Stack

variable {a : Activation} {s : Stack σ .exit goal}

theorem Seats.exists_append {r : Stack σ α goal} (h : r.Seats a s) :
    (∃ r' : Stack σ α .completion, r = r'.append (.cons (.called a) s)) ∨
      ∃ r' : Stack σ α .verdict, r = r'.append (.cons (.observed a) s) := by
  induction r with
  | nil => exact absurd h id
  | cons t rest ih =>
    have hbeneath (h : rest.Seats a s) :
        (∃ r', Stack.cons t rest = Stack.append r' (.cons (.called a) s)) ∨
          ∃ r', Stack.cons t rest = Stack.append r' (.cons (.observed a) s) := by
      rcases ih h with ⟨r', rfl⟩ | ⟨r', rfl⟩
      · exact .inl ⟨.cons t r', rfl⟩
      · exact .inr ⟨.cons t r', rfl⟩
    cases t with
    | called b =>
      rcases h with ⟨rfl, rfl⟩ | h
      · exact .inl ⟨.nil, rfl⟩
      · exact hbeneath h
    | observed b =>
      rcases h with ⟨rfl, rfl⟩ | h
      · exact .inr ⟨.nil, rfl⟩
      · exact hbeneath h
    | _ => exact hbeneath h

theorem seats_append {β : Kind} (r : Stack σ α β) {u : Stack σ β goal} (h : u.Seats a s) :
    (r.append u).Seats a s := by
  induction r with
  | nil => exact h
  | cons t rest ih => exact (ih h).beneath t

end Stack

namespace Config

/-- An activation runs on a stack, or waits there for what it called or for the observer. -/
inductive Seats (a : Activation) (s : Stack σ .exit goal) : Config σ goal → Prop
  | counting (m : Store σ) : Seats a s ⟨m, .counting a s⟩
  | executing (m : Store σ) : Seats a s ⟨m, .executing a s⟩
  | called {Y : Config σ .completion} (hY : Y.state ≠ .crashed) :
      Seats a s (Y.onto (.cons (.called a) s))
  | observed {Y : Config σ .verdict} (hY : Y.state ≠ .crashed) :
      Seats a s (Y.onto (.cons (.observed a) s))

variable {a : Activation} {s : Stack σ .exit goal} {X : Config σ goal}

theorem state_seats_onto {β : Kind} {Y : Config σ β} (hY : Y.state ≠ .crashed)
    {u : Stack σ β goal} (h : u.Seats a s) : (Y.onto u).state.Seats a s := by
  obtain ⟨m, state⟩ := Y
  cases state with
  | counting b r => exact .inr (Stack.seats_append r h)
  | executing b r => exact .inr (Stack.seats_append r h)
  | running p r => exact Stack.seats_append r h
  | calling f site r => exact Stack.seats_append r h
  | returning x r => exact Stack.seats_append r h
  | panicking r => exact Stack.seats_append r h
  | crashed => exact absurd rfl hY

/-- Whatever runs on a stack on which the activation waits runs on top of it. -/
theorem seats_of_stack {m : Store σ} {r : Stack σ α goal} (h : r.Seats a s)
    (state : (γ : Kind) → Stack σ α γ → State σ γ)
    (honto : ∀ (γ : Kind) (r : Stack σ α γ) (u : Stack σ γ goal),
      (state γ r).onto u = state goal (r.append u))
    (hstate : ∀ γ r, state γ r ≠ .crashed) :
    (⟨m, state goal r⟩ : Config σ goal).Seats a s := by
  rcases h.exists_append with ⟨r', rfl⟩ | ⟨r', rfl⟩
  · rw [← honto]
    exact .called (Y := ⟨m, state _ r'⟩) (hstate _ r')
  · rw [← honto]
    exact .observed (Y := ⟨m, state _ r'⟩) (hstate _ r')

theorem seats_of_state (h : X.state.Seats a s) : X.Seats a s := by
  obtain ⟨m, state⟩ := X
  cases state with
  | counting b r =>
    rcases h with ⟨rfl, rfl⟩ | h
    · exact .counting m
    · exact seats_of_stack h (fun _ => .counting b) (fun _ _ _ => rfl) fun _ _ h => by cases h
  | executing b r =>
    rcases h with ⟨rfl, rfl⟩ | h
    · exact .executing m
    · exact seats_of_stack h (fun _ => .executing b) (fun _ _ _ => rfl) fun _ _ h => by cases h
  | running p r =>
    exact seats_of_stack h (fun _ => .running p) (fun _ _ _ => rfl) fun _ _ h => by cases h
  | calling f site r =>
    exact seats_of_stack h (fun _ => .calling f site) (fun _ _ _ => rfl) fun _ _ h => by cases h
  | returning x r =>
    exact seats_of_stack h (fun _ => .returning x) (fun _ _ _ => rfl) fun _ _ h => by cases h
  | panicking r =>
    exact seats_of_stack h (fun _ => .panicking) (fun _ _ _ => rfl) fun _ _ h => by cases h
  | crashed => exact absurd h id

/-- A run has not come to its end while an activation is under way. -/
theorem ending_eq_none_of_seats (h : X.state.Seats a s) : X.ending? = none := by
  obtain ⟨m, state⟩ := X
  cases state with
  | returning x r =>
    cases r with
    | nil => exact absurd h id
    | cons t r => rfl
  | panicking r =>
    cases r with
    | nil => exact absurd h id
    | cons t r => rfl
  | crashed => exact absurd h id
  | running | calling | counting | executing => rfl

/-! ## Steps -/

/-- An activation is answered with a continuation, and the step moves its frames there. -/
structure GivesFrames (b : Activation) (s : Stack σ .exit goal) (k : Id .continuation)
    (X Y : Config σ goal) : Prop where
  answered : ∃ p : Pending, p.continuation = k ∧
    X.state = .returning (κ := .completion) (.error (.suspended p)) (.cons (.called b) s)
  pending : X.store.continuations.get? k = some .pending
  held : Y.store.continuations.get? k = some (.captured b.frames)

/-- A step ends a call that an activation `b` has made, whose caller is the frame `caller` on top
of `callers`. -/
inductive Finishes (b : Activation) (caller : Frame) (callers : List Frame)
    (s : Stack σ .exit goal) (X : Config σ goal) : Config σ goal → Prop
  /-- The frame of the callee, the only one on top of the caller, returns a value, and the caller
  goes on with it. -/
  | returned {callee : Frame} {v : Value} (m : Store σ) (hX : X.state = .executing b s)
      (hcallee : b.frames = callee :: caller :: callers) (hreturns : callee.Returns v) :
      Finishes b caller callers s X
        ⟨m, .counting { b with frames := caller.push v :: callers } s⟩
  /-- A value is thrown to the caller. -/
  | thrown (m : Store σ) (v : Value) : Finishes b caller callers s X
      (follow m b.context ({ b with frames := caller :: callers }.throw v) s)
  /-- The whole activation is left with an error that is no thrown value, and no continuation
  takes its frames. -/
  | left (m : Store σ) {e : Abrupt} (he : ∀ v, e ≠ .thrown v)
      (hdropped : ∀ k, ¬ GivesFrames b s k X (give m .exit (.error e) s)) :
      Finishes b caller callers s X (give m .exit (.error e) s)
  | panicked (m : Store σ) : Finishes b caller callers s X ⟨m, .panicking s⟩
  | crashed (m : Store σ) : Finishes b caller callers s X ⟨m, .crashed⟩

/-- What a step of an activation `b` does to a call whose caller is the frame `caller` on top of
`callers`: those frames are what they were beneath others, in the activation or in a continuation,
or the call is finished. -/
inductive StepsAbove (b : Activation) (caller : Frame) (callers : List Frame)
    (s : Stack σ .exit goal) (X Y : Config σ goal) : Prop
  | above {b' : Activation} {above : List Frame} (hframes : b'.frames = above ++ caller :: callers)
      (habove : above ≠ []) (hY : Y.state.Seats b' s)
  | given {k : Id .continuation} (h : GivesFrames b s k X Y)
  | finished (h : X.Finishes b caller callers s Y)

variable {caller : Frame} {callers above : List Frame} {m : Store σ}

/-- An activation that goes on has frames on top of the caller, or its call is finished. -/
theorem stepsAbove_follow (ha : a.frames = caller :: callers) {P : Value → Prop} {flow : Flow}
    (h : flow.Above a P)
    (hreturned : ∀ v, P v → X.state = .executing (a.bearing above) s ∧
      ∃ callee, above = [callee] ∧ callee.Returns v)
    (hdropped : ∀ k, ¬ GivesFrames (a.bearing above) s k X (follow m a.context flow s)) :
    X.StepsAbove (a.bearing above) caller callers s (follow m a.context flow s) := by
  obtain ⟨c, frames, limit, isGenerator⟩ := a
  obtain rfl : frames = caller :: callers := ha
  cases h with
  | next h => exact .above rfl h (.inl ⟨rfl, rfl⟩)
  | returned h =>
    obtain ⟨hX, callee, rfl, hcallee⟩ := hreturned _ h
    exact .finished (.returned m hX rfl hcallee)
  | thrown v => exact .finished (.thrown m v)
  | left he => exact .finished (.left _ he hdropped)

variable (host : Host σ) (thread : Id .thread)

theorem stepsAbove_execute (ha : a.frames = caller :: callers) (habove : above ≠ []) :
    StepsAbove (a.bearing above) caller callers s ⟨m, .executing (a.bearing above) s⟩
      (execute m (a.bearing above) s) := by
  obtain ⟨callee, rest, rfl⟩ := List.exists_cons_of_ne_nil habove
  obtain ⟨c, frames, limit, isGenerator⟩ := a
  obtain rfl : frames = caller :: callers := ha
  have hmove := Activation.above_execute (List.cons_ne_nil caller callers) callee rest m
    (a := ⟨c, caller :: callers, limit, isGenerator⟩)
  unfold execute
  split
  · next flow m' heq =>
    rw [heq] at hmove
    cases hmove with
    | flow hflow =>
      refine stepsAbove_follow rfl hflow (fun v hv => ⟨rfl, callee, ?_, hv.2⟩) ?_
      · rw [hv.1]
      · rintro k ⟨⟨p, -, hX⟩, -, -⟩
        cases hX
  · next b f site m' heq =>
    rw [heq] at hmove
    cases hmove with
    | call h => exact .above rfl h (.inl ⟨rfl, rfl⟩)

/-- The activation takes what comes back to it. -/
theorem stepsAbove_called (ha : a.frames = caller :: callers) (habove : above ≠ []) (o : Outcome) :
    StepsAbove (a.bearing above) caller callers s
      (give m .completion o (.cons (.called (a.bearing above)) s))
      (take host thread m (.called (a.bearing above)) o s) := by
  by_cases hgiven : ∃ k, GivesFrames (a.bearing above) s k
      (give m .completion o (.cons (.called (a.bearing above)) s))
      (take host thread m (.called (a.bearing above)) o s)
  · obtain ⟨k, hk⟩ := hgiven
    exact .given hk
  · -- an answer that moves no frames is dealt with like any other outcome
    have hdropped := not_exists.mp hgiven
    cases o with
    | ok v =>
      have hflow := Activation.above_deliver (a := a) (P := fun _ => False) habove v
      exact stepsAbove_follow ha hflow (fun v hv => absurd hv id) hdropped
    | error e =>
      have hflow := Activation.above_fail (a := a) (P := fun _ => False) above e m
      exact stepsAbove_follow ha hflow (fun v hv => absurd hv id) hdropped

/-- Something runs on top of the activation, which waits for it. -/
theorem stepsAbove_onto {b : Activation} (hframes : b.frames = above ++ caller :: callers)
    (habove : above ≠ []) {t : Task σ α .exit} (ht : (Stack.cons t s).Seats b s)
    {Y : Config σ α} (hY : Y.ending? = none) :
    StepsAbove b caller callers s (Y.onto (.cons t s)) ((Y.onto (.cons t s)).step host thread) := by
  rw [step_onto host thread _ hY]
  generalize Y.step host thread = Z
  by_cases hcrashed : Z.state = .crashed
  · obtain ⟨m, state⟩ := Z
    obtain rfl : state = .crashed := hcrashed
    exact .finished (.crashed m)
  · exact .above hframes habove (state_seats_onto hcrashed ht)

/-- After a step of an activation the frames beneath the callee are what they were, on its stack
or in a continuation, unless the call is finished. -/
theorem step_stepsAbove {b : Activation} (hframes : b.frames = above ++ caller :: callers)
    (habove : above ≠ []) (h : X.state.Seats b s) :
    X.StepsAbove b caller callers s (X.step host thread) := by
  have hcalled : (Stack.cons (.called b) s).Seats b s := .inl ⟨rfl, rfl⟩
  have hobserved : (Stack.cons (.observed b) s).Seats b s := .inl ⟨rfl, rfl⟩
  obtain ⟨a, ha, hb⟩ : ∃ a, a.frames = caller :: callers ∧ b = a.bearing above :=
    ⟨{ b with frames := caller :: callers }, rfl, by rw [Activation.bearing, ← hframes]⟩
  cases seats_of_state h with
  | counting m =>
    simp only [step, count]
    split
    · exact .above hframes habove hobserved
    · exact .above hframes habove (.inl ⟨rfl, rfl⟩)
  | executing m =>
    subst hb
    exact stepsAbove_execute ha habove
  | @called Y hY =>
    cases hend : Y.ending? with
    | none => exact stepsAbove_onto host thread hframes habove hcalled hend
    | some x =>
      rcases ending_cases hend with ⟨m, o, rfl⟩ | ⟨m, rfl⟩ | ⟨m, rfl⟩
      · subst hb
        exact stepsAbove_called host thread ha habove o
      · exact .finished (.panicked _)
      · exact absurd rfl hY
  | @observed Y hY =>
    cases hend : Y.ending? with
    | none => exact stepsAbove_onto host thread hframes habove hobserved hend
    | some x =>
      rcases ending_cases hend with ⟨m, verdict, rfl⟩ | ⟨m, rfl⟩ | ⟨m, rfl⟩
      · cases verdict with
        | ok u => exact .above hframes habove (.inl ⟨rfl, rfl⟩)
        | error reason =>
          refine .finished (.left _ (fun v h => by cases h) ?_)
          rintro k ⟨⟨p, -, hX⟩, -, -⟩
          cases hX
      · exact .finished (.panicked _)
      · exact absurd rfl hY

end Config

end ScriptMachine
