import ScriptMachine.Proofs.Machine.Moves

/-!
# Where activations sit

An activation is known by the stack it stands on: that stack does not change until the activation
is left. `State.Seats` says that an activation runs or waits on a stack. After a step it is the
activation that was there before, gone on (`Activation.GoesOn`), or one that has just begun
(`Config.Begun`), with a single frame or with those of a continuation (`Config.step_seats`).
-/

namespace ScriptMachine

variable {σ : Type} {α β goal : Kind}

/-! ## Growth of an activation -/

/-- The later state of an activation. New frames are taken only up to the limit. -/
structure Activation.GoesOn (a b : Activation) : Prop where
  context : b.context = a.context
  limit : b.limit = a.limit
  frames : b.frames.length ≤ max a.limit a.frames.length

/-- The activation goes on with no more than a number of frames, or is left. -/
def Flow.Bounded (n : Nat) : Flow → Prop
  | .next b => b.frames.length ≤ n
  | .leave _ => True

/-- The activation goes on or waits with no more than a number of frames, or is left. -/
def Move.Bounded (n : Nat) : Move → Prop
  | .flow f => f.Bounded n
  | .call b _ _ => b.frames.length ≤ n

theorem Flow.Bounded.mono {n k : Nat} {f : Flow} (h : f.Bounded n) (hn : n ≤ k) : f.Bounded k := by
  cases f with
  | next b => exact Nat.le_trans h hn
  | leave e => trivial

namespace Activation

variable {a b c : Activation} {m : Store σ} {n : Nat}

theorem GoesOn.refl (a : Activation) : a.GoesOn a := ⟨rfl, rfl, Nat.le_max_right _ _⟩

theorem GoesOn.trans (h : a.GoesOn b) (h' : b.GoesOn c) : a.GoesOn c where
  context := h'.context.trans h.context
  limit := h'.limit.trans h.limit
  frames := by
    have hframes := h.frames
    have hframes' := h'.frames
    rw [h.limit] at hframes'
    omega

theorem length_unwind_le (v : Value) (frames : List Frame) :
    (unwind v frames).length ≤ frames.length := by
  induction frames with
  | nil => exact Nat.le_refl 0
  | cons f callers ih =>
    unfold unwind
    split
    · exact Nat.le_refl _
    · exact Nat.le_succ_of_le ih

theorem bounded_throw (a : Activation) (v : Value) : (a.throw v).Bounded a.frames.length := by
  have hunwind := length_unwind_le v a.frames
  unfold throw
  split
  · trivial
  · exact hunwind

theorem bounded_complete (a : Activation) (callers : List Frame) (v : Value) :
    (a.complete callers v).Bounded callers.length := by
  unfold complete
  split
  · trivial
  · exact Nat.le_refl _

theorem bounded_returnValue (a : Activation) (v : Value) :
    (a.returnValue v).Bounded a.frames.length := by
  unfold returnValue
  split
  · trivial
  · next f callers hframes =>
    rw [hframes]
    split
    · exact Nat.le_refl _
    · exact (a.bounded_complete callers v).mono (Nat.le_succ _)

theorem bounded_deliver (a : Activation) (v : Value) : (a.deliver v).Bounded a.frames.length := by
  unfold deliver
  split
  · trivial
  · next hframes => exact Nat.le_of_eq (by rw [hframes]; rfl)

theorem bounded_fail (a : Activation) (e : Abrupt) (m : Store σ) :
    (a.fail e m).1.Bounded a.frames.length := by
  cases e with
  | thrown v => exact a.bounded_throw v
  | suspended p =>
    simp only [fail, capture]
    split
    · trivial
    · split <;> trivial
  | aborted reason => trivial
  | fault f => trivial

/-- A call takes another frame only below the limit. -/
theorem bounded_call (a : Activation) (f : Frame) (callers : List Frame) (count : Nat)
    (m : Store σ) : (a.call f callers count m).1.Bounded (max a.limit (callers.length + 1)) := by
  unfold call
  dsimp only
  split
  · split
    · exact Nat.le_max_right _ _
    · split
      · trivial
      · next hroom =>
        simp only [List.length_cons, Nat.not_le] at hroom
        exact Nat.le_trans hroom (Nat.le_max_left _ _)
  · exact Nat.le_max_right _ _
  · exact (bounded_fail _ _ _).mono (Nat.le_max_right _ _)

theorem bounded_perform (a : Activation) (f : Frame) (callers : List Frame) (i : Instruction)
    (m : Store σ) : (a.perform f callers i m).1.Bounded (max a.limit (callers.length + 1)) := by
  have hmax : callers.length + 1 ≤ max a.limit (callers.length + 1) := Nat.le_max_right _ _
  unfold perform
  dsimp only
  split
  · exact a.bounded_call f callers _ m
  · exact (bounded_returnValue _ _).mono hmax
  · split
    · exact (bounded_fail _ _ _).mono hmax
    · trivial
  · split
    · exact hmax
    · exact (bounded_throw _ _).mono hmax
    · exact (bounded_returnValue _ _).mono hmax
  · exact (bounded_throw _ _).mono hmax
  · split
    · exact hmax
    · exact (bounded_fail _ _ _).mono hmax

theorem bounded_execute (a : Activation) (m : Store σ) :
    (a.execute m).1.Bounded (max a.limit a.frames.length) := by
  unfold execute
  split
  · trivial
  · next f callers hframes =>
    rw [hframes]
    split
    · exact (a.bounded_complete callers _).mono
        (Nat.le_trans (Nat.le_succ _) (Nat.le_max_right _ _))
    · exact a.bounded_perform _ callers _ m

theorem Continues.goesOn (h : a.Continues b)
    (hframes : b.frames.length ≤ max a.limit a.frames.length) : a.GoesOn b := ⟨h.context, h.limit, hframes⟩

end Activation

/-! ## Seats -/

/-- The task is an activation that waits on a stack `s`, or something holds beneath it. -/
def Task.Seats (a : Activation) (s : Stack σ .exit goal) (beneath : Prop) :
    {α β : Kind} → Task σ α β → Stack σ β goal → Prop
  | _, _, .called b, rest => (b = a ∧ rest = s) ∨ beneath
  | _, _, .observed b, rest => (b = a ∧ rest = s) ∨ beneath
  | _, _, _, _ => beneath

/-- An activation waits on a stack `s`, somewhere on another stack. -/
def Stack.Seats (a : Activation) : {α : Kind} → Stack σ α goal → (s : Stack σ .exit goal) → Prop
  | _, .nil, _ => False
  | _, .cons t rest, s => t.Seats a s (rest.Seats a s) rest

theorem Stack.Seats.beneath {a : Activation} {s : Stack σ .exit goal} {r : Stack σ β goal}
    (h : r.Seats a s) (t : Task σ α β) : (Stack.cons t r).Seats a s := by
  cases t with
  | called | observed => exact .inr h
  | _ => exact h

/-- An activation runs or waits on a stack. -/
def State.Seats (a : Activation) (s : Stack σ .exit goal) : State σ goal → Prop
  | .counting b r | .executing b r => (b = a ∧ r = s) ∨ r.Seats a s
  | .running _ r | .calling _ _ r | .returning _ r | .panicking r => r.Seats a s
  | .crashed => False

namespace Config

/-- An activation with `n` frames has just begun, with the limit of its context. -/
structure Begun (m : Store σ) (n : Nat) (a : Activation) (s : Stack σ .exit goal)
    (Y : Config σ goal) : Prop where
  state : Y.state = .counting a s
  limit : a.limit = (m.context a.context).frameLimit
  frames : a.frames.length = n

/-- The next step runs the frames of a continuation again. -/
def Restores (X : Config σ goal) (frames : List Frame) : Prop :=
  ∃ k v site s m, X.state = .calling (.continuation k v) site s ∧
    X.store.takeFrames k = .ok (frames, m)

variable (host : Host σ) (thread : Id .thread) {m : Store σ} {a : Activation}
  {s : Stack σ .exit goal}

theorem seats_follow {flow : Flow} {b : Activation} {r : Stack σ .exit goal} (c : Id .context)
    (hflow : flow.Continues b) (hbound : flow.Bounded (max b.limit b.frames.length))
    (h : (follow m c flow r).state.Seats a s) : (r = s ∧ b.GoesOn a) ∨ r.Seats a s := by
  cases flow with
  | next b' =>
    rcases h with ⟨rfl, rfl⟩ | h
    · exact .inl ⟨rfl, hflow.goesOn hbound⟩
    · exact .inr h
  | leave e => exact .inr h

theorem seats_execute {b : Activation} {r : Stack σ .exit goal}
    (h : (execute m b r).state.Seats a s) : (r = s ∧ b.GoesOn a) ∨ r.Seats a s := by
  have hmove := b.execute_continues m
  have hbound := b.bounded_execute m
  unfold execute at h
  split at h
  · next heq =>
    rw [heq] at hmove hbound
    exact seats_follow _ hmove hbound h
  · next heq =>
    rw [heq] at hmove hbound
    rcases h with ⟨rfl, rfl⟩ | h
    · exact .inl ⟨rfl, hmove.1.goesOn hbound⟩
    · exact .inr h

theorem seats_beginActivation {c : Id .context} {frames : List Frame} {isGenerator : Bool}
    {r : Stack σ .exit goal} (h : (beginActivation m c frames isGenerator r).state.Seats a s) :
    r.Seats a s ∨ Begun m frames.length a s (beginActivation m c frames isGenerator r) := by
  rcases h with ⟨rfl, rfl⟩ | h
  · exact .inr ⟨rfl, rfl, rfl⟩
  · exact .inl h

theorem Begun.of_contexts_eq {m' : Store σ} {n : Nat} {Y : Config σ goal} (h : Begun m' n a s Y)
    (hm : m'.contexts = m.contexts) : Begun m n a s Y where
  state := h.state
  limit := by
    rw [h.limit, Store.context, hm]
    rfl
  frames := h.frames

/-- Who sits where once something has begun on a stack `r`: whoever sat there before, or an
activation that has begun with `n` frames. -/
abbrev BeginsOn (m : Store σ) (n : Nat) (a : Activation) (s : Stack σ .exit goal)
    (r : Stack σ α goal) (Y : Config σ goal) : Prop :=
  Y.state.Seats a s → r.Seats a s ∨ Begun m n a s Y

theorem seats_interpret (e : Executable) (site : CallSite) (r : Stack σ .completion goal) :
    BeginsOn m 1 a s r (interpret m e site r) := by
  intro h
  unfold interpret at h ⊢
  dsimp only at h ⊢
  split at h
  · exact .inl h
  · next hplain =>
    rw [if_neg hplain]
    exact seats_beginActivation (r := .cons .callEnd r) h

theorem seats_beginOutermost (f : Callable) (site : CallSite) (isStrict : Bool)
    (r : Stack σ .completion goal) :
    (beginOutermost host m f site isStrict r).state.Seats a s → r.Seats a s := by
  intro h
  unfold beginOutermost at h
  split at h
  · exact h
  · dsimp only at h
    split at h <;> exact h

theorem seats_beginCapturing (f : Callable) (c : Id .context) (scope : Id .scope)
    (args : List Value) (isStrict : Bool) (r : Stack σ .completion goal) :
    (beginCapturing host m f c scope args isStrict r).state.Seats a s → r.Seats a s :=
  seats_beginOutermost host (m := m.modifyContext c fun cx => { cx with acceptsCaptures := true })
    f _ isStrict (.cons (.restoreCaptures c (m.context c).acceptsCaptures) r)

theorem seats_beginStep (g : Generator) (op : GeneratorOp) (c : Id .context) (v : Value)
    (r : Stack σ .step goal) : BeginsOn m 1 a s r (beginStep m g op c v r) := by
  have hput {state : GeneratorState} {frames : List Frame} (hframes : frames.length = 1)
      (h : (beginActivation { m with generators := m.generators.set g.id state } c frames true
        (.cons (.bodyEnd g) r)).state.Seats a s) :
      r.Seats a s ∨ Begun m 1 a s (beginActivation
        { m with generators := m.generators.set g.id state } c frames true
        (.cons (.bodyEnd g) r)) := by
    rcases seats_beginActivation (r := .cons (.bodyEnd g) r) h with h | h
    · exact .inl h
    · exact .inr ((hframes ▸ h).of_contexts_eq rfl)
  -- The body is one frame, also after a value was thrown into it or it was told to return.
  have hone {frame : Frame} {flow : Flow} {b : Activation}
      (hflow : flow.Continues ⟨c, [frame], (m.context c).frameLimit, true⟩)
      (hbound : flow.Bounded 1) (hb : flow = .next b) : b.frames.length = 1 := by
    subst hb
    obtain ⟨f, callers, rfl⟩ := hflow
    exact Nat.le_antisymm hbound (Nat.succ_le_succ (Nat.zero_le _))
  unfold BeginsOn beginStep
  dsimp only
  split
  · cases op <;> exact .inl
  · split
    · exact .inl
    · split
      · cases op with
        | next => exact hput rfl
        | throw =>
          dsimp only
          split
          · next b hb =>
            exact hput (hone (Activation.throw_continues _ _) (Activation.bounded_throw _ _) hb)
          · exact .inl
        | «return» =>
          dsimp only
          split
          · next b hb =>
            exact hput (hone (Activation.returnValue_continues _ _)
              (Activation.bounded_returnValue _ _) hb)
          · exact .inl
      · cases op with
        | next => exact hput rfl
        | throw | «return» => exact .inl

theorem seats_beginResumption (via : Executable) (g : Generator) (op : GeneratorOp)
    (c : Id .context) (scope : Id .scope) (v : Value) (r : Stack σ .step goal) :
    BeginsOn m 1 a s r (beginResumption host m via g op c scope v r) := by
  unfold BeginsOn beginResumption
  split
  · exact .inl
  · split
    · exact seats_beginStep g op c v r
    · intro h
      exact .inl (seats_beginOutermost host _ _ _ (.cons (.reportStep _) r) h)

/-- A continuation begins with the frames that it holds. -/
theorem seats_beginContinuation (k : Id .continuation) (v : Value) (c : Id .context)
    (r : Stack σ .completion goal) (h : (beginContinuation m k v c r).state.Seats a s) :
    r.Seats a s ∨ ∃ frames m', m.takeFrames k = .ok (frames, m') ∧
      Begun m frames.length a s (beginContinuation m k v c r) := by
  cases htake : m.takeFrames k with
  | error cause =>
    simp only [beginContinuation, htake] at h
    exact .inl h
  | ok taken =>
    obtain ⟨frames, m'⟩ := taken
    cases frames with
    | nil =>
      simp only [beginContinuation, htake] at h
      exact .inl h
    | cons frame callers =>
      simp only [beginContinuation, htake] at h ⊢
      obtain ⟨continuations, rfl⟩ := Store.takeFrames_frame htake
      rcases seats_beginActivation (r := .cons .callEnd r) h with h | h
      · exact .inl h
      · exact .inr ⟨_, _, rfl, h.of_contexts_eq rfl⟩

theorem seats_beginCall (f : Callable) (site : CallSite) (r : Stack σ .completion goal)
    (h : (beginCall host m f site r).state.Seats a s) :
    r.Seats a s ∨ ∃ n, Begun m n a s (beginCall host m f site r) ∧
      (n = 1 ∨ ∃ frames, Restores (⟨m, .calling f site r⟩ : Config σ goal) frames ∧
        frames.length = n) := by
  cases f with
  | executable e =>
    simp only [beginCall] at h ⊢
    split at h
    · next htop =>
      rw [if_pos htop]
      rcases seats_interpret e site r h with h | h
      · exact .inl h
      · exact .inr ⟨1, h, .inl rfl⟩
    · exact .inl (seats_beginOutermost host _ site _ r h)
  | hostFunction f => exact .inl h
  | resumption i g op =>
    rcases seats_beginStep g op site.context _ (.cons (.recordStep i) r) h with h | h
    · exact .inl h
    · exact .inr ⟨1, h.of_contexts_eq rfl, .inl rfl⟩
  | continuation k v =>
    rcases seats_beginContinuation k v site.context r h with h | ⟨frames, m', htake, h⟩
    · exact .inl h
    · exact .inr ⟨_, h, .inr ⟨frames, ⟨k, v, site, r, m', rfl, htake⟩, rfl⟩⟩

theorem seats_beginMake (f : Id .factory) (r : Stack σ .made goal) :
    (beginMake host m f r).state.Seats a s → r.Seats a s := by
  unfold beginMake
  split <;> exact id

theorem seats_beginBind (c : Id .context) (r : Stack σ .entered goal) :
    (beginBind thread m c r).state.Seats a s → r.Seats a s := by
  unfold beginBind
  split <;> exact id

theorem seats_beginEnter (f : Id .factory) (requested : Option (Id .context))
    (r : Stack σ .entered goal) :
    (beginEnter host thread m f requested r).state.Seats a s → r.Seats a s := by
  unfold beginEnter
  split
  · exact id
  · split
    · exact seats_beginBind thread _ r
    · exact seats_beginMake host f (.cons .bindMade r)

theorem seats_beginExit (r : Stack σ .left goal) :
    (beginExit thread m r).state.Seats a s → r.Seats a s := by
  unfold beginExit
  split
  · exact id
  · split <;> exact id

theorem seats_beginCapturingCall (e : Executable) (c : Id .context) (scope : Id .scope)
    (args : List Value) (r : Stack σ .completion goal) :
    (beginAction.beginCapturingCall host m e c scope args r).state.Seats a s → r.Seats a s := by
  unfold beginAction.beginCapturingCall
  split
  · exact id
  · exact seats_beginCapturing host _ _ _ _ _ r

theorem seats_beginAction (action : Action) (r : Stack σ action.kind goal) :
    BeginsOn m 1 a s r (beginAction host thread m action r) := by
  cases action with
  | call f site => exact .inl
  | callOutermost f site isStrict => exact fun h => .inl (seats_beginOutermost host _ _ _ r h)
  | execute e c scope =>
    unfold BeginsOn
    simp only [beginAction]
    split <;> exact .inl
  | executeCapturing e c scope =>
    unfold BeginsOn
    simp only [beginAction]
    split
    · exact .inl
    · exact fun h => .inl (seats_beginCapturingCall host _ _ _ _ r h)
  | callCapturing e c scope args => exact fun h => .inl (seats_beginCapturingCall host _ _ _ _ r h)
  | resume k c scope v =>
    unfold BeginsOn
    simp only [beginAction]
    split
    · exact .inl
    · split
      · exact .inl
      · exact fun h => .inl (seats_beginCapturing host _ _ _ _ _ r h)
  | step via g op c scope v => exact seats_beginResumption host via g op c scope v r
  | enter f requested => exact fun h => .inl (seats_beginEnter host thread f requested r h)
  | exit => exact fun h => .inl (seats_beginExit thread r h)
  | makeContext f => exact fun h => .inl (seats_beginMake host f r h)

theorem seats_endBody (g : Generator) (e : Except Abrupt Exit) (r : Stack σ .step goal) :
    (endBody m g e r).state.Seats a s → r.Seats a s := by
  unfold endBody
  dsimp only
  split <;> exact id

/-- A task that takes a result goes on with the activation that waited in it, if one did. -/
theorem seats_take (t : Task σ α β) (x : α.Result) (r : Stack σ β goal)
    (h : (take host thread m t x r).state.Seats a s) :
    ∃ b, (Stack.cons t r).Seats b s ∧ b.GoesOn a := by
  have hkept (h : r.Seats a s) : ∃ b, (Stack.cons t r).Seats b s ∧ b.GoesOn a :=
    ⟨a, h.beneath t, .refl a⟩
  cases t with
  | called b =>
    have hfollow (flow : Flow) (m' : Store σ) (hflow : flow.Continues b)
        (hbound : flow.Bounded b.frames.length)
        (h : (follow m' b.context flow r).state.Seats a s) :
        ∃ b', (Stack.cons (.called b) r).Seats b' s ∧ b'.GoesOn a := by
      rcases seats_follow _ hflow (hbound.mono (Nat.le_max_right _ _)) h with ⟨rfl, hgo⟩ | h
      · exact ⟨b, .inl ⟨rfl, rfl⟩, hgo⟩
      · exact hkept h
    cases x with
    | ok v => exact hfollow _ _ (b.deliver_continues v) (b.bounded_deliver v) h
    | error e => exact hfollow _ _ (b.fail_continues m e) (b.bounded_fail e m) h
  | observed b =>
    cases x with
    | ok u =>
      rcases h with ⟨rfl, rfl⟩ | h
      · exact ⟨b, .inl ⟨rfl, rfl⟩, .refl b⟩
      · exact hkept h
    | error reason => exact hkept h
  | flattenResult | recordStep | reportStep | bracketBody => cases x <;> exact hkept h
  | callEnd =>
    cases x with
    | ok exit => cases exit <;> exact hkept h
    | error e => exact hkept h
  | bodyEnd g => exact hkept (seats_endBody g x r h)
  | bindMade =>
    simp only [take] at h
    split at h
    · exact hkept h
    · exact hkept (seats_beginBind thread _ r h)
  | notifying event c rest => cases rest <;> exact hkept h
  | release => exact hkept (seats_beginExit thread (.cons .released r) h)
  | clearTopCall | restoreCaptures | program | entered | left | released | repanic | guarded =>
    exact hkept h

theorem seats_passPanic (t : Task σ α β) (r : Stack σ β goal)
    (h : (passPanic thread m t r).state.Seats a s) : (Stack.cons t r).Seats a s := by
  cases t with
  | called | observed => exact .inr h
  | release => exact seats_beginExit thread (.cons .repanic r) h
  | repanic => exact absurd h id
  | _ => exact h

theorem seats_count {b : Activation} {r : Stack σ .exit goal}
    (h : (count host m b r).state.Seats a s) : (b = a ∧ r = s) ∨ r.Seats a s := by
  unfold count at h
  dsimp only at h
  split at h <;> exact h

/-- After a step an activation on a stack is the one that was there before, gone on, or has just
begun, with one frame or with those of a continuation. -/
theorem step_seats {X : Config σ goal} (h : (X.step host thread).state.Seats a s) :
    (∃ b, X.state.Seats b s ∧ b.GoesOn a) ∨
      ∃ n, Begun X.store n a s (X.step host thread) ∧
        (n = 1 ∨ ∃ frames, X.Restores frames ∧ frames.length = n) := by
  obtain ⟨m, state⟩ := X
  cases state with
  | running p r =>
    have hbegins {κ : Kind} {r' : Stack σ κ goal} {Y : Config σ goal}
        (hr : r'.Seats a s → r.Seats a s) (hY : BeginsOn m 1 a s r' Y) (h : Y.state.Seats a s) :
        (∃ b, r.Seats b s ∧ b.GoesOn a) ∨ ∃ n, Begun m n a s Y ∧
          (n = 1 ∨ ∃ frames, Restores (⟨m, .running p r⟩ : Config σ goal) frames ∧
            frames.length = n) := by
      rcases hY h with h | h
      · exact .inl ⟨a, hr h, .refl a⟩
      · exact .inr ⟨1, h, .inl rfl⟩
    cases p with
    | act action k =>
      exact hbegins (Y := beginAction host thread m action (.cons (.program k) r)) id
        (seats_beginAction host thread action (.cons (.program k) r)) h
    | bracket f body k =>
      exact .inl ⟨a, seats_beginEnter host thread f none
        (.cons (.bracketBody body) (.cons (.program k) r)) h, .refl a⟩
    | finish | panic | ask | guard => exact .inl ⟨a, h, .refl a⟩
  | calling f site r =>
    rcases seats_beginCall host f site r h with h | h
    · exact .inl ⟨a, h, .refl a⟩
    · exact .inr h
  | counting b r =>
    rcases seats_count host h with ⟨rfl, rfl⟩ | h
    · exact .inl ⟨b, .inl ⟨rfl, rfl⟩, .refl b⟩
    · exact .inl ⟨a, .inr h, .refl a⟩
  | executing b r =>
    rcases seats_execute h with ⟨rfl, hgo⟩ | h
    · exact .inl ⟨b, .inl ⟨rfl, rfl⟩, hgo⟩
    · exact .inl ⟨a, .inr h, .refl a⟩
  | returning x r =>
    cases r with
    | nil => exact .inl ⟨a, h, .refl a⟩
    | cons t r => exact .inl (seats_take host thread t x r h)
  | panicking r =>
    cases r with
    | nil => exact .inl ⟨a, h, .refl a⟩
    | cons t r => exact .inl ⟨a, seats_passPanic thread t r h, .refl a⟩
  | crashed => exact absurd h id

end Config

end ScriptMachine
