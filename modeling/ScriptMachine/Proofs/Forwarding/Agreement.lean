import ScriptMachine.Proofs.Capture.Transparency
import ScriptMachine.Proofs.Forwarding.Grafted

/-!
# Calls within an activation and calls through the host

A call instruction that names an interpreted function pushes a frame; one that names a host
function leaves the loop, and a host function that only calls the same interpreted function
begins an activation of its own for it. `Config.hostCall_agrees` says that the caller cannot
tell: the same value or error comes to the same frames in the same store, after the same number
of counted instructions.
-/

namespace ScriptMachine

variable {σ : Type} {α β goal : Kind}

/-! ## The outermost activation -/

/-- The activation that a task holds. -/
def Task.activation? : Task σ α β → Option Activation
  | .called a | .observed a => some a
  | _ => none

/-- The outermost activation on a stack. -/
def Stack.outermost? : {α : Kind} → Stack σ α goal → Option Activation
  | _, .nil => none
  | _, .cons t rest => rest.outermost?.or t.activation?

/-- The outermost activation that is under way. -/
def State.outermost? : State σ goal → Option Activation
  | .counting a s | .executing a s => s.outermost?.or (some a)
  | .running _ s | .calling _ _ s | .returning _ s | .panicking s => s.outermost?
  | .crashed => none

theorem Stack.outermost?_append (r : Stack σ α β) (t : Task σ β goal) {a : Activation}
    (ht : t.activation? = some a) : (r.append (.cons t .nil)).outermost? = some a := by
  induction r with
  | nil => exact ht
  | cons u rest ih => exact (congrArg (Option.or · u.activation?) (ih t ht)).trans rfl

theorem State.outermost?_onto {state : State σ α} (h : state ≠ .crashed) (t : Task σ α goal)
    {a : Activation} (ht : t.activation? = some a) :
    (state.onto (.cons t .nil)).outermost? = some a := by
  cases state with
  | counting b s => exact (congrArg (Option.or · (some b)) (s.outermost?_append t ht)).trans rfl
  | executing b s => exact (congrArg (Option.or · (some b)) (s.outermost?_append t ht)).trans rfl
  | running p s => exact s.outermost?_append t ht
  | calling f site s => exact s.outermost?_append t ht
  | returning x s => exact s.outermost?_append t ht
  | panicking s => exact s.outermost?_append t ht
  | crashed => exact absurd rfl h

namespace Config

/-- A callee of `a` runs: there are frames on top of those of `a`. -/
def InCall (a : Activation) (X : Config σ .exit) : Prop :=
  ∃ b : Activation, b.frames ≠ [] ∧ X.state.outermost? = some (a.graft b)

/-- The state says that an instruction is to be counted. -/
def isCounting (X : Config σ goal) : Bool :=
  match X.state with
  | .counting _ _ => true
  | _ => false

/-- The number of instructions counted in a number of steps. -/
def counted (host : Host σ) (thread : Id .thread) : Nat → Config σ goal → Nat
  | 0, _ => 0
  | n + 1, X => X.isCounting.toNat + counted host thread n (X.step host thread)

variable {host : Host σ} {thread : Id .thread} {a : Activation} {A B : Config σ .exit}

theorem Grafts.inCall (h : Grafts a A B) : A.InCall a := by
  cases h with
  | counting hb => exact ⟨_, hb.callee, rfl⟩
  | executing hb => exact ⟨_, hb.callee, rfl⟩
  | called hb _ _ _ hstate => exact ⟨_, hb.callee, State.outermost?_onto hstate _ rfl⟩
  | observed hb _ _ _ hstate => exact ⟨_, hb.callee, State.outermost?_onto hstate _ rfl⟩

theorem isCounting_onto (X : Config σ α) (s : Stack σ α goal) :
    (X.onto s).isCounting = X.isCounting := by
  obtain ⟨m, state⟩ := X
  cases state <;> rfl

theorem Grafts.isCounting_eq (h : Grafts a A B) : A.isCounting = B.isCounting := by
  cases h with
  | counting => rfl
  | executing => rfl
  | @called Z => rw [isCounting_onto, isCounting_onto]; rfl
  | @observed Z => rw [isCounting_onto, isCounting_onto]; rfl

theorem ending?_onto_cons (X : Config σ α) (h : X.state ≠ .crashed) (t : Task σ α β)
    (s : Stack σ β goal) : (X.onto (.cons t s)).ending? = none := by
  obtain ⟨m, state⟩ := X
  cases state with
  | crashed => exact absurd rfl h
  | returning x r => cases r <;> rfl
  | panicking r => cases r <;> rfl
  | running | calling | counting | executing => rfl

theorem Grafts.ending?_eq_none (h : Grafts a A B) : A.ending? = none ∧ B.ending? = none := by
  cases h with
  | counting => exact ⟨rfl, rfl⟩
  | executing => exact ⟨rfl, rfl⟩
  | called _ _ _ _ hstate =>
    exact ⟨ending?_onto_cons _ hstate _ _, ending?_onto_cons _ hstate _ _⟩
  | observed _ _ _ _ hstate =>
    exact ⟨ending?_onto_cons _ hstate _ _, ending?_onto_cons _ hstate _ _⟩

theorem counted_add (n k : Nat) (X : Config σ goal) :
    counted host thread (n + k) X =
      counted host thread n X + counted host thread k (X.run host thread n) := by
  induction n generalizing X with
  | zero => rw [Nat.zero_add, counted, Nat.zero_add]; rfl
  | succ n ih => rw [Nat.succ_add, counted, counted, ih, Nat.add_assoc]; rfl

theorem counted_onto (s : Stack σ α goal) {X : Config σ α} {n : Nat}
    (h : ∀ k < n, (X.run host thread k).ending? = none) :
    counted host thread n (X.onto s) = counted host thread n X := by
  induction n generalizing X with
  | zero => rfl
  | succ n ih =>
    have hfirst : X.ending? = none := h 0 (Nat.zero_lt_succ n)
    have hrest : ∀ k < n, ((X.step host thread).run host thread k).ending? = none :=
      fun k hk => h (k + 1) (Nat.succ_lt_succ hk)
    rw [counted, counted, isCounting_onto, step_onto host thread s hfirst, ih hrest]

theorem hasRoom_onto (X : Config σ α) (s : Stack σ α goal) : (X.onto s).hasRoom = X.hasRoom := by
  obtain ⟨m, state⟩ := X
  cases state <;> rfl

/-! ## Whole calls -/

/-- The two stay in step for a while, or the callee has left on the way. -/
theorem run_grafts (hhost : host.IsBlind a.context) (h : Grafts a A B)
    (hroom : ∀ n, (∀ k ≤ n, (A.run host thread k).InCall a) → (A.run host thread n).hasRoom = true)
    (hroom' : ∀ n, (∀ k < n, (B.run host thread k).ending? = none) →
      (B.run host thread n).hasRoom = true)
    (hcaptures : ∀ n, (∀ k ≤ n, (A.run host thread k).InCall a) →
      (A.run host thread n).CapturesNothing a.context) (n : Nat) :
    (∀ k ≤ n, Grafts a (A.run host thread k) (B.run host thread k)) ∨
      ∃ k < n, (∀ i ≤ k, Grafts a (A.run host thread i) (B.run host thread i)) ∧
        Leaves host thread a (A.run host thread (k + 1)) (B.run host thread (k + 1)) := by
  induction n with
  | zero =>
    left
    intro k hk
    obtain rfl : k = 0 := Nat.le_zero.mp hk
    exact h
  | succ n ih =>
    rcases ih with hall | ⟨k, hk, hleaves⟩
    · have hcall : ∀ k ≤ n, (A.run host thread k).InCall a := fun k hk => (hall k hk).inCall
      have hopen : ∀ k < n, (B.run host thread k).ending? = none := fun k hk =>
        (hall k (Nat.le_of_lt hk)).ending?_eq_none.2
      rcases step_grafts hhost (hall n (Nat.le_refl n)) (hroom n hcall) (hroom' n hopen)
        (hcaptures n hcall) with hgrafts | hleaves
      · left
        intro k hk
        rcases Nat.lt_or_ge n k with hlt | hge
        · obtain rfl : k = n + 1 := Nat.le_antisymm hk hlt
          rw [run_succ, run_succ]
          exact hgrafts
        · exact hall k hge
      · exact .inr ⟨n, Nat.lt_succ_self n, hall, by rw [run_succ, run_succ]; exact hleaves⟩
    · exact .inr ⟨k, Nat.lt_succ_of_lt hk, hleaves⟩

/-- As long as the two are in step they count the same instructions. -/
theorem counted_grafts {n : Nat}
    (h : ∀ k < n, Grafts a (A.run host thread k) (B.run host thread k)) :
    counted host thread n A = counted host thread n B := by
  induction n generalizing A B with
  | zero => rfl
  | succ n ih =>
    have hfirst : Grafts a A B := h 0 (Nat.zero_lt_succ n)
    rw [counted, counted, hfirst.isCounting_eq, ih fun k hk => h (k + 1) (Nat.succ_lt_succ hk)]

end Config

/-! ## Call instructions -/

/-- A frame is about to call a value; `g` is what is left of it. -/
def Frame.IsCalling (f : Frame) (callee receiver : Value) (args : List Value) (g : Frame) : Prop :=
  ∃ (count : UInt16) (f₁ f₂ f₃ : Frame), f.fetch? = some (.call count, f₁) ∧
    f₁.popMany count.toNat = (args, f₂) ∧ f₂.pop = (receiver, f₃) ∧ f₃.pop = (callee, g)

namespace Activation

variable {a : Activation} {m : Store σ} {f g : Frame} {callers : List Frame} {receiver : Value}
  {args : List Value}

/-- The frame of an interpreted function is pushed, if there is room for it. -/
theorem execute_of_isCalling {e : Executable}
    (hf : f.IsCalling (.executable e) receiver args g) (hplain : e.routine.isGenerator = false)
    (hroom : ({ a with frames := f :: callers } : Activation).overflows m = false) :
    ({ a with frames := f :: callers } : Activation).execute m =
      (.flow (.next { a with
        frames := Frame.enter e g.scope receiver args :: g :: callers }), m) := by
  obtain ⟨count, f₁, f₂, f₃, hfetch, hargs, hreceiver, hcallee⟩ := hf
  by_cases hfull : a.limit ≤ (g :: callers).length
  · have hover : ({ a with frames := f :: callers } : Activation).execute m =
        (.flow (.leave (.error (.fault (.stackOverflow a.limit)))), m) := by
      simp only [execute, hfetch, perform, call, hargs, hreceiver, hcallee, hplain,
        Bool.false_eq_true, if_false, if_pos hfull]
    rw [overflows_of_eq (congrArg Prod.fst hover)] at hroom
    cases hroom
  · simp only [execute, hfetch, perform, call, hargs, hreceiver, hcallee, hplain,
      Bool.false_eq_true, if_false, if_neg hfull]

/-- A host function is waited for. -/
theorem execute_of_isCalling_host {h : HostFunction}
    (hf : f.IsCalling (.hostFunction h) receiver args g) :
    ({ a with frames := f :: callers } : Activation).execute m =
      (.call { a with frames := g :: callers } (.hostFunction h)
        ⟨a.context, g.scope, receiver, args⟩, m) := by
  obtain ⟨count, f₁, f₂, f₃, hfetch, hargs, hreceiver, hcallee⟩ := hf
  simp only [execute, hfetch, perform, call, hargs, hreceiver, hcallee]

end Activation

namespace Config

variable (host : Host σ) (thread : Id .thread)

/-- A call that an activation makes is not over yet after a number of steps. -/
def CallLasts (a : Activation) (A : Config σ .exit) (n : Nat) : Prop :=
  ∀ k, 0 < k → k ≤ n → (A.run host thread k).InCall a

/-- Two calls come to the same for their caller `a` and the stack beneath it. Each ends in the
same number of counted instructions, and whatever it ends with is taken by the same frames in the
same store; or a panic leaves the same store, or the machine crashes. Or neither is ever over:
`A` is the first caller on a stack of its own, `N` is what the second waits for. -/
inductive CallsAgree (a : Activation) (s : Stack σ .exit goal) (X Y : Config σ goal)
    (A : Config σ .exit) (N : Config σ .completion) : Prop
  | returned (i j : Nat) (m : Store σ) (o : Outcome) (hlasts : CallLasts host thread a A i)
      (hX : X.run host thread (i + 1) = take host thread m (.called a) o s)
      (hY : Y.run host thread j = give m .completion o (.cons (.called a) s))
      (hcounted : counted host thread (i + 1) X = counted host thread j Y)
  | panicked (i j : Nat) (m : Store σ) (hX : X.run host thread i = ⟨m, .panicking s⟩)
      (hY : Y.run host thread j = ⟨m, .panicking s⟩)
      (hcounted : counted host thread i X = counted host thread j Y)
  | crashed (i j : Nat) (hX : (X.run host thread i).state = .crashed)
      (hY : (Y.run host thread j).state = .crashed)
  | forever (hA : ∀ n, CallLasts host thread a A n)
      (hN : ∀ n, (N.run host thread n).ending? = none)

variable {host thread} {a : Activation} {m : Store σ}

/-- The activation of its own in which a function that is called runs. -/
theorem beginCall_of_inTopCall {e : Executable} (site : CallSite)
    (hplain : e.routine.isGenerator = false)
    (htop : (m.context site.context).topCall.isSome = true) (s : Stack σ .completion goal) :
    beginCall host m (.executable e) site s =
      (⟨m.raise site.context, .counting
        { context := site.context
          frames := [Frame.enter e site.scope site.receiver site.args]
          limit := (m.context site.context).frameLimit
          isGenerator := false } (.cons .callEnd s)⟩ : Config σ goal) := by
  simp only [beginCall, htop, if_true, interpret, hplain, Bool.false_eq_true, if_false]
  rfl

variable (host thread m) in
/-- A host function that only calls comes to its call without an instruction being counted. -/
theorem run_forwarded {f g : Frame} (callers : List Frame) {receiver : Value}
    {args : List Value} {e : Executable} {h : HostFunction}
    (hf : f.IsCalling (.hostFunction h) receiver args g)
    (hforwards : host.run h.id ⟨a.context, g.scope, receiver, args⟩ =
      .act (.call (.executable e) ⟨a.context, g.scope, receiver, args⟩)
        (.finish (κ := .completion))) (s : Stack σ .exit goal) :
    (⟨m, .executing { a with frames := f :: callers } s⟩ : Config σ goal).run host thread 3 =
      ⟨m, .calling (.executable e) ⟨a.context, g.scope, receiver, args⟩
        (.cons (.program (.finish (κ := .completion)))
          (.cons (.called { a with frames := g :: callers }) s))⟩ ∧
    counted host thread 3
      (⟨m, .executing { a with frames := f :: callers } s⟩ : Config σ goal) = 0 := by
  have hcalling : (⟨m, .executing { a with frames := f :: callers } s⟩ : Config σ goal).step host
      thread = ⟨m, .calling (.hostFunction h) ⟨a.context, g.scope, receiver, args⟩
        (.cons (.called { a with frames := g :: callers }) s)⟩ := by
    show execute m { a with frames := f :: callers } s = _
    rw [execute, Activation.execute_of_isCalling_host hf]
  have hrunning : (⟨m, .calling (.hostFunction h) ⟨a.context, g.scope, receiver, args⟩
      (.cons (.called { a with frames := g :: callers }) s)⟩ : Config σ goal).step host thread =
      ⟨m, .running (.act (.call (.executable e) ⟨a.context, g.scope, receiver, args⟩)
        (.finish (κ := .completion))) (.cons (.called { a with frames := g :: callers }) s)⟩ := by
    show (⟨m, .running (host.run h.id _) _⟩ : Config σ goal) = _
    rw [hforwards]
  constructor
  · rw [run, run, run, hcalling, hrunning]
    rfl
  · rw [counted, counted, counted, hcalling, hrunning]
    rfl

/-- What waits for a callee in an activation of its own, if a host function began it. -/
def forwarding (a : Activation) (s : Stack σ .exit goal) : Stack σ .exit goal :=
  .cons .callEnd (.cons (.program (.finish (κ := .completion))) (.cons (.called a) s))

/-- Two calls that are in step until the callee leaves come to the same. -/
theorem callsAgree_of_leaves {X Y : Config σ goal} {s : Stack σ .exit goal}
    {N : Config σ .completion} {A₁ B : Config σ .exit} {k : Nat} (hX₀ : X.isCounting = false)
    (hX : X.step host thread = A₁.onto s) (hY₀ : counted host thread 4 Y = 0)
    (hY : Y.run host thread 4 = B.onto (forwarding a s))
    (hgrafts : ∀ i ≤ k, Grafts a (A₁.run host thread i) (B.run host thread i))
    (hleaves : Leaves host thread a (A₁.run host thread (k + 1)) (B.run host thread (k + 1)))
    (hlasts : CallLasts host thread a A (k + 1)) : CallsAgree host thread a s X Y A N := by
  have hopen : ∀ i < k + 1, (A₁.run host thread i).ending? = none := fun i hi =>
    (hgrafts i (Nat.le_of_lt_succ hi)).ending?_eq_none.1
  have hopen' : ∀ i < k + 1, (B.run host thread i).ending? = none := fun i hi =>
    (hgrafts i (Nat.le_of_lt_succ hi)).ending?_eq_none.2
  have hXrun : X.run host thread (k + 1 + 1) = (A₁.run host thread (k + 1)).onto s := by
    rw [run, hX]
    exact run_onto host thread s hopen
  have hYrun : Y.run host thread (4 + (k + 1)) =
      (B.run host thread (k + 1)).onto (forwarding a s) := by
    rw [run_add, hY]
    exact run_onto host thread _ hopen'
  have hcounted : counted host thread (k + 1 + 1) X = counted host thread (4 + (k + 1)) Y := by
    rw [counted, hX₀, hX, counted_onto s hopen, counted_add 4, hY₀, hY, counted_onto _ hopen',
      counted_grafts fun i hi => hgrafts i (Nat.le_of_lt_succ hi)]
    rfl
  -- three more steps take what the callee left with back to the caller
  have hmore : counted host thread (4 + (k + 1) + 3) Y = counted host thread (4 + (k + 1)) Y +
      counted host thread 3 ((B.run host thread (k + 1)).onto (forwarding a s)) := by
    rw [counted_add, hYrun]
  have hYmore : Y.run host thread (4 + (k + 1) + 3) =
      ((B.run host thread (k + 1)).onto (forwarding a s)).run host thread 3 := by
    rw [run_add, hYrun]
  generalize A₁.run host thread (k + 1) = A' at hleaves hXrun
  generalize B.run host thread (k + 1) = B' at hleaves hYrun hmore hYmore
  cases hleaves with
  | returned m v =>
    refine .returned (k + 1) (4 + (k + 1) + 3) m (.ok v) hlasts ?_ hYmore (hcounted.trans ?_)
    · exact hXrun.trans (take_append host thread m (.called a) (.ok v) .nil s).symm
    · exact hmore.symm
  | failed m e =>
    refine .returned (k + 1) (4 + (k + 1) + 3) m (.error e) hlasts ?_ hYmore (hcounted.trans ?_)
    · exact hXrun.trans (take_append host thread m (.called a) (.error e) .nil s).symm
    · exact hmore.symm
  | panicked m => exact .panicked _ _ _ hXrun hYmore (hcounted.trans hmore.symm)
  | crashed m m' => exact .crashed _ _ (congrArg Config.state hXrun) (congrArg Config.state hYrun)

/-- Take a caller that is about to call, in a store in which an activation of its context is
under way, and a host function that only calls the function `e` that is no generator function,
with the same scope, receiver and arguments.

If the call instruction names `e`, or if it names the host function, the calls agree: the same
result or error comes to the same frames in the same store, after the same number of counted
instructions. This presumes that there is always room for frames, that nothing is captured, and
that host code is blind to the number of activations under way. -/
theorem hostCall_agrees {f f' g : Frame} {callers : List Frame} {e : Executable}
    {h : HostFunction} {receiver : Value} {args : List Value} {A : Config σ .exit}
    {N : Config σ .completion} (ha : a.frames = g :: callers)
    (hf : f.IsCalling (.executable e) receiver args g)
    (hf' : f'.IsCalling (.hostFunction h) receiver args g)
    (hplain : e.routine.isGenerator = false)
    (hforwards : host.run h.id ⟨a.context, g.scope, receiver, args⟩ =
      .act (.call (.executable e) ⟨a.context, g.scope, receiver, args⟩)
        (.finish (κ := .completion)))
    (hknown : m.Knows a.context) (hdepth : 0 < (m.context a.context).depth)
    (htop : (m.context a.context).topCall.isSome = true) (hblind : host.IsBlind a.context)
    (hA : A = ⟨m, .executing { a with frames := f :: callers } .nil⟩)
    (hN : N = ⟨m, .calling (.executable e) ⟨a.context, g.scope, receiver, args⟩ .nil⟩)
    (hroom : ∀ n, CallLasts host thread a A n → (A.run host thread n).hasRoom = true)
    (hroom' : ∀ n, (N.run host thread n).hasRoom = true)
    (hcaptures : ∀ n, CallLasts host thread a A n →
      (A.run host thread n).CapturesNothing a.context) (s : Stack σ .exit goal) :
    CallsAgree host thread a s ⟨m, .executing { a with frames := f :: callers } s⟩
      ⟨m, .executing { a with frames := f' :: callers } s⟩ A N := by
  have hself : { a with frames := g :: callers } = a := by rw [← ha]
  let b : Activation :=
    { context := a.context
      frames := [Frame.enter e g.scope receiver args]
      limit := (m.context a.context).frameLimit
      isGenerator := false }
  let A₁ : Config σ .exit := ⟨m, .counting (a.graft b) .nil⟩
  let B : Config σ .exit := ⟨m.raise a.context, .counting b .nil⟩
  have hgrafts : Grafts a A₁ B :=
    .counting ⟨by rw [ha]; exact List.cons_ne_nil _ _, rfl, rfl, List.cons_ne_nil _ _⟩ hknown
      hdepth
  -- in-loop, the frame of the callee is pushed
  have hpush : ∀ {κ : Kind} (s : Stack σ .exit κ),
      (⟨m, .executing { a with frames := f :: callers } s⟩ : Config σ κ).step host thread =
        A₁.onto s := by
    intro κ s
    have hfits : ({ a with frames := f :: callers } : Activation).overflows m = false := by
      have hfirst := hroom 0 fun k hpos hle => absurd hle (Nat.not_le_of_lt hpos)
      rw [hA] at hfirst
      exact Bool.not_eq_eq_eq_not.mp hfirst
    show execute m { a with frames := f :: callers } s = _
    rw [execute, Activation.execute_of_isCalling hf hplain hfits]
    show (⟨m, .counting _ s⟩ : Config σ κ) = ⟨m, .counting (a.graft b) s⟩
    rw [Activation.graft, ha]
    rfl
  have hArun : ∀ n, A.run host thread (n + 1) = A₁.run host thread n := by
    intro n
    rw [hA, run, hpush]
    rfl
  have hlasts : ∀ n, (∀ k ≤ n, (A₁.run host thread k).InCall a) →
      CallLasts host thread a A (n + 1) := by
    intro n hcall k hpos hle
    obtain ⟨k, rfl⟩ := Nat.exists_eq_succ_of_ne_zero (Nat.pos_iff_ne_zero.mp hpos)
    rw [hArun]
    exact hcall k (Nat.le_of_succ_le_succ hle)
  -- through the host, it runs in an activation of its own
  have hbegin : ∀ {κ : Kind} (s : Stack σ .completion κ),
      (⟨m, .calling (.executable e) ⟨a.context, g.scope, receiver, args⟩ s⟩ : Config σ κ).step host
        thread = B.onto (.cons .callEnd s) := fun s =>
    beginCall_of_inTopCall ⟨a.context, g.scope, receiver, args⟩ hplain htop s
  have hNrun : ∀ n, (∀ k < n, (B.run host thread k).ending? = none) →
      N.run host thread (n + 1) = (B.run host thread n).onto (.cons .callEnd .nil) := by
    intro n hopen
    rw [hN, run, hbegin]
    exact run_onto host thread _ hopen
  obtain ⟨hforwarded, hforwarded₀⟩ := run_forwarded host thread m callers hf' hforwards s
  have hY : (⟨m, .executing { a with frames := f' :: callers } s⟩ : Config σ goal).run host thread
      4 = B.onto (forwarding a s) := by
    rw [run_succ, hforwarded, hbegin, hself]
    rfl
  have hY₀ : counted host thread 4
      (⟨m, .executing { a with frames := f' :: callers } s⟩ : Config σ goal) = 0 := by
    rw [show 4 = 3 + 1 from rfl, counted_add, hforwarded₀, hforwarded]
    rfl
  have hstep := run_grafts hblind hgrafts
    (fun n hcall => hArun n ▸ hroom (n + 1) (hlasts n hcall))
    (fun n hopen => hasRoom_onto (B.run host thread n) _ ▸ hNrun n hopen ▸ hroom' (n + 1))
    (fun n hcall => hArun n ▸ hcaptures (n + 1) (hlasts n hcall))
  by_cases hall : ∀ n, Grafts a (A₁.run host thread n) (B.run host thread n)
  · refine .forever (fun n => ?_) fun n => ?_
    · intro k hpos hle
      obtain ⟨k, rfl⟩ := Nat.exists_eq_succ_of_ne_zero (Nat.pos_iff_ne_zero.mp hpos)
      rw [hArun]
      exact (hall k).inCall
    · cases n with
      | zero => rw [hN]; rfl
      | succ n =>
        rw [hNrun n fun k _ => (hall k).ending?_eq_none.2]
        exact ending_onto _ (hall n).ending?_eq_none.2
  · obtain ⟨n, hn⟩ := Classical.not_forall.mp hall
    rcases hstep n with hgrafted | ⟨k, -, hgrafted, hleaves⟩
    · exact absurd (hgrafted n (Nat.le_refl n)) hn
    · exact callsAgree_of_leaves rfl (hpush s) hY₀ hY hgrafted hleaves
        (hlasts k fun i hi => (hgrafted i hi).inCall)

/-- Callers of calls that agree end the same way, if the call is ever over. -/
theorem CallsAgree.ending_eq {X Y A : Config σ .exit} {N : Config σ .completion}
    (h : CallsAgree host thread a .nil X Y A N) {n k i : Nat} {x y : Ending .exit}
    {z : Ending .completion} (hx : (X.run host thread n).ending? = some x)
    (hy : (Y.run host thread k).ending? = some y)
    (hz : (N.run host thread i).ending? = some z) : x = y := by
  cases h with
  | returned i j m o _ hX hY _ =>
    have hsame : X.run host thread (i + 1) = Y.run host thread (j + 1) := by
      rw [hX, run_succ, hY]
      rfl
    have hx' : ((X.run host thread (i + 1)).run host thread n).ending? = some x := by
      rw [← run_add, Nat.add_comm, run_add, run_of_ending host thread hx]
      exact hx
    have hy' : ((Y.run host thread (j + 1)).run host thread k).ending? = some y := by
      rw [← run_add, Nat.add_comm, run_add, run_of_ending host thread hy]
      exact hy
    rw [hsame] at hx'
    exact ending_unique hx' hy'
  | panicked i j m hX hY _ =>
    have hx' := ending_unique hx (by rw [hX]; rfl)
    have hy' := ending_unique hy (by rw [hY]; rfl)
    exact hx'.trans hy'.symm
  | crashed i j hX hY =>
    have hx' := ending_unique hx (congrArg State.ending? hX)
    have hy' := ending_unique hy (congrArg State.ending? hY)
    exact hx'.trans hy'.symm
  | forever _ hN =>
    rw [hN] at hz
    cases hz

/-! ## A function that is called both ways -/

/-- A function that passes its second argument to its first. -/
def passArgument : Executable where
  id := ⟨1⟩
  shared := ⟨⟨⟨1⟩, []⟩,
    { name := none
      kind := .function
      isGenerator := false
      isStrict := false
      isExpression := true
      paramCount := 2
      names := #["f", "g"]
      isConst := #[false, false]
      code := #[.loadLocal 0, .undefined, .loadLocal 1, .call 1, .ret]
      nested := [] }⟩
  security := none
  valid := by decide

/-- The host function that calls another function with its own arguments. -/
def forwarder : HostFunction := ⟨⟨0⟩, "apply"⟩

/-- A host with a function that only calls a script function; the others all do the same. -/
def forwardingHost (body : CallSite → Program Unit .completion) : Host Unit :=
  { uniformHost body with
    run := fun f site =>
      if f = forwarder.id then
        .act (.call (.executable callArgument) site) (.finish (κ := .completion))
      else body site }

/-- The frame of the caller, with operands. -/
def passingFrame (position : Nat) (operands : List Value) : Frame :=
  { body := passArgument
    position
    operands
    locals := #[]
    handlers := []
    cleanups := []
    scope := ⟨0⟩
    receiver := .undefined }

/-- The caller is about to call a function with another host function. -/
def passingTo (callee : Value) : Frame :=
  passingFrame 3 [.hostFunction ⟨⟨1⟩, "g"⟩, .undefined, callee]

/-- The activation of the caller while it waits. -/
def passing (isGenerator : Bool) : Activation :=
  ⟨⟨0⟩, [passingFrame 4 []], defaultFrameLimit, isGenerator⟩

/-- The store while the caller runs. The host keeps a continuation that was never captured. -/
def passingStore : Store Unit := { whileRunning with continuations := ⟨#[.pending]⟩ }

/-- The caller is about to call, on a stack of its own. -/
def passingConfig (isGenerator : Bool) (callee : Value) : Config Unit .exit :=
  ⟨passingStore, .executing { passing isGenerator with frames := [passingTo callee] } .nil⟩

/-- The function is called, on a stack of its own. -/
def passedConfig : Config Unit .completion :=
  ⟨passingStore, .calling (.executable callArgument)
    ⟨⟨0⟩, ⟨0⟩, .undefined, [.hostFunction ⟨⟨1⟩, "g"⟩]⟩ .nil⟩

/-- Host code neither asks for a continuation nor hands one on. -/
def isQuiet (X : Config σ goal) : Bool :=
  match X.state with
  | .running (.ask (.context (.requestCapture _)) _) _ => false
  | .returning (κ := .completion) (.error (.suspended _)) _ => false
  | _ => true

theorem capturesNothing_of_isQuiet {X : Config σ .exit} (h : X.isQuiet = true)
    (c : Id .context) : X.CapturesNothing c where
  withholds := by
    rintro k ⟨κ, next, s, m, hstate, -⟩
    rw [isQuiet, hstate] at h
    cases h
  refuses := by
    intro a p hstate
    rw [isQuiet, hstate] at h
    cases h

theorem isCalling_passingTo (callee : Value) :
    (passingTo callee).IsCalling callee .undefined [.hostFunction ⟨⟨1⟩, "g"⟩]
      (passingFrame 4 []) :=
  ⟨1, _, _, _, rfl, rfl, rfl, rfl⟩

/-- A host whose other functions answer true. -/
def truthfulHost : Host Unit :=
  forwardingHost fun _ => .finish (κ := .completion) (.ok (.bool true))

theorem isBlind_truthfulHost (c : Id .context) : truthfulHost.IsBlind c where
  run f site := by
    simp only [truthfulHost, forwardingHost]
    split
    · exact fun _ => trivial
    · trivial
  makeContext _ _ := trivial
  outermost p f site := by
    intro o
    cases o with
    | ok v => exact ⟨trivial, fun _ => trivial⟩
    | error e => trivial
  observe _ _ _ := trivial
  notify _ _ _ := trivial

/-- A function that calls a host function that answers true is called both ways. -/
theorem hostCall_agrees_passing :
    CallsAgree truthfulHost ⟨0⟩ (passing false) .nil
      (passingConfig false (.executable callArgument))
      (passingConfig false (.hostFunction forwarder))
      (passingConfig false (.executable callArgument)) passedConfig := by
  have hend : ((passingConfig false (.executable callArgument)).run truthfulHost ⟨0⟩
      20).ending?.isSome := by decide +kernel
  have hend' : (passedConfig.run truthfulHost ⟨0⟩ 20).ending?.isSome := by decide +kernel
  have hroom : ∀ n, ((passingConfig false (.executable callArgument)).run truthfulHost ⟨0⟩
      n).hasRoom = true :=
    forall_run_of_ending (P := fun X => X.hasRoom = true) _ _ hend (by decide +kernel)
  have hroom' : ∀ n, (passedConfig.run truthfulHost ⟨0⟩ n).hasRoom = true :=
    forall_run_of_ending (P := fun X => X.hasRoom = true) _ _ hend' (by decide +kernel)
  have hquiet : ∀ n, ((passingConfig false (.executable callArgument)).run truthfulHost ⟨0⟩
      n).isQuiet = true :=
    forall_run_of_ending (P := fun X => X.isQuiet = true) _ _ hend (by decide +kernel)
  exact hostCall_agrees (a := passing false) (m := passingStore) rfl
    (isCalling_passingTo (.executable callArgument)) (isCalling_passingTo (.hostFunction forwarder))
    rfl rfl rfl (by decide) rfl (isBlind_truthfulHost _) rfl rfl (fun n _ => hroom n) hroom'
    (fun n _ => capturesNothing_of_isQuiet (hquiet n) _) .nil

/-! ## What stands in the way -/

/-- There is room for a frame, and no continuation was captured. -/
def isUndisturbed (X : Config σ goal) : Bool :=
  X.hasRoom && X.store.continuations.entries.all fun state => !state.isCaptured

/-- In both calls there is always room for frames, and no continuation is ever captured. -/
def Undisturbed (host : Host Unit) (isGenerator : Bool) : Prop :=
  ∀ callee ∈ [Value.executable callArgument, .hostFunction forwarder], ∀ n,
    ((passingConfig isGenerator callee).run host ⟨0⟩ n).isUndisturbed = true

theorem undisturbed_of_ending {host : Host Unit} {isGenerator : Bool}
    (h : ∀ callee ∈ [Value.executable callArgument, .hostFunction forwarder],
      ((passingConfig isGenerator callee).run host ⟨0⟩ 40).ending?.isSome ∧
        ∀ n ≤ 40, ((passingConfig isGenerator callee).run host ⟨0⟩ n).isUndisturbed = true) :
    Undisturbed host isGenerator := by
  intro callee hcallee
  obtain ⟨hend, hbefore⟩ := h callee hcallee
  exact forall_run_of_ending (P := fun X => X.isUndisturbed = true) host ⟨0⟩ hend hbefore

/-- A host whose other functions answer whether one activation is under way. -/
def observantHost : Host Unit :=
  forwardingHost fun site => .ask (.context (.state site.context)) fun cx =>
    .finish (κ := .completion) (.ok (.bool (cx.depth == 1)))

/-- A host whose other functions hand on the continuation that was kept. -/
def suspendingHost : Host Unit :=
  forwardingHost fun _ => .finish (κ := .completion) (.error (.suspended ⟨⟨0⟩, none⟩))

/-- The calls do not agree if host code looks at the number of activations; nor, in the body of a
generator, if a continuation comes back: it is refused for different reasons. -/
theorem hostCall_differs :
    (Undisturbed observantHost false ∧
      ¬ CallsAgree observantHost ⟨0⟩ (passing false) .nil
        (passingConfig false (.executable callArgument))
        (passingConfig false (.hostFunction forwarder))
        (passingConfig false (.executable callArgument)) passedConfig) ∧
    (Undisturbed suspendingHost true ∧
      ¬ CallsAgree suspendingHost ⟨0⟩ (passing true) .nil
        (passingConfig true (.executable callArgument))
        (passingConfig true (.hostFunction forwarder))
        (passingConfig true (.executable callArgument)) passedConfig) := by
  have hobservant : Undisturbed observantHost false := undisturbed_of_ending (by decide +kernel)
  have hsuspending : Undisturbed suspendingHost true := undisturbed_of_ending (by decide +kernel)
  refine ⟨⟨hobservant, fun h => ?_⟩, hsuspending, fun h => ?_⟩
  · have hends := h.ending_eq (n := 40) (k := 40) (i := 40)
      (x := .result (.ok (.returned (.bool true)))) (y := .result (.ok (.returned (.bool false))))
      (z := .result (.ok (.bool false))) rfl rfl rfl
    cases hends
  · have hends := h.ending_eq (n := 40) (k := 40) (i := 40)
      (x := .result (.error (.illegalState .captureInGenerator)))
      (y := .result (.error (.illegalState .captureAcrossHostFrame)))
      (z := .result (.error (.illegalState .captureAcrossHostFrame))) rfl rfl rfl
    cases hends

end Config

end ScriptMachine
