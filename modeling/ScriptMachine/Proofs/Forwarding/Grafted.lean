import ScriptMachine.Proofs.Forwarding.Raised

/-!
# A callee on top of its caller's frames

An interpreted function can run in two places: on top of the frames of its caller, in the same
activation, or in an activation of its own. An instruction does the same in both
(`Activation.execute_grafts`), until the callee is left: what leaves the activation of its own is
what the frames of the caller are then given.
-/

namespace ScriptMachine

variable {σ : Type} {α goal : Kind}

/-- The frames of an activation on top of those of another, within the other. -/
def Activation.graft (a b : Activation) : Activation := { a with frames := b.frames ++ a.frames }

/-- The activation of a callee that might as well run on top of its caller's frames. -/
structure Activation.Bears (a b : Activation) : Prop where
  caller : a.frames ≠ []
  context : b.context = a.context
  plain : b.isGenerator = false
  callee : b.frames ≠ []

/-- How the two go on: alike, or the callee is left and the caller takes what comes out. -/
inductive Flow.Grafts (a b : Activation) : Flow → Flow → Prop
  | next {b' : Activation} (h : b.Continues b') : Grafts a b (.next (a.graft b')) (.next b')
  | returned (v : Value) : Grafts a b (a.deliver v) (.leave (.ok (.returned v)))
  | thrown (v : Value) : Grafts a b (a.throw v) (.leave (.error (.thrown v)))
  | aborted (reason : String) :
    Grafts a b (.leave (.error (.aborted reason))) (.leave (.error (.aborted reason)))
  | fault (f : Fault) : Grafts a b (.leave (.error (.fault f))) (.leave (.error (.fault f)))

theorem Flow.Grafts.of_continues {a b b' : Activation} (hb : b.Continues b') {f g : Flow}
    (h : f.Grafts a b' g) : f.Grafts a b g := by
  cases h with
  | next h =>
    obtain ⟨f, callers, rfl⟩ := hb
    obtain ⟨g, rest, rfl⟩ := h
    exact .next ⟨g, rest, rfl⟩
  | returned v => exact .returned v
  | thrown v => exact .thrown v
  | aborted reason => exact .aborted reason
  | fault f => exact .fault f

/-- What the two do after an instruction. -/
inductive Move.Grafts (a b : Activation) : Move → Move → Prop
  | flow {f g : Flow} (h : f.Grafts a b g) : Grafts a b (.flow f) (.flow g)
  | call {b' : Activation} (h : b.Continues b') (f : Callable) (site : CallSite) :
    Grafts a b (.call (a.graft b') f site) (.call b' f site)

namespace Activation

variable {a b : Activation} {m : Store σ}

/-- There is no room for the frame that an instruction is to enter. -/
def overflows (m : Store σ) (a : Activation) : Bool :=
  match (a.execute m).1 with
  | .flow (.leave (.error (.fault (.stackOverflow _)))) => true
  | _ => false

theorem overflows_of_eq {limit : Nat}
    (h : (a.execute m).1 = .flow (.leave (.error (.fault (.stackOverflow limit))))) :
    a.overflows m = true := by
  rw [overflows, h]

theorem Bears.of_continues (h : a.Bears b) {b' : Activation} (hb : b.Continues b') :
    a.Bears b' := by
  obtain ⟨f, callers, rfl⟩ := hb
  exact ⟨h.caller, h.context, h.plain, List.cons_ne_nil f callers⟩

/-- A value is thrown through the frames on top, and then through those beneath. -/
theorem unwind_append (v : Value) (fs gs : List Frame) :
    unwind v (fs ++ gs) = match unwind v fs with
      | [] => unwind v gs
      | f :: callers => f :: (callers ++ gs) := by
  induction fs with
  | nil => rfl
  | cons f fs ih =>
    rw [List.cons_append, unwind, unwind]
    split
    · rfl
    · exact ih

theorem throw_grafts (v : Value) : ((a.graft b).throw v).Grafts a b (b.throw v) := by
  simp only [throw, graft, unwind_append]
  cases hunwound : unwind v b.frames with
  | nil =>
    show Flow.Grafts a b (a.throw v) (.leave (.error (.thrown v)))
    exact .thrown v
  | cons f callers => exact .next ⟨f, callers, rfl⟩

theorem complete_grafts (h : a.Bears b) (callers : List Frame) (v : Value) :
    ((a.graft b).complete (callers ++ a.frames) v).Grafts a b (b.complete callers v) := by
  cases callers with
  | nil =>
    obtain ⟨f, rest, hframes⟩ := List.exists_cons_of_ne_nil h.caller
    have hdeliver : (a.graft b).complete ([] ++ a.frames) v = a.deliver v := by
      rw [List.nil_append, deliver, hframes]
      rfl
    rw [hdeliver]
    exact .returned v
  | cons f rest => exact .next ⟨f.push v, rest, rfl⟩

theorem returnValue_grafts (h : a.Bears b) (v : Value) :
    ((a.graft b).returnValue v).Grafts a b (b.returnValue v) := by
  obtain ⟨f, callers, hframes⟩ := List.exists_cons_of_ne_nil h.callee
  simp only [returnValue, graft, hframes, List.cons_append]
  split
  · exact .next ⟨_, _, rfl⟩
  · exact complete_grafts h callers v

theorem deliver_grafts (h : a.Bears b) (v : Value) :
    ((a.graft b).deliver v).Grafts a b (b.deliver v) := by
  obtain ⟨f, callers, hframes⟩ := List.exists_cons_of_ne_nil h.callee
  simp only [deliver, graft, hframes, List.cons_append]
  exact .next ⟨_, _, rfl⟩

theorem fail_grafts {e : Abrupt} (he : ∀ p, e ≠ .suspended p) :
    ((a.graft b).fail e m).1.Grafts a b (b.fail e m).1 := by
  cases e with
  | thrown v => exact throw_grafts v
  | suspended p => exact absurd rfl (he p)
  | aborted reason => exact .aborted reason
  | fault f => exact .fault f

theorem call_grafts (h : a.Bears b) (f : Frame) (rest : List Frame) (count : Nat)
    (hroom : ((a.graft b).call f (rest ++ a.frames) count m).1 ≠
      .flow (.leave (.error (.fault (.stackOverflow a.limit)))))
    (hroom' : (b.call f rest count m).1 ≠
      .flow (.leave (.error (.fault (.stackOverflow b.limit))))) :
    ((a.graft b).call f (rest ++ a.frames) count m).1.Grafts a b (b.call f rest count m).1 ∧
      ((a.graft b).call f (rest ++ a.frames) count m).2 = (b.call f rest count m).2 := by
  let g : Frame := (f.popMany count).2.pop.2.pop.2
  let b' : Activation := { b with frames := g :: rest }
  have hb : b.Continues b' := ⟨g, rest, rfl⟩
  have hawaits : ∀ (callee : Callable) (scope : Id .scope) (receiver : Value)
      (args : List Value),
      Move.Grafts a b (.call (a.graft b') callee ⟨a.context, scope, receiver, args⟩)
        (.call b' callee ⟨b.context, scope, receiver, args⟩) := by
    intro callee scope receiver args
    rw [← h.context]
    exact .call hb _ _
  simp only [call] at hroom hroom' ⊢
  split
  · next e hcallee =>
    simp only [hcallee] at hroom hroom'
    cases hgen : e.routine.isGenerator with
    | true =>
      rw [if_pos rfl, if_pos rfl]
      exact ⟨hawaits _ _ _ _, rfl⟩
    | false =>
      simp only [hgen, Bool.false_eq_true, if_false] at hroom hroom' ⊢
      have hfits : ¬ (a.graft b).limit ≤ (g :: (rest ++ a.frames)).length := by
        intro hfull
        rw [if_pos hfull] at hroom
        exact hroom rfl
      have hfits' : ¬ b.limit ≤ (g :: rest).length := by
        intro hfull
        rw [if_pos hfull] at hroom'
        exact hroom' rfl
      rw [if_neg hfits, if_neg hfits']
      let entered : Frame := Frame.enter e g.scope (f.popMany count).2.pop.1 (f.popMany count).1
      have hentered : b.Continues { b with frames := entered :: g :: rest } :=
        ⟨entered, g :: rest, rfl⟩
      exact ⟨.flow (.next hentered), rfl⟩
  · exact ⟨hawaits _ _ _ _, rfl⟩
  · have hfails : ∀ (text : String) (m' : Store σ),
        ((a.graft b').fail (.typeError text) m').1.Grafts a b (b'.fail (.typeError text) m').1 :=
      fun text m' => (fail_grafts (typeError_ne_suspended text)).of_continues hb
    exact ⟨.flow (hfails _ _), rfl⟩

/-- An instruction that touches no frame but its own. -/
theorem own_grafts (f : Frame) (rest : List Frame) {i : Instruction} (hi : i.isOwn) :
    ((a.graft b).perform f (rest ++ a.frames) i m).1.Grafts a b (b.perform f rest i m).1 ∧
      ((a.graft b).perform f (rest ++ a.frames) i m).2 = (b.perform f rest i m).2 := by
  rw [perform_of_isOwn _ _ hi, perform_of_isOwn _ _ hi]
  obtain ⟨r, g, m', hr⟩ : ∃ r g m', f.perform i m = (r, g, m') := ⟨_, _, _, rfl⟩
  rw [hr]
  let b' : Activation := { b with frames := g :: rest }
  have hb : b.Continues b' := ⟨g, rest, rfl⟩
  cases r with
  | ok u => exact ⟨.flow (.next hb), rfl⟩
  | error e =>
    have he := Frame.perform_ne_suspended hr
    have hfails := fail_grafts (a := a) (b := b') (m := m') he
    have hstore : ∀ x : Activation, (x.fail e m').2 = m' := fun x => by rw [x.fail_eq m' he]
    exact ⟨.flow (hfails.of_continues hb), (hstore _).trans (hstore _).symm⟩

theorem perform_grafts (h : a.Bears b) (f : Frame) (rest : List Frame) (i : Instruction)
    (hroom : ((a.graft b).perform f (rest ++ a.frames) i m).1 ≠
      .flow (.leave (.error (.fault (.stackOverflow a.limit)))))
    (hroom' : (b.perform f rest i m).1 ≠
      .flow (.leave (.error (.fault (.stackOverflow b.limit))))) :
    ((a.graft b).perform f (rest ++ a.frames) i m).1.Grafts a b (b.perform f rest i m).1 ∧
      ((a.graft b).perform f (rest ++ a.frames) i m).2 = (b.perform f rest i m).2 := by
  let within (g : Frame) : Activation := { b with frames := g :: rest }
  have hb : ∀ g, b.Continues (within g) := fun g => ⟨g, rest, rfl⟩
  have hthrows : ∀ g v, ((a.graft (within g)).throw v).Grafts a b ((within g).throw v) :=
    fun g v => (throw_grafts v).of_continues (hb g)
  have hreturns : ∀ g v,
      ((a.graft (within g)).returnValue v).Grafts a b ((within g).returnValue v) :=
    fun g v => (returnValue_grafts (h.of_continues (hb g)) v).of_continues (hb g)
  cases i with
  | call count => exact call_grafts h f rest count.toNat hroom hroom'
  | ret => exact ⟨.flow (hreturns _ _), rfl⟩
  | throw => exact ⟨.flow (hthrows _ _), rfl⟩
  | yield =>
    -- neither is the only frame of the body of a generator
    obtain ⟨g, callers, hcaller⟩ := List.exists_cons_of_ne_nil h.caller
    have hrefused : (!(a.graft b).isGenerator || !(rest ++ a.frames).isEmpty) = true := by
      rw [hcaller]
      simp
    have hrefused' : (!b.isGenerator || !rest.isEmpty) = true := by
      rw [h.plain]
      rfl
    simp only [perform, hrefused, hrefused', if_true]
    have hfails := fail_grafts (a := a) (b := within f) (m := m)
      (typeError_ne_suspended "yield outside a generator")
    exact ⟨.flow (hfails.of_continues (hb f)), rfl⟩
  | endFinally =>
    simp only [perform]
    split
    · exact ⟨.flow (.next (hb _)), rfl⟩
    · exact ⟨.flow (hthrows _ _), rfl⟩
    · exact ⟨.flow (hreturns _ _), rfl⟩
  | _ => exact own_grafts f rest rfl

/-- While there is room in both, an instruction does the same on top of the caller's frames as
in an activation of its own. -/
theorem execute_grafts (h : a.Bears b) (hroom : (a.graft b).overflows m = false)
    (hroom' : b.overflows m = false) :
    ((a.graft b).execute m).1.Grafts a b (b.execute m).1 ∧
      ((a.graft b).execute m).2 = (b.execute m).2 := by
  replace hroom : ((a.graft b).execute m).1 ≠
      .flow (.leave (.error (.fault (.stackOverflow a.limit)))) := fun hfull => by
    rw [overflows_of_eq hfull] at hroom
    cases hroom
  replace hroom' : (b.execute m).1 ≠
      .flow (.leave (.error (.fault (.stackOverflow b.limit)))) := fun hfull => by
    rw [overflows_of_eq hfull] at hroom'
    cases hroom'
  obtain ⟨f, rest, hframes⟩ := List.exists_cons_of_ne_nil h.callee
  have hgrafted : (a.graft b).frames = f :: (rest ++ a.frames) := by
    rw [graft, hframes]
    rfl
  simp only [execute, hframes, hgrafted] at hroom hroom' ⊢
  split
  · exact ⟨.flow (complete_grafts h rest .undefined), rfl⟩
  · next i g hfetch =>
    simp only [hfetch] at hroom hroom'
    exact perform_grafts h g rest i hroom hroom'

end Activation

/-! ## In step -/

namespace Config

/-- A callee on top of the frames of `a`, and the same callee in an activation of its own, with
one more activation under way. -/
inductive Grafts (a : Activation) : Config σ .exit → Config σ .exit → Prop
  | counting {m : Store σ} {b : Activation} (hb : a.Bears b) (hk : m.Knows a.context)
      (hdepth : 0 < (m.context a.context).depth) :
    Grafts a ⟨m, .counting (a.graft b) .nil⟩ ⟨m.raise a.context, .counting b .nil⟩
  | executing {m : Store σ} {b : Activation} (hb : a.Bears b) (hk : m.Knows a.context)
      (hdepth : 0 < (m.context a.context).depth) :
    Grafts a ⟨m, .executing (a.graft b) .nil⟩ ⟨m.raise a.context, .executing b .nil⟩
  | called {Z : Config σ .completion} {l : Ledger} {b : Activation} (hb : a.Bears b)
      (hblind : Z.IsBlind a.context) (hkeeps : Z.Keeps a.context l) (hl : 0 < l.depth)
      (hstate : Z.state ≠ .crashed) :
    Grafts a (Z.onto (.cons (.called (a.graft b)) .nil))
      ((Z.raise a.context).onto (.cons (.called b) .nil))
  | observed {Z : Config σ .verdict} {l : Ledger} {b : Activation} (hb : a.Bears b)
      (hblind : Z.IsBlind a.context) (hkeeps : Z.Keeps a.context l) (hl : 0 < l.depth)
      (hstate : Z.state ≠ .crashed) :
    Grafts a (Z.onto (.cons (.observed (a.graft b)) .nil))
      ((Z.raise a.context).onto (.cons (.observed b) .nil))

variable (host : Host σ) (thread : Id .thread)

/-- The callee has left: the frames of `a` take what comes out, and so does whoever began the
activation of its own. -/
inductive Leaves (a : Activation) : Config σ .exit → Config σ .exit → Prop
  | returned (m : Store σ) (v : Value) :
    Leaves a (take host thread m (.called a) (.ok v) .nil) (give m .exit (.ok (.returned v)) .nil)
  | failed (m : Store σ) (e : Abrupt) :
    Leaves a (take host thread m (.called a) (.error e) .nil) (give m .exit (.error e) .nil)
  | panicked (m : Store σ) :
    Leaves a ⟨changeDepth m a.context (· - 1), .panicking .nil⟩ ⟨m, .panicking .nil⟩
  | crashed (m m' : Store σ) : Leaves a ⟨m, .crashed⟩ ⟨m', .crashed⟩

/-- There is room for the frame that is to be entered now. -/
def hasRoom (X : Config σ goal) : Bool :=
  match X.state with
  | .executing a _ => !a.overflows X.store
  | _ => true

/-- No continuation of a context is given out now. One that comes back to the activation on a
stack of its own is refused because other activations are under way. -/
structure CapturesNothing (c : Id .context) (X : Config σ .exit) : Prop where
  withholds : ∀ k, ¬ IsGiven c k X
  refuses : ∀ (a : Activation) (p : Pending),
    X.state = .returning (κ := .completion) (.error (.suspended p)) (.cons (.called a) .nil) →
      a.isGenerator = false ∧ 1 < (X.store.context a.context).depth

variable {host thread} {a b : Activation} {m : Store σ}

theorem follow_grafts {f g : Flow} (h : f.Grafts a b g) (hb : a.Bears b)
    (hk : m.Knows a.context) (hdepth : 0 < (m.context a.context).depth) :
    Grafts a (follow m a.context f .nil) (follow (m.raise a.context) b.context g .nil) ∨
      Leaves host thread a (follow m a.context f .nil)
        (follow (m.raise a.context) b.context g .nil) := by
  rw [hb.context]
  cases h with
  | next h => exact .inl (.counting (hb.of_continues h) hk hdepth)
  | returned v =>
    right
    simp only [follow, changeDepth_sub_raise_self]
    exact .returned m v
  | thrown v =>
    right
    simp only [follow, changeDepth_sub_raise_self]
    exact .failed m (.thrown v)
  | aborted reason =>
    right
    simp only [follow, changeDepth_sub_raise_self]
    exact .failed m (.aborted reason)
  | fault f =>
    right
    simp only [follow, changeDepth_sub_raise_self]
    exact .failed m (.fault f)

theorem isGiven_onto {X : Config σ α} {c : Id .context} {k : Id .continuation}
    (h : IsGiven c k X) (s : Stack σ α goal) : IsGiven c k (X.onto s) := by
  obtain ⟨κ, next, r, m', hstate, hrequest⟩ := h
  obtain ⟨m, state⟩ := X
  obtain rfl : state = _ := hstate
  exact ⟨κ, next, r.append s, m', rfl, hrequest⟩

theorem count_grafts (hhost : host.IsBlind a.context) (hb : a.Bears b) (hk : m.Knows a.context)
    (hdepth : 0 < (m.context a.context).depth) :
    Grafts a (count host m (a.graft b) .nil) (count host (m.raise a.context) b .nil) := by
  rw [count_raise hk]
  obtain ⟨due, cx, hcx⟩ : ∃ due cx, (m.context a.context).countInstruction = (due, cx) :=
    ⟨_, _, rfl⟩
  have hk' : (m.modifyContext a.context fun _ => cx).Knows a.context :=
    Store.knows_modifyContext _ _ hk
  have hdepth' : 0 < ((m.modifyContext a.context fun _ => cx).context a.context).depth := by
    have hledger := Context.ledger_countInstruction (m.context a.context)
    rw [hcx] at hledger
    rw [Store.context_modifyContext hk, show cx.depth = _ from congrArg Ledger.depth hledger]
    exact hdepth
  have hcontext : (a.graft b).context = a.context := rfl
  simp only [count, hcontext, hb.context, hcx]
  split
  · next n p _ =>
    let Z : Config σ .verdict :=
      ⟨m.modifyContext a.context fun _ => cx, .running (host.observe p a.context n) .nil⟩
    have hblind : Z.IsBlind a.context := And.intro (hhost.observe p a.context n) trivial
    refine .observed (Z := Z) hb hblind ⟨hk', rfl⟩ hdepth' ?_
    rintro ⟨⟩
  · exact .executing hb hk' hdepth'

theorem execute_grafts (hb : a.Bears b) (hk : m.Knows a.context)
    (hdepth : 0 < (m.context a.context).depth) (hroom : (a.graft b).overflows m = false)
    (hroom' : b.overflows (m.raise a.context) = false) :
    Grafts a (execute m (a.graft b) .nil) (execute (m.raise a.context) b .nil) ∨
      Leaves host thread a (execute m (a.graft b) .nil)
        (execute (m.raise a.context) b .nil) := by
  rw [Activation.overflows, activation_execute_raise] at hroom'
  obtain ⟨hmoves, hstore⟩ := Activation.execute_grafts hb hroom hroom'
  have hcontexts : (b.execute m).2.contexts = m.contexts := (b.execute_frame m).1
  have hk' : (b.execute m).2.Knows a.context := by
    rw [Store.Knows, hcontexts]
    exact hk
  have hdepth' : 0 < ((b.execute m).2.context a.context).depth := by
    rw [Store.context, hcontexts]
    exact hdepth
  unfold execute
  rw [activation_execute_raise]
  generalize (a.graft b).execute m = x at hmoves hstore
  generalize b.execute m = y at hmoves hstore hk' hdepth'
  obtain ⟨move, m'⟩ := x
  obtain ⟨move', m''⟩ := y
  obtain rfl : m' = m'' := hstore
  cases hmoves with
  | flow h => exact follow_grafts h hb hk' hdepth'
  | call h f site =>
    left
    let Z : Config σ .completion := ⟨m', .calling f site .nil⟩
    refine .called (Z := Z) (hb.of_continues h) trivial ⟨hk', rfl⟩ hdepth' ?_
    rintro ⟨⟩

theorem Keeps.depth_pos_of_give {c : Id .context} {l : Ledger} {x : α.Result}
    (h : (give m α x .nil).Keeps c l) (hl : 0 < l.depth) :
    m.Knows c ∧ 0 < (m.context c).depth := by
  obtain ⟨hk, hledger⟩ := h
  refine ⟨hk, ?_⟩
  rw [show (m.context c).depth = l.depth from congrArg Ledger.depth hledger]
  exact hl

/-- What is under way above the callee ends with a result or a panic, or crashes. -/
theorem take_called_grafts (hb : a.Bears b) (hk : m.Knows a.context)
    (hdepth : 0 < (m.context a.context).depth) (o : Outcome)
    (hrefuses : ∀ p, o = .error (.suspended p) →
      (a.graft b).isGenerator = false ∧ 1 < (m.context a.context).depth) :
    Grafts a (take host thread m (.called (a.graft b)) o .nil)
        (take host thread (m.raise a.context) (.called b) o .nil) ∨
      Leaves host thread a (take host thread m (.called (a.graft b)) o .nil)
        (take host thread (m.raise a.context) (.called b) o .nil) := by
  cases o with
  | ok v => exact follow_grafts (Activation.deliver_grafts hb v) hb hk hdepth
  | error e =>
    have hforwarded : (∀ p, e ≠ .suspended p) →
        Grafts a (take host thread m (.called (a.graft b)) (.error e) .nil)
          (take host thread (m.raise a.context) (.called b) (.error e) .nil) ∨
        Leaves host thread a (take host thread m (.called (a.graft b)) (.error e) .nil)
          (take host thread (m.raise a.context) (.called b) (.error e) .nil) := by
      intro he
      have hfail : ∀ (x : Activation) (m : Store σ), x.fail e m = ((x.fail e m).1, m) := by
        intro x m
        rw [x.fail_eq m he]
      have hsame : (b.fail e (m.raise a.context)).1 = (b.fail e m).1 := by
        rw [b.fail_eq _ he, b.fail_eq m he]
        rfl
      simp only [take]
      rw [hfail (a.graft b), hfail b, hsame]
      exact follow_grafts (Activation.fail_grafts he) hb hk hdepth
    cases e with
    | suspended p =>
      obtain ⟨hgen, hone⟩ := hrefuses p rfl
      -- both refuse, since the activation of the caller is under way already
      have hrefused : (a.graft b).fail (.suspended p) m =
          (.leave (.error (.illegalState .captureAcrossHostFrame)), m) := by
        have hone' : 1 < (m.context (a.graft b).context).depth := hone
        simp only [Activation.fail, Activation.capture, hgen, Bool.false_eq_true, if_false, hone',
          if_true]
      have hrefused' : b.fail (.suspended p) (m.raise a.context) =
          (.leave (.error (.illegalState .captureAcrossHostFrame)), m.raise a.context) := by
        have hone' : 1 < ((m.raise a.context).context b.context).depth := by
          rw [hb.context, Store.context_raise hk]
          exact Nat.succ_lt_succ hdepth
        simp only [Activation.fail, Activation.capture, hb.plain, Bool.false_eq_true, if_false,
          hone', if_true]
      simp only [take, hrefused, hrefused']
      exact follow_grafts (.fault _) hb hk hdepth
    | thrown | aborted | fault =>
      refine hforwarded ?_
      rintro p ⟨⟩

theorem leaves_of_panic (hb : a.Bears b) (m : Store σ) :
    Leaves host thread a ⟨changeDepth m a.context (· - 1), .panicking .nil⟩
      ⟨changeDepth (m.raise a.context) b.context (· - 1), .panicking .nil⟩ := by
  rw [hb.context, changeDepth_sub_raise_self]
  exact .panicked m

theorem leaves_of_crash {Z : Config σ α} {r s : Stack σ α .exit} (h : Z.state = .crashed) :
    Leaves host thread a (Z.onto r) ((Z.raise a.context).onto s) := by
  obtain ⟨m, state⟩ := Z
  obtain rfl : state = .crashed := h
  exact .crashed _ _

/-- While there is room and nothing is captured, the two stay in step until the callee leaves. -/
theorem step_grafts {A B : Config σ .exit} (hhost : host.IsBlind a.context) (h : Grafts a A B)
    (hroom : A.hasRoom = true) (hroom' : B.hasRoom = true)
    (hcaptures : A.CapturesNothing a.context) :
    Grafts a (A.step host thread) (B.step host thread) ∨
      Leaves host thread a (A.step host thread) (B.step host thread) := by
  cases h with
  | counting hb hk hdepth => exact .inl (count_grafts hhost hb hk hdepth)
  | executing hb hk hdepth =>
    exact execute_grafts hb hk hdepth (Bool.not_eq_eq_eq_not.mp hroom)
      (Bool.not_eq_eq_eq_not.mp hroom')
  | @called Z l b hb hblind hkeeps hl hstate =>
    cases hend : Z.ending? with
    | none =>
      have hgiven : ∀ k, ¬ IsGiven a.context k Z := fun k hk =>
        hcaptures.withholds k (isGiven_onto hk _)
      have hend' : (Z.raise a.context).ending? = none := hend
      rw [step_onto host thread _ hend, step_onto host thread _ hend',
        step_raise hblind hkeeps hl hgiven]
      by_cases hcrashed : (Z.step host thread).state = .crashed
      · exact .inr (leaves_of_crash hcrashed)
      · exact .inl (.called hb (isBlind_step hhost hblind) (step_keeps host thread hkeeps) hl
          hcrashed)
    | some x =>
      rcases ending_cases hend with ⟨m, o, rfl⟩ | ⟨m, rfl⟩ | ⟨m, rfl⟩
      · obtain ⟨hk, hdepth⟩ := hkeeps.depth_pos_of_give hl
        refine take_called_grafts hb hk hdepth o fun p hp => ?_
        subst hp
        exact hcaptures.refuses _ p rfl
      · exact .inr (leaves_of_panic hb m)
      · exact absurd rfl hstate
  | @observed Z l b hb hblind hkeeps hl hstate =>
    cases hend : Z.ending? with
    | none =>
      have hgiven : ∀ k, ¬ IsGiven a.context k Z := fun k hk =>
        hcaptures.withholds k (isGiven_onto hk _)
      have hend' : (Z.raise a.context).ending? = none := hend
      rw [step_onto host thread _ hend, step_onto host thread _ hend',
        step_raise hblind hkeeps hl hgiven]
      by_cases hcrashed : (Z.step host thread).state = .crashed
      · exact .inr (leaves_of_crash hcrashed)
      · exact .inl (.observed hb (isBlind_step hhost hblind) (step_keeps host thread hkeeps) hl
          hcrashed)
    | some x =>
      rcases ending_cases hend with ⟨m, r, rfl⟩ | ⟨m, rfl⟩ | ⟨m, rfl⟩
      · obtain ⟨hk, hdepth⟩ := hkeeps.depth_pos_of_give hl
        cases r with
        | ok u => exact .inl (.executing hb hk hdepth)
        | error reason => exact follow_grafts (.aborted reason) hb hk hdepth
      · exact .inr (leaves_of_panic hb m)
      · exact absurd rfl hstate

end Config

end ScriptMachine
