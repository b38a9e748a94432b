import ScriptMachine.Proofs.Machine.Moves
import ScriptMachine.Proofs.Machine.Nesting

/-!
# What a step does to a generator

The life of a generator is its state in the store together with the number of tasks that wait
for the end of its body. `Config.step_moves` lists all that one step of the machine can do to
it; that no step brings a finished generator back, that a generator whose body runs is waited
for once, and that other code does not touch it while it runs, are read off that list.
-/

namespace ScriptMachine

variable {σ : Type} {α β goal : Kind}

/-! ## Lives -/

/-- How often a task waits for the end of the body of a generator. -/
def Task.bodies (i : Id .generator) : Task σ α β → Nat
  | .bodyEnd g => if g.id = i then 1 else 0
  | _ => 0

/-- How often the tasks of a stack wait for the end of the body of a generator. -/
def Stack.bodies (i : Id .generator) : {α : Kind} → Stack σ α goal → Nat
  | _, .nil => 0
  | _, .cons t rest => t.bodies i + rest.bodies i

/-- The stack beneath what runs has so many tasks that wait for the body of a generator. -/
def State.bodies (i : Id .generator) : State σ goal → Nat
  | .running _ s | .calling _ _ s | .counting _ s | .executing _ s | .returning _ s
  | .panicking s => s.bodies i
  | .crashed => 0

/-- The state of a generator, if it was made, and how often the end of its body is waited for. -/
structure GeneratorLife where
  state : Option GeneratorState
  bodies : Nat

/-- The life of a generator at the moment. -/
def Config.life (i : Id .generator) (X : Config σ goal) : GeneratorLife :=
  ⟨X.store.generators.get? i, X.state.bodies i⟩

/-- The life of a generator beneath a stack. -/
def Stack.life (i : Id .generator) (m : Store σ) (s : Stack σ α goal) : GeneratorLife :=
  ⟨m.generators.get? i, s.bodies i⟩

/-- The state of a generator once its body was left. -/
def GeneratorState.leave (e : Except Abrupt Exit) (state : GeneratorState) : GeneratorState :=
  match e with
  | .ok (.yielded _ frame) => { state with frame := some frame }
  | .ok (.returned _) | .error _ => { state with finished := true }

/-- What a step can do to a generator. -/
inductive GeneratorLife.Moves : GeneratorLife → GeneratorLife → Prop
  | stays (l : GeneratorLife) : Moves l l
  | made (frame : Frame) (n : Nat) : Moves ⟨none, n⟩ ⟨some { frame := some frame }, n⟩
  /-- The body gets the frame and runs. -/
  | resumed {state : GeneratorState} {frame : Frame} (hframe : state.frame = some frame)
      (hfinished : state.finished = false) (n : Nat) :
      Moves ⟨some state, n⟩ ⟨some { frame := none, started := true }, n + 1⟩
  /-- It is finished without having run. -/
  | closed {state : GeneratorState} {frame : Frame} (hframe : state.frame = some frame)
      (n : Nat) :
      Moves ⟨some state, n⟩ ⟨some { frame := none, started := true, finished := true }, n⟩
  /-- The body is left. -/
  | left (e : Except Abrupt Exit) (state : Option GeneratorState) (n : Nat) :
      Moves ⟨state, n + 1⟩ ⟨state.map (·.leave e), n⟩
  /-- A panic goes through the body. -/
  | dropped (state : Option GeneratorState) (n : Nat) : Moves ⟨state, n + 1⟩ ⟨state, n⟩
  | crashed (state : Option GeneratorState) (n : Nat) : Moves ⟨state, n⟩ ⟨state, 0⟩

theorem GeneratorLife.Moves.of_eq {l l' : GeneratorLife} (h : l' = l) : Moves l l' := h ▸ .stays l

@[simp] theorem Stack.bodies_nil (i : Id .generator) :
    (Stack.nil : Stack σ goal goal).bodies i = 0 := rfl

@[simp] theorem Stack.bodies_cons (i : Id .generator) (t : Task σ α β) (rest : Stack σ β goal) :
    (Stack.cons t rest).bodies i = t.bodies i + rest.bodies i := rfl

/-- A task that waits for no body may come and go. -/
theorem Stack.life_cons {i : Id .generator} {m : Store σ} {s : Stack σ β goal} (t : Task σ α β)
    (ht : t.bodies i = 0) : (Stack.cons t s).life i m = s.life i m := by
  rw [life, life, bodies_cons, ht, Nat.zero_add]

/-! ## Instructions -/

theorem Frame.generators_perform (f : Frame) (i : Instruction) (m : Store σ) :
    (f.perform i m).2.2.generators = m.generators := by
  cases i with
  | loadName name =>
    simp only [Frame.perform]
    split <;> rfl
  | storeName name =>
    simp only [Frame.perform]
    split <;> rfl
  | closure index =>
    simp only [Frame.perform]
    split <;> rfl
  | _ => rfl

namespace Activation

variable (a : Activation) (m : Store σ)

theorem generators_fail (e : Abrupt) : (a.fail e m).2.generators = m.generators := by
  obtain ⟨continuations, h⟩ := a.fail_frame m e
  rw [h]

theorem generators_perform (f : Frame) (callers : List Frame) (i : Instruction) :
    (a.perform f callers i m).2.generators = m.generators := by
  by_cases hown : i.isOwn
  · rw [perform_of_isOwn a callers hown]
    have hm := f.generators_perform i m
    generalize f.perform i m = r at hm
    obtain ⟨r, g, m'⟩ := r
    cases r with
    | ok u => exact hm
    | error e => exact (generators_fail _ _ _).trans hm
  · cases i with
    | call count =>
      simp only [perform, call]
      split
      · split
        · rfl
        · split <;> rfl
      · rfl
      · exact generators_fail _ _ _
    | ret | throw => rfl
    | yield =>
      simp only [perform]
      split
      · exact generators_fail _ _ _
      · rfl
    | endFinally =>
      simp only [perform]
      split <;> rfl
    | _ => exact absurd rfl hown

/-- No instruction touches a generator; a generator function is called from outside. -/
theorem generators_execute : (a.execute m).2.generators = m.generators := by
  unfold execute
  split
  · rfl
  · split
    · rfl
    · exact generators_perform _ _ _ _ _

end Activation

/-! ## The beginnings of activities -/

namespace Config

variable (i : Id .generator) (host : Host σ) (thread : Id .thread) (m : Store σ)

theorem life_follow (c : Id .context) (flow : Flow) (s : Stack σ .exit goal) :
    (follow m c flow s).life i = s.life i m := by
  cases flow <;> rfl

theorem life_execute (a : Activation) (s : Stack σ .exit goal) :
    (execute m a s).life i = s.life i m := by
  have hm := a.generators_execute m
  unfold execute
  split
  · next heq =>
    rw [heq] at hm
    rw [life_follow, Stack.life, hm]
    rfl
  · next f site m' heq =>
    rw [heq] at hm
    show GeneratorLife.mk _ (0 + s.bodies i) = _
    rw [Nat.zero_add, hm]
    rfl

theorem life_beginActivation (c : Id .context) (frames : List Frame) (isGenerator : Bool)
    (s : Stack σ .exit goal) :
    (beginActivation m c frames isGenerator s).life i = s.life i m := rfl

theorem life_beginOutermost (f : Callable) (site : CallSite) (isStrict : Bool)
    (s : Stack σ .completion goal) :
    (beginOutermost host m f site isStrict s).life i = s.life i m := by
  unfold beginOutermost
  split
  · rfl
  · dsimp only
    split
    · exact Stack.life_cons (m := m) _ rfl
    · exact (Stack.life_cons (m := m) _ rfl).trans (Stack.life_cons _ rfl)
    · exact (Stack.life_cons (m := m) _ rfl).trans (Stack.life_cons _ rfl)

theorem life_beginCapturing (f : Callable) (c : Id .context) (scope : Id .scope)
    (args : List Value) (isStrict : Bool) (s : Stack σ .completion goal) :
    (beginCapturing host m f c scope args isStrict s).life i = s.life i m := by
  unfold beginCapturing
  dsimp only
  rw [life_beginOutermost]
  exact Stack.life_cons (m := m) _ rfl

theorem life_beginCapturingCall (e : Executable) (c : Id .context) (scope : Id .scope)
    (args : List Value) (s : Stack σ .completion goal) :
    (beginAction.beginCapturingCall host m e c scope args s).life i = s.life i m := by
  unfold beginAction.beginCapturingCall
  split
  · rfl
  · exact life_beginCapturing _ _ _ _ _ _ _ _ _

theorem life_beginContinuation (k : Id .continuation) (v : Value) (c : Id .context)
    (s : Stack σ .completion goal) :
    (beginContinuation m k v c s).life i = s.life i m := by
  unfold beginContinuation
  split
  · rfl
  · next heq =>
    obtain ⟨continuations, rfl⟩ := Store.takeFrames_frame heq
    rfl
  · next heq =>
    obtain ⟨continuations, rfl⟩ := Store.takeFrames_frame heq
    rw [life_beginActivation, Stack.life_cons _ rfl]
    rfl

/-- A generator that is made is a new one. -/
theorem moves_newGenerator (frame : Frame) {s : Stack σ α goal} :
    (s.life i m).Moves (s.life i (m.newGenerator frame).2) := by
  by_cases hi : i = m.generators.next
  · subst hi
    have hnone : m.generators.get? m.generators.next = none := by
      simp [Table.get?, Table.next]
    have hsome : (m.newGenerator frame).2.generators.get? m.generators.next =
        some { frame := some frame } := by
      simp [Store.newGenerator, Table.get?_insert]
    simp only [Stack.life, hnone, hsome]
    exact .made frame _
  · refine .of_eq ?_
    simp [Stack.life, Store.newGenerator, Table.get?_insert, hi]

theorem moves_interpret (e : Executable) (site : CallSite) (s : Stack σ .completion goal) :
    (s.life i m).Moves ((interpret m e site s).life i) := by
  unfold interpret
  dsimp only
  split
  · exact moves_newGenerator i m _
  · refine .of_eq ?_
    rw [life_beginActivation, Stack.life_cons _ rfl]

/-- A generator that holds a frame is known. -/
theorem get?_of_frame {g : Id .generator} {frame : Frame}
    (h : (m.generators.get g).frame = some frame) :
    m.generators.get? g = some (m.generators.get g) := by
  cases hget : m.generators.get? g with
  | none =>
    have hdefault : m.generators.get g = default := by rw [Table.get, hget]; rfl
    rw [hdefault] at h
    cases h
  | some state => rw [Table.get, hget]; rfl

theorem moves_beginStep (g : Generator) (op : GeneratorOp) (c : Id .context) (v : Value)
    (s : Stack σ .step goal) :
    (s.life i m).Moves ((beginStep m g op c v s).life i) := by
  unfold beginStep
  dsimp only
  split
  · cases op <;> exact .stays _
  next hfinished =>
    split
    · exact .stays _
    next frame hframe =>
      have hget := get?_of_frame m hframe
      have hset : ∀ state, (m.generators.set g.id state).get? i =
          if i = g.id then some state else m.generators.get? i := by
        intro state
        rw [Table.set, Table.get?_modify]
        split
        · next h => rw [h, hget]; rfl
        · rfl
      -- the body runs, or is left by what is thrown or returned into it at once
      have hrun : ∀ X : Config σ goal, X.store.generators =
            m.generators.set g.id { frame := none, started := true } →
          X.state.bodies i = (Stack.cons (.bodyEnd g) s).bodies i →
          (s.life i m).Moves (X.life i) := by
        intro X hX hbodies
        rw [life, hX, hbodies, hset, Stack.bodies_cons]
        by_cases h : i = g.id
        · subst h
          simp only [Stack.life, hget, Task.bodies, if_true, Nat.add_comm 1]
          exact .resumed hframe (Bool.eq_false_iff.mpr hfinished) _
        · simp only [Stack.life, Task.bodies, if_neg h, if_neg (Ne.symm h), Nat.zero_add]
          exact .stays _
      have hclose : ∀ X : Config σ goal, X.store.generators =
            m.generators.set g.id { frame := none, started := true, finished := true } →
          X.state.bodies i = s.bodies i → (s.life i m).Moves (X.life i) := by
        intro X hX hbodies
        rw [life, hX, hbodies, hset]
        by_cases h : i = g.id
        · subst h
          simp only [Stack.life, hget, if_true]
          exact .closed hframe _
        · simp only [Stack.life, if_neg h]
          exact .stays _
      split
      · cases op with
        | next => exact hrun _ rfl rfl
        | throw =>
          dsimp only
          split <;> exact hrun _ rfl rfl
        | «return» =>
          dsimp only
          split <;> exact hrun _ rfl rfl
      · cases op with
        | next => exact hrun _ rfl rfl
        | throw | «return» => exact hclose _ rfl rfl

theorem moves_beginResumption (via : Executable) (g : Generator) (op : GeneratorOp)
    (c : Id .context) (scope : Id .scope) (v : Value) (s : Stack σ .step goal) :
    (s.life i m).Moves ((beginResumption host m via g op c scope v s).life i) := by
  unfold beginResumption
  split
  · exact .stays _
  · split
    · exact moves_beginStep _ _ _ _ _ _ _
    · refine .of_eq ?_
      rw [life_beginOutermost]
      exact Stack.life_cons (m := m) _ rfl

theorem moves_beginCall (f : Callable) (site : CallSite) (s : Stack σ .completion goal) :
    (s.life i m).Moves ((beginCall host m f site s).life i) := by
  cases f with
  | executable e =>
    simp only [beginCall]
    split
    · exact moves_interpret _ _ _ _ _
    · exact .of_eq (life_beginOutermost _ _ _ _ _ _ _)
  | hostFunction f => exact .stays _
  | resumption r g op =>
    have hlife : (Stack.cons (.recordStep r) s).life i { m with
        resumptions := m.resumptions.modify r fun x => { x with value := none } } =
          s.life i m := Stack.life_cons (m := m) _ rfl
    rw [← hlife]
    exact moves_beginStep _ _ _ _ _ _ _
  | continuation k v => exact .of_eq (life_beginContinuation _ _ _ _ _ _)

theorem life_beginMake (f : Id .factory) (s : Stack σ .made goal) :
    (beginMake host m f s).life i = s.life i m := by
  unfold beginMake
  split <;> rfl

theorem life_beginBind (c : Id .context) (s : Stack σ .entered goal) :
    (beginBind thread m c s).life i = s.life i m := by
  unfold beginBind
  split
  · rfl
  · exact (Stack.life_cons (m := m) _ rfl).trans (Stack.life_cons (m := m) _ rfl)

theorem life_beginEnter (f : Id .factory) (requested : Option (Id .context))
    (s : Stack σ .entered goal) :
    (beginEnter host thread m f requested s).life i = s.life i m := by
  unfold beginEnter
  split
  · rfl
  · split
    · exact life_beginBind _ _ _ _ _
    · exact (life_beginMake _ _ _ _ _).trans (Stack.life_cons _ rfl)

theorem life_beginExit (s : Stack σ .left goal) :
    (beginExit thread m s).life i = s.life i m := by
  unfold beginExit
  split
  · rfl
  · split
    · rfl
    · rfl
    · exact (Stack.life_cons (m := m) _ rfl).trans (Stack.life_cons (m := m) _ rfl)

theorem moves_beginAction (a : Action) (s : Stack σ a.kind goal) :
    (s.life i m).Moves ((beginAction host thread m a s).life i) := by
  cases a with
  | call f site => exact .stays _
  | callOutermost f site isStrict => exact .of_eq (life_beginOutermost _ _ _ _ _ _ _)
  | execute e c scope =>
    simp only [beginAction]
    split <;> exact .stays _
  | executeCapturing e c scope =>
    simp only [beginAction]
    split
    · exact .stays _
    · exact .of_eq (life_beginCapturingCall _ _ _ _ _ _ _ _)
  | callCapturing e c scope args => exact .of_eq (life_beginCapturingCall _ _ _ _ _ _ _ _)
  | resume k c scope v =>
    simp only [beginAction]
    split
    · exact .stays _
    · split
      · exact .stays _
      · exact .of_eq (life_beginCapturing _ _ _ _ _ _ _ _ _)
  | step via g op c scope v => exact moves_beginResumption _ _ _ _ _ _ _ _ _ _
  | enter f requested => exact .of_eq (life_beginEnter _ _ _ _ _ _ _)
  | exit => exact .of_eq (life_beginExit _ _ _ _)
  | makeContext f => exact .of_eq (life_beginMake _ _ _ _ _)

/-! ## Results, panics and steps -/

/-- The end of a body is entered in the state of its generator, and is waited for no more. -/
theorem life_endBody (g : Generator) (e : Except Abrupt Exit) (s : Stack σ .step goal) :
    (endBody m g e s).life i =
      ⟨if i = g.id then (m.generators.get? i).map (·.leave e) else m.generators.get? i,
        s.bodies i⟩ := by
  unfold endBody
  dsimp only
  split <;> simp only [life, State.bodies, Table.get?_modify] <;> rfl

theorem moves_endBody (g : Generator) (e : Except Abrupt Exit) (s : Stack σ .step goal) :
    ((Stack.cons (.bodyEnd g) s).life i m).Moves ((endBody m g e s).life i) := by
  rw [life_endBody, Stack.life, Stack.bodies_cons]
  by_cases h : i = g.id
  · subst h
    simp only [Task.bodies, if_true, Nat.add_comm 1]
    exact .left e _ _
  · simp only [Task.bodies, if_neg h, if_neg (Ne.symm h), Nat.zero_add]
    exact .stays _

theorem moves_take (t : Task σ α β) (x : α.Result) (s : Stack σ β goal) :
    ((Stack.cons t s).life i m).Moves ((take host thread m t x s).life i) := by
  cases t with
  | bodyEnd g => exact moves_endBody _ _ _ _ _
  | called a =>
    rw [Stack.life_cons _ rfl]
    cases x with
    | ok v => exact .of_eq (life_follow _ _ _ _ _)
    | error e =>
      refine .of_eq ?_
      show (follow (a.fail e m).2 a.context (a.fail e m).1 s).life i = s.life i m
      rw [life_follow, Stack.life, a.generators_fail m e]
      rfl
  | observed a =>
    rw [Stack.life_cons _ rfl]
    cases x with
    | ok u => exact .stays _
    | error reason => exact .of_eq (life_follow _ _ _ _ _)
  | bindMade =>
    rw [Stack.life_cons _ rfl]
    simp only [take]
    split
    · exact .stays _
    · exact .of_eq (life_beginBind _ _ _ _ _)
  | release =>
    rw [Stack.life_cons _ rfl]
    exact .of_eq ((life_beginExit _ _ _ _).trans (Stack.life_cons _ rfl))
  | callEnd =>
    rw [Stack.life_cons _ rfl]
    cases x with
    | ok exit => cases exit <;> exact .stays _
    | error e => exact .stays _
  | flattenResult | recordStep | reportStep =>
    rw [Stack.life_cons _ rfl]
    cases x <;> exact .stays _
  | bracketBody body =>
    rw [Stack.life_cons _ rfl]
    cases x with
    | ok c => exact .of_eq (Stack.life_cons (m := m) _ rfl)
    | error f => exact .stays _
  | notifying event c rest =>
    cases rest with
    | nil =>
      rw [Stack.life_cons _ rfl]
      exact .stays _
    | cons l rest => exact .stays _
  | program | clearTopCall | restoreCaptures | entered | left | released | repanic | guarded =>
    rw [Stack.life_cons _ rfl]
    exact .stays _

theorem moves_passPanic (t : Task σ α β) (s : Stack σ β goal) :
    ((Stack.cons t s).life i m).Moves ((passPanic thread m t s).life i) := by
  cases t with
  | bodyEnd g =>
    rw [Stack.life, Stack.bodies_cons]
    by_cases h : g.id = i
    · simp only [Task.bodies, if_pos h, Nat.add_comm 1]
      exact .dropped _ _
    · simp only [Task.bodies, if_neg h, Nat.zero_add]
      exact .stays _
  | release =>
    rw [Stack.life_cons _ rfl]
    exact .of_eq ((life_beginExit _ _ _ _).trans (Stack.life_cons _ rfl))
  | repanic => exact .crashed _ _
  | _ =>
    rw [Stack.life_cons _ rfl]
    exact .stays _

theorem moves_runProgram {κ : Kind} (p : Program σ κ) (s : Stack σ κ goal) :
    (s.life i m).Moves ((runProgram host thread m p s).life i) := by
  cases p with
  | ask q k =>
    refine .of_eq ?_
    show GeneratorLife.mk ((q.perform host thread m).2.generators.get? i) (s.bodies i) = _
    rw [(q.perform_frame host thread m).1]
    rfl
  | act a k =>
    have hlife : (Stack.cons (.program k) s).life i m = s.life i m := Stack.life_cons _ rfl
    rw [← hlife]
    exact moves_beginAction _ _ _ _ _ _
  | bracket f body k =>
    refine .of_eq ((life_beginEnter _ _ _ _ _ _ _).trans ?_)
    rw [Stack.life_cons _ rfl, Stack.life_cons _ rfl]
  | guard body k =>
    refine .of_eq ?_
    show (Stack.cons .guarded (.cons (.program k) s)).life i m = s.life i m
    rw [Stack.life_cons _ rfl, Stack.life_cons _ rfl]
  | finish | panic => exact .stays _

theorem life_count (a : Activation) (s : Stack σ .exit goal) :
    (count host m a s).life i = s.life i m := by
  unfold count
  dsimp only
  split
  · exact Stack.life_cons (m := m) _ rfl
  · rfl

/-- All that a step can do to a generator. -/
theorem step_moves (X : Config σ goal) : (X.life i).Moves ((X.step host thread).life i) := by
  obtain ⟨m, state⟩ := X
  cases state with
  | running p s => exact moves_runProgram _ _ _ _ _ _
  | calling f site s => exact moves_beginCall _ _ _ _ _ _
  | counting a s => exact .of_eq (life_count _ _ _ _ _)
  | executing a s => exact .of_eq (life_execute _ _ _ _)
  | returning x s =>
    cases s with
    | nil => exact .stays _
    | cons t s => exact moves_take _ _ _ _ _ _ _
  | panicking s =>
    cases s with
    | nil => exact .stays _
    | cons t s => exact moves_passPanic _ _ _ _ _
  | crashed => exact .stays _

end Config

/-! ## Runs -/

/-- The generator has finished. -/
def Store.Finished (m : Store σ) (i : Id .generator) : Prop :=
  ∃ state, m.generators.get? i = some state ∧ state.finished = true

/-- The body of a generator is waited for at most once, and if it is, then the generator has
been started, has not finished and holds no frame. -/
def GeneratorLife.IsSingle (l : GeneratorLife) : Prop :=
  l.bodies = 0 ∨ l.bodies = 1 ∧ l.state = some { frame := none, started := true }

theorem GeneratorLife.Moves.isSingle {l l' : GeneratorLife} (h : l.Moves l') (hl : l.IsSingle) :
    l'.IsSingle := by
  cases h with
  | stays => exact hl
  | made frame n =>
    rcases hl with hl | ⟨-, hl⟩
    · exact .inl hl
    · cases hl
  | resumed hframe hfinished n =>
    rcases hl with hl | ⟨-, hl⟩
    · simp only at hl
      exact .inr ⟨by rw [hl], rfl⟩
    · cases hl
      cases hframe
  | closed hframe n =>
    rcases hl with hl | ⟨-, hl⟩
    · exact .inl hl
    · cases hl
      cases hframe
  | left e state n | dropped state n =>
    rcases hl with hl | ⟨hl, -⟩
    · cases hl
    · exact .inl (Nat.succ.inj hl)
  | crashed => exact .inl rfl

theorem GeneratorLife.Moves.finished {l l' : GeneratorLife} (h : l.Moves l')
    (hl : ∃ state, l.state = some state ∧ state.finished = true) :
    ∃ state, l'.state = some state ∧ state.finished = true := by
  cases h with
  | stays | dropped | crashed => exact hl
  | made frame n =>
    obtain ⟨state, hstate, -⟩ := hl
    cases hstate
  | resumed hframe hfinished n =>
    obtain ⟨state, hstate, hf⟩ := hl
    cases hstate
    rw [hf] at hfinished
    cases hfinished
  | closed => exact ⟨_, rfl, rfl⟩
  | left e state n =>
    obtain ⟨st, rfl, hf⟩ := hl
    refine ⟨st.leave e, rfl, ?_⟩
    rcases e with e | (v | ⟨v, f⟩)
    · rfl
    · rfl
    · exact hf

/-- A generator that holds no frame and whose body nobody waits for is left alone. -/
theorem GeneratorLife.Moves.rests {l l' : GeneratorLife} (h : l.Moves l') {state : GeneratorState}
    (hstate : l.state = some state) (hframe : state.frame = none) (hbodies : l.bodies = 0) :
    l' = l := by
  cases h with
  | stays => rfl
  | made => cases hstate
  | resumed hsome | closed hsome =>
    cases hstate
    rw [hframe] at hsome
    cases hsome
  | left | dropped => cases hbodies
  | crashed state n => rw [show n = 0 from hbodies]

namespace Config

variable (host : Host σ) (thread : Id .thread) {i : Id .generator} {X : Config σ goal}

theorem isSingle_run (h : (X.life i).IsSingle) (n : Nat) :
    ((X.run host thread n).life i).IsSingle := by
  induction n generalizing X with
  | zero => exact h
  | succ n ih => exact ih ((step_moves i host thread X).isSingle h)

/-- A generator that has finished stays so. -/
theorem finished_run (h : X.store.Finished i) (n : Nat) :
    (X.run host thread n).store.Finished i := by
  induction n generalizing X with
  | zero => exact h
  | succ n ih => exact ih ((step_moves i host thread X).finished h)

/-- Code on a stack of its own leaves a generator alone whose body runs beneath. -/
theorem life_run_eq {state : GeneratorState} (hstate : X.store.generators.get? i = some state)
    (hframe : state.frame = none) (hbodies : X.state.bodies i = 0) (n : Nat) :
    (X.run host thread n).life i = X.life i := by
  induction n generalizing X with
  | zero => rfl
  | succ n ih =>
    have hstep := (step_moves i host thread X).rests hstate hframe hbodies
    have hget : (X.step host thread).store.generators.get? i = some state :=
      (congrArg GeneratorLife.state hstep).trans hstate
    have hnone : (X.step host thread).state.bodies i = 0 :=
      (congrArg GeneratorLife.bodies hstep).trans hbodies
    exact (ih hget hnone).trans hstep

end Config

end ScriptMachine
