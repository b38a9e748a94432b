import ScriptMachine.Proofs.Machine.Generators

/-!
# Phases of a generator

A generator is suspended, running or finished: it holds the frame of its body, or its body is
under way on the stack, or there is nothing left of it. As long as nobody panics, every step of
the machine takes a generator from one of these phases to one of them, whoever resumes it and
from wherever.
-/

namespace ScriptMachine

variable {σ : Type} {α β γ goal : Kind}

/-! ## Phases -/

/-- Where a generator is in its life. -/
inductive GeneratorPhase where
  | suspended
  | running
  | finished
  deriving DecidableEq, Repr

namespace GeneratorLife

/-- A generator is in a phase. While it is suspended it holds a frame; while it runs, one task on
the stack waits for the end of its body. -/
inductive IsIn : GeneratorLife → GeneratorPhase → Prop
  | suspended (frame : Frame) (started : Bool) :
      IsIn ⟨some { frame := some frame, started }, 0⟩ .suspended
  | running : IsIn ⟨some { frame := none, started := true }, 1⟩ .running
  | finished : IsIn ⟨some { frame := none, started := true, finished := true }, 0⟩ .finished

theorem IsIn.unique {l : GeneratorLife} {p q : GeneratorPhase} (hp : l.IsIn p) (hq : l.IsIn q) :
    p = q := by
  cases hp <;> cases hq <;> rfl

theorem IsIn.bodies_le {l : GeneratorLife} {p : GeneratorPhase} (h : l.IsIn p) : l.bodies ≤ 1 := by
  cases h with
  | running => exact Nat.le_refl 1
  | suspended | finished => exact Nat.zero_le 1

/-- Nobody has made the generator, or it is in a phase. -/
def IsLawful (l : GeneratorLife) : Prop := l = ⟨none, 0⟩ ∨ ∃ phase, l.IsIn phase

theorem IsLawful.exists_phase {l : GeneratorLife} (h : l.IsLawful) (hknown : l.state.isSome) :
    ∃ phase, l.IsIn phase := by
  rcases h with rfl | h
  · cases hknown
  · exact h

/-- What waits for the end of a body waits for that of a running generator. -/
theorem IsLawful.of_bodies {l : GeneratorLife} (h : l.IsLawful) (hbodies : 0 < l.bodies) :
    l = ⟨some { frame := none, started := true }, 1⟩ := by
  rcases h with rfl | ⟨phase, h⟩
  · cases hbodies
  · cases h with
    | running => rfl
    | suspended | finished => cases hbodies

/-- A body that is left with a yield is suspended again; left in any other way it is over. -/
theorem exists_phase_leave (e : Except Abrupt Exit) :
    ∃ phase, IsIn ⟨some (GeneratorState.leave e { frame := none, started := true }), 0⟩ phase := by
  rcases e with e | (v | ⟨v, frame⟩)
  · exact ⟨_, .finished⟩
  · exact ⟨_, .finished⟩
  · exact ⟨_, .suspended frame true⟩

/-- A move on which nothing stops waiting for the body leads from phase to phase. -/
theorem Moves.isLawful {l l' : GeneratorLife} (h : l.Moves l') (hle : l.bodies ≤ l'.bodies)
    (hl : l.IsLawful) : l'.IsLawful := by
  cases h with
  | stays => exact hl
  | made frame n =>
    rcases hl with hl | ⟨phase, hl⟩
    · cases hl
      exact .inr ⟨_, .suspended frame false⟩
    · cases hl
  | @resumed state frame hframe hfinished n =>
    rcases hl with hl | ⟨phase, hl⟩
    · cases hl
    · cases hl with
      | suspended => exact .inr ⟨_, .running⟩
      | running | finished => cases hframe
  | @closed state frame hframe n =>
    rcases hl with hl | ⟨phase, hl⟩
    · cases hl
    · cases hl with
      | suspended => exact .inr ⟨_, .finished⟩
      | running | finished => cases hframe
  | left e state n | dropped state n => exact absurd hle (Nat.not_succ_le_self n)
  | crashed state n =>
    obtain rfl : n = 0 := Nat.le_zero.mp hle
    exact hl

end GeneratorLife

/-- No body is under way and every generator is in a phase. -/
def Store.AtRest (m : Store σ) : Prop :=
  ∀ i, GeneratorLife.IsLawful ⟨m.generators.get? i, 0⟩

/-! ## Activations of a body -/

/-- How often the task on top waits for the end of the body of a generator. -/
def Stack.topBodies (i : Id .generator) : Stack σ α goal → Nat
  | .nil => 0
  | .cons t _ => t.bodies i

/-- Whether a task is an activation that waits. -/
def Task.isActivation : Task σ α β → Bool
  | .called _ | .observed _ => true
  | _ => false

/-- How many of the activations that wait on a stack run the body of a generator. -/
def Stack.bodyActivations (i : Id .generator) : {α : Kind} → Stack σ α goal → Nat
  | _, .nil => 0
  | _, .cons t rest => (if t.isActivation then rest.topBodies i else 0) + rest.bodyActivations i

/-- How many activations run the body of a generator, the one on top included. -/
def State.bodyActivations (i : Id .generator) : State σ goal → Nat
  | .counting _ s | .executing _ s => s.topBodies i + s.bodyActivations i
  | .running _ s | .calling _ _ s | .returning _ s | .panicking s => s.bodyActivations i
  | .crashed => 0

theorem Stack.bodyActivations_le (i : Id .generator) (s : Stack σ α goal) :
    s.topBodies i + s.bodyActivations i ≤ s.bodies i := by
  induction s with
  | nil => exact Nat.le_refl 0
  | cons t rest ih =>
    rw [topBodies, bodyActivations, bodies_cons]
    refine Nat.add_le_add_left (Nat.le_trans ?_ ih) _
    split
    · exact Nat.le_refl _
    · omega

/-- Each activation of a body has a task of its own that waits for its end. -/
theorem State.bodyActivations_le (i : Id .generator) (state : State σ goal) :
    state.bodyActivations i ≤ state.bodies i := by
  cases state with
  | counting a s | executing a s => exact s.bodyActivations_le i
  | running p s | calling f site s | returning x s | panicking s =>
    exact Nat.le_trans (Nat.le_add_left _ _) (s.bodyActivations_le i)
  | crashed => exact Nat.le_refl 0

/-! ## Steps without a panic -/

/-- Nobody has panicked. -/
def State.IsCalm : State σ goal → Prop
  | .panicking _ | .crashed => False
  | _ => True

instance : (state : State σ goal) → Decidable state.IsCalm
  | .panicking _ | .crashed => .isFalse id
  | .running _ _ | .calling _ _ _ | .counting _ _ | .executing _ _ | .returning _ _ =>
    .isTrue trivial

@[simp] theorem Stack.bodies_append (i : Id .generator) (r : Stack σ α β) (s : Stack σ β γ) :
    (r.append s).bodies i = r.bodies i + s.bodies i := by
  induction r with
  | nil => exact (Nat.zero_add _).symm
  | cons t rest ih => simp only [cons_append, bodies_cons, ih, Nat.add_assoc]

namespace Config

variable (host : Host σ) (thread : Id .thread) {i : Id .generator}

/-- What runs above a stack does not take away what waits there. -/
theorem bodies_le_onto {Y : Config σ α} {s : Stack σ α β} (h : (Y.onto s).state ≠ .crashed) :
    s.bodies i ≤ (Y.onto s).state.bodies i := by
  obtain ⟨m, state⟩ := Y
  cases state with
  | crashed => exact absurd rfl h
  | running | calling | counting | executing | returning | panicking =>
    simp only [onto_mk, State.onto, State.bodies, Stack.bodies_append]
    exact Nat.le_add_left _ _

/-- A task stops waiting for the body of a generator only when it is given its end, or when a
panic goes through it. -/
theorem bodies_le_step {X : Config σ goal} (hstep : (X.step host thread).state ≠ .crashed) :
    X.state.bodies i ≤ (X.step host thread).state.bodies i ∨
      ∃ (g : Generator) (s : Stack σ .step goal), g.id = i ∧
        ((∃ x : Except Abrupt Exit, X.state = .returning (κ := .exit) x (.cons (.bodyEnd g) s)) ∨
          X.state = .panicking (.cons (.bodyEnd g) s)) := by
  obtain ⟨m, state⟩ := X
  -- a step leaves what is beneath the top where it is
  have hkept : ∀ {κ : Kind} (Y : Config σ κ) (s : Stack σ κ goal),
      step host thread ⟨m, state⟩ = Y.onto s →
      s.bodies i ≤ (step host thread ⟨m, state⟩).state.bodies i := by
    intro κ Y s heq
    rw [heq] at hstep ⊢
    exact bodies_le_onto hstep
  cases state with
  | running p s => exact .inl (hkept _ s (runProgram_append host thread m p .nil s))
  | calling f site s => exact .inl (hkept _ s (beginCall_append host m f site .nil s))
  | counting a s => exact .inl (hkept _ s (count_append host m a .nil s))
  | executing a s => exact .inl (hkept _ s (execute_append m a .nil s))
  | returning x s =>
    cases s with
    | nil => exact .inl (Nat.le_refl _)
    | cons t s =>
      have hrest := hkept _ s (take_append host thread m t x .nil s)
      cases t with
      | bodyEnd g =>
        by_cases h : g.id = i
        · exact .inr ⟨g, s, h, .inl ⟨x, rfl⟩⟩
        · refine .inl ?_
          simp only [State.bodies, Stack.bodies_cons, Task.bodies, if_neg h, Nat.zero_add]
          exact hrest
      | _ => exact .inl (Nat.le_trans (Nat.le_of_eq (Nat.zero_add _)) hrest)
  | panicking s =>
    cases s with
    | nil => exact .inl (Nat.le_refl _)
    | cons t s =>
      have hrest := hkept _ s (passPanic_append thread m t .nil s)
      cases t with
      | bodyEnd g =>
        by_cases h : g.id = i
        · exact .inr ⟨g, s, h, .inr rfl⟩
        · refine .inl ?_
          simp only [State.bodies, Stack.bodies_cons, Task.bodies, if_neg h, Nat.zero_add]
          exact hrest
      | _ => exact .inl (Nat.le_trans (Nat.le_of_eq (Nat.zero_add _)) hrest)
  | crashed => exact .inl (Nat.le_refl _)

/-- Where something waits for the end of a body, the generator runs, and nothing else waits. -/
theorem life_of_bodyEnd {m : Store σ} {g : Generator} {s : Stack σ .step goal}
    (h : ((Stack.cons (.bodyEnd g) s).life g.id m).IsLawful) :
    m.generators.get? g.id = some { frame := none, started := true } ∧ s.bodies g.id = 0 := by
  have hpos : 0 < ((Stack.cons (.bodyEnd g) s).life g.id m).bodies := by
    simp only [Stack.life, Stack.bodies_cons, Task.bodies, if_true]
    omega
  have hrunning := h.of_bodies hpos
  refine ⟨congrArg GeneratorLife.state hrunning, ?_⟩
  have hone := congrArg GeneratorLife.bodies hrunning
  simp only [Stack.life, Stack.bodies_cons, Task.bodies, if_true] at hone
  omega

/-- A step takes a generator from phase to phase, unless a panic goes through its body. -/
theorem step_isLawful {X : Config σ goal}
    (hX : ∀ (g : Generator) (s : Stack σ .step goal), g.id = i →
      X.state ≠ .panicking (.cons (.bodyEnd g) s))
    (hstep : (X.step host thread).state ≠ .crashed) (h : (X.life i).IsLawful) :
    ((X.step host thread).life i).IsLawful := by
  rcases bodies_le_step host thread (i := i) hstep with hle | ⟨g, s, rfl, ⟨x, hstate⟩ | hstate⟩
  · exact (step_moves i host thread X).isLawful hle h
  · -- the generator ran, and its body was left
    obtain ⟨m, state⟩ := X
    subst hstate
    obtain ⟨hstored, hnone⟩ := life_of_bodyEnd h
    show ((endBody m g x s).life g.id).IsLawful
    rw [life_endBody, if_pos rfl, hstored, hnone]
    exact .inr (GeneratorLife.exists_phase_leave x)
  · exact absurd hstate (hX g s rfl)

/-- From a store at rest, whatever is run without a panic keeps every generator in a phase. -/
theorem run_isLawful {m : Store σ} (hrest : m.AtRest) (p : Program σ goal) {n : Nat}
    (hcalm : ∀ j ≤ n, ((start m p).run host thread j).state.IsCalm) (i : Id .generator) :
    (((start m p).run host thread n).life i).IsLawful := by
  induction n with
  | zero => exact hrest i
  | succ n ih =>
    have hnow := ih fun j hj => hcalm j (Nat.le_succ_of_le hj)
    have hX := hcalm n (Nat.le_succ n)
    have hstep := hcalm (n + 1) (Nat.le_refl _)
    rw [run_add, run_one] at hstep ⊢
    refine step_isLawful host thread ?_ ?_ hnow
    · intro g s _ hpanic
      rw [hpanic] at hX
      exact hX
    · intro hcrashed
      rw [hcrashed] at hstep
      exact hstep

end Config

end ScriptMachine
