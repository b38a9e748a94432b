import ScriptMachine.Machine.Step

/-!
# What a step asks of listeners and controllers

Listeners are run where the stack says that they are to be told, controllers are consulted where
code is to be made executable, and neither anywhere else.
-/

namespace ScriptMachine

variable {σ : Type} {goal : Kind}

/-- Listeners and controllers that behave the same where the next step involves them, make no
difference to it. -/
theorem Config.step_congr_host (host : Host σ) (thread : Id .thread) {X : Config σ goal}
    (notify : Id .listener → ContextEvent → Id .context → Program σ .done)
    (resolve : Id .controller → Option Payload → σ → Option Payload × σ)
    (hnotify : ∀ event c l rest x s,
      X.state = .returning x (.cons (.notifying event c (l :: rest)) s) →
      notify l event c = host.notify l event c)
    (hcreate : ∀ (κ : Kind) kind code domain k (s : Stack σ κ goal),
      X.state = .running (.ask (.code (.create kind code domain)) k) s →
      X.store.createExecutable { host with notify, resolve } thread kind code domain =
        X.store.createExecutable host thread kind code domain) :
    X.step { host with notify, resolve } thread = X.step host thread := by
  obtain ⟨m, state⟩ := X
  cases state with
  | running p s =>
    cases p with
    | ask q k =>
      cases q with
      | code q =>
        cases q with
        | create kind code domain =>
          have hsame := hcreate _ kind code domain k s rfl
          dsimp only at hsame
          simp only [step, runProgram, Query.perform, CodeQuery.perform, hsame]
        | share | nested => rfl
      | _ => rfl
    | act a k => cases a <;> rfl
    | finish | panic | bracket | guard => rfl
  | calling | counting | executing | crashed => rfl
  | returning x s =>
    cases s with
    | nil => rfl
    | cons t s =>
      cases t with
      | notifying event c rest =>
        cases rest with
        | nil => rfl
        | cons l rest => simp only [step, take, hnotify event c l rest x s rfl]
      | flattenResult | called | observed | recordStep | reportStep | bracketBody =>
        cases x
        · rfl
        · rfl
      | callEnd =>
        cases x with
        | ok exit => cases exit <;> rfl
        | error e => rfl
      | _ => rfl
  | panicking s => cases s <;> rfl

end ScriptMachine
