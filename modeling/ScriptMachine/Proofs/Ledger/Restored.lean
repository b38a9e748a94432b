import ScriptMachine.Proofs.Capture.Transparency
import ScriptMachine.Proofs.Ledger.Order

/-!
# Bookkeeping wherever host code can look

At every moment at which host code runs, the depth of a context is the number of its activations
that are under way, and activations and accepted captures belong to a top call. Whatever host
code begins there leaves the bookkeeping of every context as it was, however it ends.
-/

namespace ScriptMachine

variable {σ : Type} {α β goal : Kind}

/-- How many activations of a context a task holds. -/
def Task.activations (c : Id .context) : Task σ α β → Nat
  | .called a | .observed a => if a.context = c then 1 else 0
  | _ => 0

/-- How many activations of a context are under way on a stack. -/
def Stack.activations (c : Id .context) : {α : Kind} → Stack σ α goal → Nat
  | _, .nil => 0
  | _, .cons t rest => t.activations c + rest.activations c

/-- The depth is taken down by one for each activation that is left. -/
theorem Task.Presumes.depth_eq {c : Id .context} {l : Ledger} {t : Task σ α β}
    (h : t.Presumes c l) : l.depth = t.activations c + (t.settle c l).depth := by
  cases t with
  | called a | observed a =>
    simp only [Task.activations, Task.settle, Ledger.leaveIn]
    by_cases hc : a.context = c
    · have hpos := h.2 hc
      rw [if_pos hc, if_pos hc]
      exact (Nat.add_sub_of_le hpos).symm
    · rw [if_neg hc, if_neg hc, Nat.zero_add]
  | clearTopCall other | restoreCaptures other previous =>
    simp only [Task.activations, Task.settle]
    split <;> exact (Nat.zero_add _).symm
  | _ => exact (Nat.zero_add _).symm

theorem Stack.Accounts.depth_eq {c : Id .context} {l : Ledger} {s : Stack σ α goal}
    (h : s.Accounts c l) : l.depth = s.activations c := by
  induction s generalizing l with
  | nil =>
    obtain rfl : l = .idle := h
    rfl
  | cons t rest ih => rw [h.1.depth_eq, ih h.2, Stack.activations]

instance (X : Config σ goal) : Decidable X.IsGrounded :=
  decidable_of_iff (X.state.on?.all fun c => (X.store.contexts.get? c).isSome) <| by
    simp only [Option.all_eq_true_iff_get, Config.IsGrounded, Store.Knows]
    constructor
    · intro h c hc
      simpa only [hc, Option.get_some] using h (by rw [hc]; rfl)
    · intro h hsome
      exact h _ (Option.some_get hsome).symm

namespace Config

variable {host : Host σ} {thread : Id .thread}

/-- Something ended with a result, or a panic came out of it. -/
def IsLeft (X : Config σ goal) : Prop :=
  (∃ x, X.state = .returning x .nil) ∨ X.state = .panicking .nil

theorem Keeps.ledger_eq_of_isLeft {X : Config σ goal} {c : Id .context} {l : Ledger}
    (h : X.Keeps c l) (hX : X.IsLeft) : X.store.Knows c ∧ X.store.ledger c = l := by
  obtain ⟨hk, hsettles⟩ := h
  refine ⟨hk, ?_⟩
  rcases hX with ⟨x, hX⟩ | hX
  · rw [hX] at hsettles
    exact hsettles
  · rw [hX] at hsettles
    exact hsettles

/-- A host whose first function calls an executable again; the others answer true. -/
def callingHost : Host Unit :=
  { uniformHost fun _ => .finish (κ := .completion) (.ok .undefined) with
    run := fun f site =>
      if f = ⟨0⟩ then
        .act (.call (.executable callArgument) { site with args := [.hostFunction ⟨⟨1⟩, "g"⟩] })
          (.finish (κ := .completion))
      else .finish (κ := .completion) (.ok (.bool true)) }

/-- The embedder calls a function with the host function and accepts captures. -/
def capturingCall : Program Unit .completion :=
  .act (.callCapturing callArgument ⟨0⟩ ⟨0⟩ [.hostFunction ⟨⟨0⟩, "f"⟩])
    (.finish (κ := .completion))

/-- In a store with one context that is idle nothing is under way. -/
theorem ledger_of_single {m : Store σ} {cx : Context} (hm : m.contexts = ⟨#[cx]⟩)
    (hcx : cx.ledger = .idle) (c : Id .context) : m.ledger c = .idle := by
  by_cases hc : c = ⟨0⟩
  · subst hc
    rw [Store.ledger, Store.context, hm]
    exact hcx
  · refine Store.ledger_of_not_knows fun hk => hc ?_
    have hlt : c.index < 1 := by
      have hsome : (m.contexts.entries[c.index]?).isSome := hk
      simpa [hm] using hsome
    exact congrArg Id.mk (Nat.lt_one_iff.mp hlt)

theorem isGrounded_capturingCall (n : Nat) :
    ((start oneContext capturingCall).run callingHost ⟨0⟩ n).IsGrounded := by
  have hend : ((start oneContext capturingCall).run callingHost ⟨0⟩ 40).ending?.isSome := by
    decide +kernel
  have hbefore : ∀ n ≤ 40,
      ((start oneContext capturingCall).run callingHost ⟨0⟩ n).IsGrounded := by
    decide +kernel
  exact forall_run_of_ending callingHost ⟨0⟩ hend hbefore n

/-- The call that the host function makes from within. -/
def innerCall : Action :=
  .call (.executable callArgument) ⟨⟨0⟩, ⟨0⟩, .undefined, [.hostFunction ⟨⟨1⟩, "g"⟩]⟩

/-- What is under way beneath the host function that calls back. -/
def beneathCallback : Stack Unit .completion .completion :=
  .cons (.called (activationAt 3 [])) (.cons .callEnd (.cons .flattenResult
    (.cons (.clearTopCall ⟨0⟩) (.cons (.restoreCaptures ⟨0⟩ false)
      (.cons (.program (.finish (κ := .completion))) .nil)))))

/-- The host function is about to call back. -/
def callbackConfig : Config Unit .completion :=
  ⟨whileRunning, .running (.act innerCall (.finish (κ := .completion))) beneathCallback⟩

theorem run_capturingCall :
    (start oneContext capturingCall).run callingHost ⟨0⟩ 9 = callbackConfig := rfl

end Config

end ScriptMachine
