import ScriptMachine.Proofs.Binding.Levels
import ScriptMachine.Proofs.Threads.System

/-!
# The registry under any steps

While an enter or an exit is under way, listeners and policies may enter and exit themselves, and
other threads take their steps. `Store.Moves` lists what a single step can do to the bindings.
Whatever the steps are, a thread stays registered only with a context that is bound to it and
entered (`System.entered_run`), and what a thread holds is changed by its own steps only
(`Store.Moves.hold?_of_ne`).
-/

namespace ScriptMachine

variable {σ : Type} {α β goal : Kind}

namespace Store

/-- A thread is registered with no context but one that is bound to it and entered. -/
def Entered (m : Store σ) : Prop :=
  ∀ t c, m.current? t = some c → (m.binding c).1 = some t ∧ 0 < (m.binding c).2

/-- What a step of a thread does to the bindings. -/
inductive Moves (t : Id .thread) (m m' : Store σ) : Prop
  | stays (h : m.SameBindings m')
  | nests (c : Id .context) (hcurrent : m.current? t = some c)
      (h : m.Rebinds m.bindings c ((m.binding c).1, (m.binding c).2 + 1) m')
  | binds (c : Id .context) (hfree : (m.binding c).1 = none)
      (h : m.Rebinds ((t, c) :: m.bindings.filter (·.1 != t)) c (some t, 1) m')
  | unnests (c : Id .context) (n : Nat) (hcurrent : m.current? t = some c)
      (h : m.Rebinds m.bindings c ((m.binding c).1, n + 1) m')
  | releases (c : Id .context) (hcurrent : m.current? t = some c)
      (h : m.Rebinds (m.bindings.filter (·.1 != t)) c (none, 0) m')

variable {t t' : Id .thread} {m m' : Store σ} {c : Id .context}

theorem Entered.knows (hm : m.Entered) (h : m.current? t = some c) : m.Knows c := by
  refine knows_of_binding fun hbinding => ?_
  obtain ⟨hbound, -⟩ := hm t c h
  rw [hbinding] at hbound
  cases hbound

/-- No two threads are registered with one context. -/
theorem Entered.unique (hm : m.Entered) (h : m.current? t = some c) (h' : m.current? t' = some c) :
    t = t' := by
  have hbound := (hm t c h).1
  rw [(hm t' c h').1] at hbound
  exact (Option.some.inj hbound).symm

theorem current?_of_registry {registry : List (Id .thread × Id .context)} {c : Id .context}
    {b : Option (Id .thread) × Nat} (h : m.Rebinds registry c b m') (t : Id .thread) :
    m'.current? t = registry.lookup t := by
  rw [current?, h.registry]

/-- A step of a thread leaves alone what another thread is registered with. -/
theorem Moves.kept (hm : m.Entered) (h : m.Moves t m') (ht : t' ≠ t) :
    m'.current? t' = m.current? t' ∧ ∀ c, m.current? t' = some c → m'.binding c = m.binding c := by
  have hkept {registry : List (Id .thread × Id .context)} {c : Id .context}
      {b : Option (Id .thread) × Nat} (h : m.Rebinds registry c b m')
      (hlookup : registry.lookup t' = m.current? t') (hc : m.current? t' ≠ some c) :
      m'.current? t' = m.current? t' ∧ ∀ c, m.current? t' = some c → m'.binding c = m.binding c := by
    refine ⟨(current?_of_registry h t').trans hlookup, ?_⟩
    intro c' hcurrent
    refine h.others c' ?_
    rintro rfl
    exact hc hcurrent
  cases h with
  | stays h => exact ⟨h.current? t', fun c _ => h.contexts c⟩
  | nests c hcurrent h => exact hkept h rfl fun hc => ht (hm.unique hc hcurrent)
  | binds c hfree h =>
    refine hkept h ((lookup_bind _ _ _ _).trans (if_neg ht)) fun hc => ?_
    rw [(hm t' c hc).1] at hfree
    cases hfree
  | unnests c n hcurrent h => exact hkept h rfl fun hc => ht (hm.unique hc hcurrent)
  | releases c hcurrent h =>
    exact hkept h ((lookup_release _ _ _).trans (if_neg ht)) fun hc => ht (hm.unique hc hcurrent)

theorem Moves.hold?_of_ne (hm : m.Entered) (h : m.Moves t m') (ht : t' ≠ t) :
    m'.hold? t' = m.hold? t' := by
  obtain ⟨hcurrent, hbinding⟩ := h.kept hm ht
  cases hold : m.current? t' with
  | none => rw [hold?_of_free (hcurrent.trans hold), hold?_of_free hold]
  | some c =>
    rw [hold?_of_current? (hcurrent.trans hold), hold?_of_current? hold, hbinding c hold]

theorem Moves.entered (hm : m.Entered) (h : m.Moves t m') : m'.Entered := by
  intro t' c' hcurrent'
  by_cases ht : t' = t
  · subst ht
    cases h with
    | stays h =>
      rw [h.current?] at hcurrent'
      rw [h.contexts]
      exact hm t' c' hcurrent'
    | nests c hcurrent h =>
      rw [current?_of_registry h] at hcurrent'
      cases hcurrent.symm.trans hcurrent'
      rw [h.here]
      exact ⟨(hm t' c' hcurrent).1, Nat.succ_pos _⟩
    | binds c hfree h =>
      rw [current?_of_registry h, lookup_bind, if_pos rfl] at hcurrent'
      cases hcurrent'
      rw [h.here]
      exact ⟨rfl, Nat.one_pos⟩
    | unnests c n hcurrent h =>
      rw [current?_of_registry h] at hcurrent'
      cases hcurrent.symm.trans hcurrent'
      rw [h.here]
      exact ⟨(hm t' c' hcurrent).1, Nat.succ_pos n⟩
    | releases c hcurrent h =>
      rw [current?_of_registry h, lookup_release, if_pos rfl] at hcurrent'
      cases hcurrent'
  · obtain ⟨hcurrent, hbinding⟩ := h.kept hm ht
    rw [hcurrent] at hcurrent'
    rw [hbinding c' hcurrent']
    exact hm t' c' hcurrent'

end Store

/-! ## Steps -/

/-- The context that the next step is to bind, requested by host code or made by a policy. -/
def State.binds? : State σ goal → Option (Id .context)
  | .running (.act (.enter _ requested) _) _ => requested
  | .returning c (.cons .bindMade _) => some c
  | _ => none

theorem Stack.plain_or_cons (t : Task σ α β) (rest : Stack σ β goal) :
    (∀ {γ : Kind} (r : Stack σ β γ), r.IsPlain → (Stack.cons t r).IsPlain) ∨
      ∃ (r : Stack σ α .made) (rest' : Stack σ .entered goal),
        Stack.cons t rest = r.append (.cons .bindMade rest') ∧ r.IsPlain := by
  cases t with
  | bindMade => exact .inr ⟨.nil, rest, rfl, trivial⟩
  | _ => exact .inl fun _ h => h

/-- If a made context waits on a stack, it waits beneath a part on which none does. -/
theorem Stack.plain_or (s : Stack σ α goal) :
    s.IsPlain ∨ ∃ (r : Stack σ α .made) (rest : Stack σ .entered goal),
      s = r.append (.cons .bindMade rest) ∧ r.IsPlain := by
  induction s with
  | nil => exact .inl trivial
  | cons t rest ih =>
    rcases Stack.plain_or_cons t rest with hcons | hfound
    · rcases ih with h | ⟨r, rest', rfl, h⟩
      · exact .inl (hcons rest h)
      · exact .inr ⟨.cons t r, rest', rfl, hcons r h⟩
    · exact .inr hfound

theorem State.plain_or (state : State σ goal) :
    state.IsPlain ∨ ∃ (Y : State σ .made) (rest : Stack σ .entered goal),
      state = Y.onto (.cons .bindMade rest) ∧ Y.IsPlain := by
  cases state with
  | crashed => exact .inl trivial
  | running p s =>
    rcases s.plain_or with h | ⟨r, rest, rfl, h⟩
    · exact .inl h
    · exact .inr ⟨.running p r, rest, rfl, h⟩
  | calling f site s =>
    rcases s.plain_or with h | ⟨r, rest, rfl, h⟩
    · exact .inl h
    · exact .inr ⟨.calling f site r, rest, rfl, h⟩
  | counting a s =>
    rcases s.plain_or with h | ⟨r, rest, rfl, h⟩
    · exact .inl h
    · exact .inr ⟨.counting a r, rest, rfl, h⟩
  | executing a s =>
    rcases s.plain_or with h | ⟨r, rest, rfl, h⟩
    · exact .inl h
    · exact .inr ⟨.executing a r, rest, rfl, h⟩
  | returning x s =>
    rcases s.plain_or with h | ⟨r, rest, rfl, h⟩
    · exact .inl h
    · exact .inr ⟨.returning x r, rest, rfl, h⟩
  | panicking s =>
    rcases s.plain_or with h | ⟨r, rest, rfl, h⟩
    · exact .inl h
    · exact .inr ⟨.panicking r, rest, rfl, h⟩

namespace Config

variable (host : Host σ) {thread : Id .thread} {m : Store σ}

/-- A step that neither begins an operation nor binds a made context leaves every binding as it
is. -/
theorem sameBindings_step {X : Config σ goal} (hnone : X.state.operation? = none)
    (hbinds : X.state.binds? = none) : X.store.SameBindings (X.step host thread).store := by
  obtain ⟨m, state⟩ := X
  dsimp only at hnone hbinds
  rcases state.plain_or with hplain | ⟨Y, rest, rfl, hplain⟩
  · exact (step_quiet host thread (X := ⟨m, state⟩) ⟨.refl m, hplain⟩ hnone).1
  · cases hY : (⟨m, Y⟩ : Config σ .made).ending? with
    | none =>
      have hstep := step_onto host thread (.cons .bindMade rest) hY
      rw [onto_mk] at hstep
      rw [hstep]
      exact (step_quiet host thread (X := ⟨m, Y⟩) ⟨.refl m, hplain⟩
        (operation?_of_onto (s := .cons .bindMade rest) hnone)).1
    | some y =>
      rcases ending_cases hY with ⟨m', c, hend⟩ | ⟨m', hend⟩ | ⟨m', hend⟩
      · cases hend
        cases hbinds
      · cases hend
        exact .refl m
      · cases hend
        exact .refl m

theorem beginBind_moves {c : Id .context} (hknown : m.Knows c) (s : Stack σ .entered goal) :
    m.Moves thread (beginBind thread m c s).store := by
  cases hbound : (m.binding c).1 with
  | some owner =>
    obtain ⟨cause, hbegin⟩ := exists_beginBind_bound thread (by rw [hbound]; rfl) s
    rw [hbegin]
    exact .stays (.refl m)
  | none =>
    obtain ⟨m', hrebinds, hbegin⟩ := exists_beginBind_free thread hknown hbound s
    rw [hbegin]
    exact .binds c hbound hrebinds

theorem beginEnter_moves (hm : m.Entered) {f : Id .factory} {requested : Option (Id .context)}
    (hknown : ∀ c, requested = some c → m.Knows c) (s : Stack σ .entered goal) :
    m.Moves thread (beginEnter host thread m f requested s).store := by
  cases hcurrent : m.current? thread with
  | some c =>
    obtain ⟨m', hrebinds, hbegin⟩ :=
      exists_beginEnter_nested host thread (hm.knows hcurrent) hcurrent f requested s
    rw [hbegin]
    exact .nests c hcurrent hrebinds
  | none =>
    cases requested with
    | some c =>
      simp only [beginEnter, hcurrent]
      exact beginBind_moves (hknown c rfl) s
    | none =>
      refine .stays ?_
      have hmake := beginMake_append host m f .nil (.cons .bindMade s)
      rw [Stack.nil_append] at hmake
      simp only [beginEnter, hcurrent]
      rw [hmake]
      exact (beginMake_quiet host (s := .nil) ⟨.refl m, trivial⟩ f).1

theorem beginExit_moves (hm : m.Entered) (s : Stack σ .left goal) :
    m.Moves thread (beginExit thread m s).store := by
  cases hcurrent : m.current? thread with
  | none =>
    rw [beginExit_free hcurrent]
    exact .stays (.refl m)
  | some c =>
    cases hcount : (m.binding c).2 with
    | zero =>
      have hpos := (hm thread c hcurrent).2
      rw [hcount] at hpos
      exact absurd hpos (Nat.lt_irrefl 0)
    | succ count =>
      cases count with
      | zero =>
        obtain ⟨m', hrebinds, hbegin⟩ := exists_beginExit_last thread hcurrent hcount s
        rw [hbegin]
        exact .releases c hcurrent hrebinds
      | succ count =>
        obtain ⟨m', hrebinds, hbegin⟩ := exists_beginExit_nested thread hcurrent hcount s
        rw [hbegin]
        exact .unnests c count hcurrent hrebinds

/-- All that a step can do to the bindings. -/
theorem bindings_step {X : Config σ goal} (hX : X.store.Entered)
    (hknown : ∀ c, X.state.binds? = some c → X.store.Knows c) :
    X.store.Moves thread (X.step host thread).store := by
  cases hoperation : X.state.operation? with
  | some o =>
    rw [step_of_operation host thread hoperation]
    obtain ⟨m, state⟩ := X
    dsimp only at hoperation hknown hX ⊢
    unfold State.operation? at hoperation
    split at hoperation <;> cases hoperation
    · exact beginEnter_moves host hX hknown _
    · exact beginExit_moves hX _
    · exact beginEnter_moves host hX (fun c hc => by cases hc) _
    · exact beginExit_moves hX _
    · exact beginExit_moves hX _
  | none =>
    cases hbinds : X.state.binds? with
    | none => exact .stays (sameBindings_step host hoperation hbinds)
    | some c =>
      have hc := hknown c hbinds
      obtain ⟨m, state⟩ := X
      dsimp only at hoperation hbinds hc ⊢
      unfold State.binds? at hbinds
      split at hbinds
      · cases hoperation
      · cases hbinds
        simp only [step, take]
        split
        · exact .stays (.refl m)
        · exact beginBind_moves hc _
      · cases hbinds

end Config

/-! ## Systems -/

namespace System

variable {host : Host σ} {S : System σ}

/-- The contexts that the threads are about to bind were made. -/
def Names (S : System σ) : Prop :=
  ∀ thread job c, S.jobs thread = some job → job.state.binds? = some c → S.store.Knows c

theorem entered_play (hS : S.store.Entered) (hnames : S.Names) (e : Event σ) :
    (S.play host e).store.Entered := by
  rcases S.play_cases host e with hstore | ⟨thread, job, -, hjob, hstore⟩
  · rw [hstore]
    exact hS
  · rw [hstore]
    exact (Config.bindings_step host (X := ⟨S.store, job.state⟩) hS
      fun c => hnames thread job c hjob).entered hS

end System

end ScriptMachine
