import ScriptMachine.Proofs.Binding.Operation

/-!
# What the threads hold

A thread holds the context that it is bound to with the number of levels that it entered it. An
enter adds a level and an exit drops one, and the threads that did not perform it hold what they
held: `Record.Changes` lists what can become of the holding of one thread, and
`Config.enter_changes` and `Config.exit_changes` say that nothing else can.
-/

namespace ScriptMachine

variable {σ : Type} {α goal : Kind}

/-- The context that a thread is bound to, and how often it was entered. -/
abbrev Holding : Type := Option (Id .context × Nat)

/-- How often the context was entered. -/
def Holding.levels : Holding → Nat
  | none => 0
  | some (_, n) => n

/-- What a thread holds. -/
def Store.hold? (m : Store σ) (t : Id .thread) : Holding :=
  (m.current? t).map fun c => (c, (m.context c).enterCount)

theorem lookup_release (bindings : List (Id .thread × Id .context)) (thread t : Id .thread) :
    (bindings.filter (·.1 != thread)).lookup t =
      if t = thread then none else bindings.lookup t := by
  induction bindings with
  | nil => simp
  | cons b bindings ih =>
    obtain ⟨owner, c⟩ := b
    by_cases howner : owner = thread
    · subst howner
      have hdrop : ((owner, c) :: bindings).filter (·.1 != owner) =
          bindings.filter (·.1 != owner) := by simp
      rw [hdrop, ih]
      split
      · rfl
      · next ht => rw [List.lookup_cons, beq_false_of_ne ht]
    · have hkeep : ((owner, c) :: bindings).filter (·.1 != thread) =
          (owner, c) :: bindings.filter (·.1 != thread) := by simp [howner]
      rw [hkeep, List.lookup_cons, List.lookup_cons, ih]
      by_cases ht : t = owner
      · subst ht
        simp [howner]
      · rw [beq_false_of_ne ht]

theorem lookup_bind (bindings : List (Id .thread × Id .context)) (thread t : Id .thread)
    (c : Id .context) :
    ((thread, c) :: bindings.filter (·.1 != thread)).lookup t =
      if t = thread then some c else bindings.lookup t := by
  rw [List.lookup_cons, lookup_release]
  by_cases ht : t = thread
  · simp [ht]
  · simp [ht, beq_false_of_ne ht]

/-- A thread that is bound stays bound to its context. -/
theorem lookup_keep {m : Store σ} {thread : Id .thread} {c : Id .context} {n : Nat}
    (h : m.current? thread = some c) (t : Id .thread) :
    m.bindings.lookup t =
      if t = thread then (if n + 1 = 0 then none else some c) else m.current? t := by
  by_cases ht : t = thread
  · rw [if_pos ht, ht]
    exact h
  · rw [if_neg ht]
    rfl

namespace Store

variable {m m' : Store σ} {thread : Id .thread} {c : Id .context}

theorem SameBindings.registered (h : m.SameBindings m') (hm : m.Registered) : m'.Registered where
  agrees t c := by rw [h.current?, h.contexts, hm.agrees]
  counts c := by rw [h.contexts, hm.counts]

theorem SameBindings.hold? (h : m.SameBindings m') (t : Id .thread) : m'.hold? t = m.hold? t := by
  have hcount (c : Id .context) : (m'.context c).enterCount = (m.context c).enterCount :=
    congrArg Prod.snd (h.contexts c)
  simp only [Store.hold?, h.current?, hcount]

theorem hold?_of_current? (h : m.current? thread = some c) :
    m.hold? thread = some (c, (m.binding c).2) := by
  rw [Store.hold?, h]
  rfl

theorem hold?_of_free (h : m.current? thread = none) : m.hold? thread = none := by
  rw [Store.hold?, h]
  rfl

/-- A thread comes to hold a context with a number of levels. No other thread held this one. -/
theorem Rebinds.hold? {registry : List (Id .thread × Id .context)} {n : Nat}
    (h : m.Rebinds registry c (if n = 0 then none else some thread, n) m')
    (hlookup : ∀ t, registry.lookup t =
      if t = thread then (if n = 0 then none else some c) else m.current? t)
    (hfree : ∀ t, t ≠ thread → m.current? t ≠ some c) (t : Id .thread) :
    m'.hold? t = if t = thread then (if n = 0 then none else some (c, n)) else m.hold? t := by
  have hcurrent : m'.current? t =
      if t = thread then (if n = 0 then none else some c) else m.current? t := by
    rw [Store.current?, h.registry, hlookup]
  rw [Store.hold?, hcurrent]
  by_cases ht : t = thread
  · rw [if_pos ht, if_pos ht]
    by_cases hn : n = 0
    · simp [hn]
    · rw [if_neg hn, if_neg hn]
      exact congrArg (fun b => some (c, b.2)) h.here
  · rw [if_neg ht, if_neg ht, Store.hold?]
    cases hother : m.current? t with
    | none => rfl
    | some c' =>
      have hne : c' ≠ c := by
        rintro rfl
        exact hfree t ht hother
      exact congrArg (fun b => some (c', b.2)) (h.others c' hne)

/-- The agreement survives if the thread held no other context before. -/
theorem Registered.rebind (hm : m.Registered) {registry : List (Id .thread × Id .context)} {n : Nat}
    (hlookup : ∀ t, registry.lookup t =
      if t = thread then (if n = 0 then none else some c) else m.current? t)
    (howner : ∀ t, (m.binding c).1 = some t → t = thread)
    (hheld : ∀ c', m.current? thread = some c' → c' = c)
    (h : m.Rebinds registry c (if n = 0 then none else some thread, n) m') :
    m'.Registered ∧
      ∀ t, m'.hold? t = if t = thread then (if n = 0 then none else some (c, n)) else m.hold? t := by
  have hcurrent (t : Id .thread) : m'.current? t =
      if t = thread then (if n = 0 then none else some c) else m.current? t := by
    rw [Store.current?, h.registry, hlookup]
  have hfree (t : Id .thread) (ht : t ≠ thread) : m.current? t ≠ some c :=
    fun hc => ht (howner t ((hm.agrees t c).mp hc))
  refine ⟨⟨?_, ?_⟩, h.hold? hlookup hfree⟩
  · intro t c'
    rw [hcurrent]
    by_cases ht : t = thread
    · rw [if_pos ht, ht]
      by_cases hc : c' = c
      · rw [hc, h.here]
        by_cases hn : n = 0 <;> simp [hn]
      · rw [h.others c' hc, ← hm.agrees]
        have hold : m.current? thread ≠ some c' := fun hc' => hc (hheld c' hc')
        by_cases hn : n = 0 <;> simp [hn, hold, Ne.symm hc]
    · rw [if_neg ht]
      by_cases hc : c' = c
      · rw [hc, h.here]
        by_cases hn : n = 0 <;> simp [hn, hfree t ht, Ne.symm ht]
      · rw [h.others c' hc, hm.agrees]
  · intro c'
    by_cases hc : c' = c
    · rw [hc, h.here]
      by_cases hn : n = 0 <;> simp [hn]
    · rw [h.others c' hc, hm.counts]

end Store

/-! ## Records of operations -/

/-- An operation that a thread performed, and its result. -/
inductive Record where
  | enter (thread : Id .thread) (f : Id .factory) (requested : Option (Id .context))
      (result : Except Fault (Id .context))
  | exit (thread : Id .thread) (result : Except Fault Unit)

namespace Record

/-- Who performed the operation. -/
def thread : Record → Id .thread
  | .enter thread _ _ _ | .exit thread _ => thread

/-- The error of an operation that failed. -/
def failure? : Record → Option Fault
  | .enter _ _ _ (.error e) | .exit _ (.error e) => some e
  | _ => none

/-- An enter of a thread that succeeded. -/
def opens (t : Id .thread) : Record → Bool
  | .enter thread _ _ (.ok _) => thread == t
  | _ => false

/-- An exit of a thread that succeeded. -/
def closes (t : Id .thread) : Record → Bool
  | .exit thread (.ok _) => thread == t
  | _ => false

/-- What a thread holds before and after an operation, its own or one of another thread. -/
inductive Changes (t : Id .thread) : Record → Holding → Holding → Prop
  | binds (f : Id .factory) (requested : Option (Id .context)) (c : Id .context) :
    Changes t (.enter t f requested (.ok c)) none (some (c, 1))
  | nests (f : Id .factory) (requested : Option (Id .context)) (c : Id .context) (n : Nat) :
    Changes t (.enter t f requested (.ok c)) (some (c, n)) (some (c, n + 1))
  | refuses (f : Id .factory) (requested : Option (Id .context)) (e : Fault) :
    Changes t (.enter t f requested (.error e)) none none
  | unnests (c : Id .context) (n : Nat) :
    Changes t (.exit t (.ok ())) (some (c, n + 2)) (some (c, n + 1))
  | releases (c : Id .context) : Changes t (.exit t (.ok ())) (some (c, 1)) none
  | fails (e : Fault) : Changes t (.exit t (.error e)) none none
  | others {r : Record} (b : Holding) (h : r.thread ≠ t) : Changes t r b b

variable {t : Id .thread} {r : Record} {b b' : Holding}

theorem opens_of_ne (h : r.thread ≠ t) : r.opens t = false := by
  unfold opens
  split
  · exact beq_false_of_ne h
  · rfl

theorem closes_of_ne (h : r.thread ≠ t) : r.closes t = false := by
  unfold closes
  split
  · exact beq_false_of_ne h
  · rfl

/-- Levels are added by the enters of a thread and dropped by its exits. -/
theorem Changes.levels (h : r.Changes t b b') :
    b.levels + (r.opens t).toNat = b'.levels + (r.closes t).toNat := by
  cases h with
  | others b h => rw [opens_of_ne h, closes_of_ne h]
  | _ => simp [Holding.levels, opens, closes]

end Record

/-- An operation of a thread changes the holding of this thread only. -/
theorem Record.changes_of_holds {r : Record} {m m' : Store σ} {thread : Id .thread}
    (hr : r.thread = thread) {b b' : Holding} (hb : m.hold? thread = b)
    (hown : r.Changes thread b b')
    (hholds : ∀ t, m'.hold? t = if t = thread then b' else m.hold? t) (t : Id .thread) :
    r.Changes t (m.hold? t) (m'.hold? t) := by
  rw [hholds]
  by_cases ht : t = thread
  · rw [if_pos ht, ht, hb]
    exact hown
  · rw [if_neg ht]
    exact .others _ fun h => ht (h.symm.trans hr)

theorem Record.changes_of_sameBindings {r : Record} {m m' : Store σ} {thread : Id .thread}
    (hr : r.thread = thread) (hb : m.hold? thread = none) (hown : r.Changes thread none none)
    (h : m.SameBindings m') (t : Id .thread) : r.Changes t (m.hold? t) (m'.hold? t) := by
  refine changes_of_holds hr hb hown ?_ t
  intro t
  rw [h.hold?]
  split
  · next ht => rw [ht, hb]
  · rfl

namespace Config

variable {host : Host σ} {thread : Id .thread} {m m' : Store σ}

/-- What the threads hold before and after an enter. -/
theorem enter_changes (hm : m.Registered) {f : Id .factory} {requested : Option (Id .context)}
    (hrequested : ∀ c, requested = some c → m.Knows c) {x : Except Fault (Id .context)}
    (h : Completes host thread m (.enter f requested) x m') :
    m'.Registered ∧
      ∀ t, (Record.enter thread f requested x).Changes t (m.hold? t) (m'.hold? t) := by
  rcases enter_effect hm hrequested h with ⟨c, hcurrent, rfl, hm'⟩ |
    ⟨hcurrent, c, -, ⟨hfree, rfl, hm'⟩ | ⟨-, ⟨cause, rfl⟩, hsame⟩⟩
  · -- one more level
    obtain ⟨hregistered, hholds⟩ := hm.rebind (n := (m.binding c).2 + 1)
      (lookup_keep hcurrent)
      (fun t ht => by
        rw [(hm.agrees thread c).mp hcurrent] at ht
        exact (Option.some.inj ht).symm)
      (fun c' hc' => Option.some.inj (hc'.symm.trans hcurrent)) hm'
    exact ⟨hregistered, Record.changes_of_holds rfl (Store.hold?_of_current? hcurrent)
      (.nests f requested c _) hholds⟩
  · -- the first level
    obtain ⟨hregistered, hholds⟩ := hm.rebind (n := 1) (fun t => lookup_bind _ _ _ _)
      (fun t ht => by rw [hfree] at ht; cases ht)
      (fun c' hc' => by rw [hcurrent] at hc'; cases hc') hm'
    exact ⟨hregistered, Record.changes_of_holds rfl (Store.hold?_of_free hcurrent)
      (.binds f requested c) hholds⟩
  · exact ⟨hsame.registered hm, Record.changes_of_sameBindings rfl
      (Store.hold?_of_free hcurrent) (.refuses f requested _) hsame⟩

/-- What the threads hold before and after an exit. -/
theorem exit_changes (hm : m.Registered) {x : Except Fault Unit}
    (h : Completes host thread m .exit x m') :
    m'.Registered ∧ ∀ t, (Record.exit thread x).Changes t (m.hold? t) (m'.hold? t) := by
  have howner {c : Id .context} {n : Nat} (hbinding : m.binding c = (some thread, n))
      (t : Id .thread) (ht : (m.binding c).1 = some t) : t = thread := by
    rw [hbinding] at ht
    exact (Option.some.inj ht).symm
  rcases exit_effect hm h with ⟨hcurrent, rfl, rfl⟩ | ⟨c, n, hcurrent, hbinding, rfl, hm'⟩ |
    ⟨c, hcurrent, hbinding, rfl, hm'⟩
  · exact ⟨hm, Record.changes_of_sameBindings rfl (Store.hold?_of_free hcurrent) (.fails _)
      (.refl _)⟩
  · -- one level less
    obtain ⟨hregistered, hholds⟩ := hm.rebind (n := n + 1) (lookup_keep hcurrent)
      (howner hbinding) (fun c' hc' => Option.some.inj (hc'.symm.trans hcurrent)) hm'
    have hold := Store.hold?_of_current? hcurrent
    rw [hbinding] at hold
    exact ⟨hregistered, Record.changes_of_holds rfl hold (.unnests c n) hholds⟩
  · -- the last level
    obtain ⟨hregistered, hholds⟩ := hm.rebind (n := 0) (fun t => lookup_release _ _ _)
      (howner hbinding) (fun c' hc' => Option.some.inj (hc'.symm.trans hcurrent)) hm'
    have hold := Store.hold?_of_current? hcurrent
    rw [hbinding] at hold
    exact ⟨hregistered, Record.changes_of_holds rfl hold (.releases c) hholds⟩

end Config

end ScriptMachine
