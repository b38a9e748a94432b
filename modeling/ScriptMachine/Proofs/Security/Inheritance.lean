import ScriptMachine.Proofs.Machine.Hosts
import ScriptMachine.Proofs.Safety.Run

/-!
# Security is inherited

An executable that host code creates has the controller of the context that the running thread is
bound to, and the domain that this controller answers then. Whatever is made from its nested
routines, at any depth, carries both on: `Executable.Within.security`. A closure takes them from
the unit whose code makes it; the context that runs the code has no part in it
(`Config.step_closure`).
-/

namespace ScriptMachine

variable {σ : Type} {goal : Kind}

/-! ## Nested routines -/

namespace Executable

variable {root e f : Executable} {id : Id .executable} {index : Nat}

/-- An executable, and all that is made from its nested routines at any depth. -/
inductive Within (root : Executable) : Executable → Prop
  | self : Within root root
  | nested {e f : Executable} (id : Id .executable) (index : Nat) (h : Within root e)
      (hf : e.nested? id index = some f) : Within root f

theorem eq_of_nested? (h : e.nested? id index = some f) :
    e.shared.nested? index = some f.shared ∧ f.id = id ∧ f.security = e.security := by
  unfold nested? at h
  split at h
  · next shared hshared =>
    cases h
    exact ⟨hshared, rfl, rfl⟩
  · cases h

theorem Within.security (h : Within root e) : e.security = root.security := by
  induction h with
  | self => rfl
  | nested id index h hf ih => exact (eq_of_nested? hf).2.2.trans ih

end Executable

/-! ## Creation -/

/-- An executable that is to be created from code, with a static domain. -/
structure Creation where
  kind : RoutineKind
  code : SharedRoutine
  domain : Option Payload

namespace Creation

/-- The code is of the kind that is asked for, and is valid. -/
def Fits (r : Creation) : Prop := r.code.routine.kind = r.kind ∧ r.code.routine.Valid

instance (r : Creation) : Decidable r.Fits :=
  inferInstanceAs (Decidable (r.code.routine.kind = r.kind ∧ r.code.routine.Valid))

/-- The controller that is consulted about it, by a thread on a store. Code that does not fit is
rejected before. -/
def consults? (r : Creation) (thread : Id .thread) (m : Store σ) : Option (Id .controller) :=
  if r.Fits then (m.current? thread).bind fun c => (m.context c).controller else none

theorem consults?_eq_some_iff {r : Creation} {thread : Id .thread} {m : Store σ}
    {k : Id .controller} : r.consults? thread m = some k ↔
      r.Fits ∧ ∃ c, m.current? thread = some c ∧ (m.context c).controller = some k := by
  unfold consults?
  split
  · next h => simp [h, Option.bind_eq_some_iff]
  · next h => simp [h]

/-- The security that it has for a context: its controller, and the domain that this answers. -/
def security? (r : Creation) (host : Host σ) (m : Store σ) (c : Id .context) : Option Security :=
  (m.context c).controller.map fun k => ⟨k, (host.resolve k r.domain m.host).1⟩

/-- What comes of it. -/
def perform (r : Creation) (host : Host σ) (thread : Id .thread) (m : Store σ) :
    Except Fault Executable × Store σ :=
  m.createExecutable host thread r.kind r.code r.domain

variable (r : Creation) (host : Host σ) (thread : Id .thread) (m : Store σ)

/-- Under a controller, code that fits is created with the controller and the domain that it
answers when it is consulted once. Without one, code that fits and has no domain is created without
security. All else is rejected, and nothing changes. -/
theorem perform_cases :
    (∃ k e, r.consults? thread m = some k ∧
        r.perform host thread m =
          (.ok e, (Store.fresh { m with host := (host.resolve k r.domain m.host).2 }
            .executable).2) ∧
        e.shared = r.code ∧ e.security = some ⟨k, (host.resolve k r.domain m.host).1⟩) ∨
      (∃ c e, r.consults? thread m = none ∧ r.Fits ∧ m.current? thread = some c ∧
        (m.context c).controller = none ∧ r.domain = none ∧
        r.perform host thread m = (.ok e, (m.fresh .executable).2) ∧
        e.shared = r.code ∧ e.security = none) ∨
      r.consults? thread m = none ∧ ∃ fault, r.perform host thread m = (.error fault, m) := by
  unfold perform Store.createExecutable
  split
  · next hkind => exact .inr (.inr ⟨if_neg fun h => hkind h.1, _, rfl⟩)
  · next hkind =>
    split
    · next d hd =>
      refine .inr (.inr ⟨if_neg fun h => ?_, _, rfl⟩)
      cases hd.symm.trans h.2
    · next hvalid =>
      have hfits : r.Fits := ⟨Decidable.not_not.mp hkind, hvalid⟩
      have hconsults : r.consults? thread m =
          (m.current? thread).bind fun c => (m.context c).controller := if_pos hfits
      split
      · next hcurrent =>
        rw [hcurrent] at hconsults
        exact .inr (.inr ⟨hconsults, _, rfl⟩)
      · next c hcurrent =>
        rw [hcurrent, Option.bind_some] at hconsults
        split
        · next k hk => exact .inl ⟨k, _, hconsults.trans hk, rfl, rfl, rfl⟩
        · next hnone =>
          -- There is nobody to answer for a domain.
          have hconsults := hconsults.trans hnone
          split
          · exact .inr (.inr ⟨hconsults, _, rfl⟩)
          · next hdomain =>
            have hdomain : r.domain = none := by simpa using hdomain
            exact .inr (.inl ⟨c, _, hconsults, hfits, hcurrent, hnone, hdomain, rfl, rfl, rfl⟩)

theorem perform_of_consults?_eq_none (h : r.consults? thread m = none)
    (resolve : Id .controller → Option Payload → σ → Option Payload × σ) :
    r.perform { host with resolve } thread m = r.perform host thread m := by
  unfold perform Store.createExecutable
  split
  · rfl
  · next hkind =>
    split
    · rfl
    · next hvalid =>
      split
      · rfl
      · next c hcurrent =>
        split
        · next k hk =>
          rw [consults?, if_pos ⟨Decidable.not_not.mp hkind, hvalid⟩, hcurrent] at h
          cases hk.symm.trans h
        · rfl

end Creation

/-- The executable that host code is about to have created. -/
def State.creation? : State σ goal → Option Creation
  | .running (.ask (.code (.create kind code domain)) _) _ => some ⟨kind, code, domain⟩
  | _ => none

namespace Config

variable (host : Host σ) (thread : Id .thread)

/-- The controller that the next step consults. -/
def consults? (X : Config σ goal) : Option (Id .controller) :=
  X.state.creation?.bind fun r => r.consults? thread X.store

/-- The executable that the next step creates. -/
def creates? (X : Config σ goal) : Option Executable :=
  X.state.creation?.bind fun r => (r.perform host thread X.store).1.toOption

theorem store_step_of_creation? {X : Config σ goal} {r : Creation}
    (h : X.state.creation? = some r) :
    (X.step host thread).store = (r.perform host thread X.store).2 := by
  obtain ⟨m, state⟩ := X
  dsimp only at h
  unfold State.creation? at h
  split at h <;> cases h
  rfl

/-- What is created is secured for the context that the thread is bound to. Without a controller no
domain may be asked for. -/
theorem security_of_creates? {X : Config σ goal} {e : Executable}
    (h : X.creates? host thread = some e) :
    ∃ r c, X.state.creation? = some r ∧ X.store.current? thread = some c ∧ e.shared = r.code ∧
      e.security = r.security? host X.store c ∧
      ((X.store.context c).controller = none → r.domain = none) := by
  obtain ⟨r, hr, hcreated⟩ := Option.bind_eq_some_iff.mp h
  rcases r.perform_cases host thread X.store with ⟨k, e', hk, hperform, hcode, hsecurity⟩ |
    ⟨c, e', -, -, hcurrent, hcontroller, hdomain, hperform, hcode, hsecurity⟩ | ⟨-, fault, hperform⟩
  · rw [hperform] at hcreated
    cases hcreated
    obtain ⟨-, c, hcurrent, hcontroller⟩ := Creation.consults?_eq_some_iff.mp hk
    refine ⟨r, c, hr, hcurrent, hcode, ?_, fun hnone => ?_⟩
    · rw [hsecurity, Creation.security?, hcontroller, Option.map_some]
    · cases hcontroller.symm.trans hnone
  · rw [hperform] at hcreated
    cases hcreated
    refine ⟨r, c, hr, hcurrent, hcode, ?_, fun _ => hdomain⟩
    rw [hsecurity, Creation.security?, hcontroller, Option.map_none]
  · rw [hperform] at hcreated
    cases hcreated

/-- A controller is consulted by the steps that create something on a context which has it. -/
theorem consults?_eq_some_iff {X : Config σ goal} {k : Id .controller} :
    X.consults? thread = some k ↔ ∃ e c, X.creates? host thread = some e ∧
      X.store.current? thread = some c ∧ (X.store.context c).controller = some k := by
  constructor
  · intro h
    obtain ⟨r, hr, hk⟩ := Option.bind_eq_some_iff.mp h
    obtain ⟨-, c, hcurrent, hcontroller⟩ := Creation.consults?_eq_some_iff.mp hk
    rcases r.perform_cases host thread X.store with ⟨k', e, -, hperform, -⟩ | ⟨-, -, hnone, -⟩ |
      ⟨hnone, -⟩
    · refine ⟨e, c, ?_, hcurrent, hcontroller⟩
      rw [creates?, hr, Option.bind_some, hperform]
      rfl
    · cases hnone.symm.trans hk
    · cases hnone.symm.trans hk
  · rintro ⟨e, c, hcreates, hcurrent, hcontroller⟩
    obtain ⟨r, hr, hcreated⟩ := Option.bind_eq_some_iff.mp hcreates
    rw [consults?, hr, Option.bind_some]
    rcases r.perform_cases host thread X.store with ⟨k', e', hk, -⟩ |
      ⟨c', e', -, -, hcurrent', hnone, -⟩ | ⟨-, fault, hperform⟩
    · obtain ⟨-, c', hcurrent', hcontroller'⟩ := Creation.consults?_eq_some_iff.mp hk
      cases hcurrent.symm.trans hcurrent'
      rw [hk, ← hcontroller, ← hcontroller']
    · cases hcurrent.symm.trans hcurrent'
      cases hcontroller.symm.trans hnone
    · rw [hperform] at hcreated
      cases hcreated

/-- It is consulted once. -/
theorem store_step_of_consults? {X : Config σ goal} {k : Id .controller} {r : Creation}
    (h : X.consults? thread = some k) (hr : X.state.creation? = some r) :
    (X.step host thread).store =
      (Store.fresh { X.store with host := (host.resolve k r.domain X.store.host).2 }
        .executable).2 := by
  rw [consults?, hr, Option.bind_some] at h
  rcases r.perform_cases host thread X.store with ⟨k', e, hk, hperform, -⟩ | ⟨-, -, hnone, -⟩ |
    ⟨hnone, -⟩
  · cases hk.symm.trans h
    rw [store_step_of_creation? host thread hr, hperform]
  · cases hnone.symm.trans h
  · cases hnone.symm.trans h

/-- A step that consults no controller is the same whatever controllers answer. -/
theorem step_of_consults?_eq_none {X : Config σ goal} (h : X.consults? thread = none)
    (resolve : Id .controller → Option Payload → σ → Option Payload × σ) :
    X.step { host with resolve } thread = X.step host thread := by
  apply step_congr_host host thread host.notify resolve
  · intros
    rfl
  · intro κ kind code domain k s hstate
    have hnone : Creation.consults? ⟨kind, code, domain⟩ thread X.store = none := by
      rwa [consults?, hstate] at h
    exact Creation.perform_of_consults?_eq_none _ host thread X.store hnone resolve

/-- A closure is made from the routine with its index in the unit whose code is executed, and has
the security of the unit. -/
theorem step_closure {m : Store σ} {a : Activation} {f g : Frame} {callers : List Frame}
    {index : UInt16} (hframes : a.frames = f :: callers)
    (hfetch : f.fetch? = some (.closure index, g)) (s : Stack σ .exit goal) :
    ∃ e, f.body.nested? (m.fresh .executable).1 index.toNat = some e ∧
      e.security = f.body.security ∧
      step host thread ⟨m, .executing a s⟩ =
        ⟨(m.fresh .executable).2,
          .counting { a with frames := g.push (.executable e) :: callers } s⟩ := by
  obtain ⟨hcode, rfl⟩ := Frame.fetch?_eq_some_iff.mp hfetch
  obtain ⟨e, he⟩ := Option.isSome_iff_exists.mp (Executable.nested?_isSome
    (m.fresh .executable).1 (f.body.valid.closure_lt hcode))
  refine ⟨e, he, (Executable.eq_of_nested? he).2.2, ?_⟩
  have hperform : Frame.perform { f with position := f.position + 1 } (.closure index) m =
      (.ok (), Frame.push { f with position := f.position + 1 } (.executable e),
        (m.fresh .executable).2) := by
    simp only [Frame.perform, he]
  have hexecute : a.execute m = (.flow (.next { a with
      frames := Frame.push { f with position := f.position + 1 } (.executable e) :: callers }),
        (m.fresh .executable).2) := by
    simp only [Activation.execute, hframes, hfetch, Activation.perform, hperform]
  simp only [step, execute, hexecute, follow]

end Config

end ScriptMachine
