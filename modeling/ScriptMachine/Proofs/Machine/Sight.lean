import ScriptMachine.Proofs.Machine.Nesting

/-!
# What can be seen of a run

A way to look at configurations tells what there is to see of one, if anything. A run is clear as
long as there is nothing; since a machine does one thing at a time, what is seen next is
determined, and whatever is met without being seen lies on the way.
-/

namespace ScriptMachine

namespace Config

variable {σ ρ : Type} {goal : Kind} (host : Host σ) (thread : Id .thread)
  (see : Config σ goal → Option ρ)

/-- There is nothing to see for a number of steps. -/
def ClearFor (n : Nat) (X Y : Config σ goal) : Prop :=
  X.run host thread n = Y ∧ ∀ k < n, see (X.run host thread k) = none

/-- A run comes to a configuration without anything to see before. -/
def Clear (X Y : Config σ goal) : Prop := ∃ n, ClearFor host thread see n X Y

/-- The next thing to see. -/
def Sees (X : Config σ goal) (r : ρ) : Prop := ∃ Y, Clear host thread see X Y ∧ see Y = some r

variable {host thread see} {X Y Z : Config σ goal} {n k : Nat}

theorem ClearFor.clear (h : ClearFor host thread see n X Y) : Clear host thread see X Y := ⟨n, h⟩

theorem ClearFor.refl (X : Config σ goal) : ClearFor host thread see 0 X X :=
  ⟨rfl, fun _ hk => absurd hk (Nat.not_lt_zero _)⟩

theorem Clear.refl (X : Config σ goal) : Clear host thread see X X := (ClearFor.refl X).clear

theorem ClearFor.trans (h : ClearFor host thread see n X Y)
    (h' : ClearFor host thread see k Y Z) : ClearFor host thread see (n + k) X Z := by
  obtain ⟨rfl, hn⟩ := h
  obtain ⟨rfl, hk⟩ := h'
  refine ⟨run_add host thread X n k, ?_⟩
  intro i hi
  rcases Nat.lt_or_ge i n with hin | hni
  · exact hn i hin
  · obtain ⟨j, rfl⟩ := Nat.exists_eq_add_of_le hni
    rw [run_add]
    exact hk j (by omega)

theorem Clear.trans (h : Clear host thread see X Y) (h' : Clear host thread see Y Z) :
    Clear host thread see X Z := by
  obtain ⟨n, hn⟩ := h
  obtain ⟨k, hk⟩ := h'
  exact (hn.trans hk).clear

variable (host thread see X) in
theorem clearFor_step (h : see X = none) :
    ClearFor host thread see 1 X (X.step host thread) := by
  refine ⟨rfl, ?_⟩
  intro k hk
  obtain rfl : k = 0 := by omega
  exact h

theorem clear_step (h : see X = none) : Clear host thread see X (X.step host thread) :=
  (clearFor_step host thread see X h).clear

/-- A clear run comes past everything that is met before its end. -/
theorem ClearFor.split (h : ClearFor host thread see n X Y) (h' : ClearFor host thread see k X Z)
    (hZ : (see Z).isSome) : ∃ j, k = n + j ∧ ClearFor host thread see j Y Z := by
  obtain ⟨rfl, hn⟩ := h
  obtain ⟨rfl, hk⟩ := h'
  have hle : n ≤ k := by
    refine Nat.le_of_not_lt fun hlt => ?_
    rw [hn k hlt] at hZ
    exact absurd hZ (by simp)
  obtain ⟨j, rfl⟩ := Nat.exists_eq_add_of_le hle
  refine ⟨j, rfl, (run_add host thread X n j).symm, ?_⟩
  intro i hi
  rw [← run_add]
  exact hk (n + i) (by omega)

/-- There is one next configuration with something to see. -/
theorem Clear.unique (h : Clear host thread see X Y) (h' : Clear host thread see X Z)
    (hY : (see Y).isSome) (hZ : (see Z).isSome) : Y = Z := by
  obtain ⟨n, hn⟩ := h
  obtain ⟨k, hk⟩ := h'
  obtain ⟨j, rfl, hj⟩ := hn.split hk hZ
  obtain ⟨i, hi, -⟩ := hk.split hn hY
  obtain rfl : j = 0 := by omega
  exact hj.1

theorem Sees.unique {r r' : ρ} (h : Sees host thread see X r) (h' : Sees host thread see X r') :
    r = r' := by
  obtain ⟨Y, hq, hr⟩ := h
  obtain ⟨Z, hq', hr'⟩ := h'
  obtain rfl := hq.unique hq' (by rw [hr]; rfl) (by rw [hr']; rfl)
  exact Option.some.inj (hr.symm.trans hr')

/-- Nothing was missed on a clear run. -/
theorem Clear.sees_iff (h : Clear host thread see X Y) (r : ρ) :
    Sees host thread see X r ↔ Sees host thread see Y r := by
  obtain ⟨n, hn⟩ := h
  constructor
  · rintro ⟨Z, ⟨k, hk⟩, hZ⟩
    obtain ⟨j, -, hj⟩ := hn.split hk (by rw [hZ]; rfl)
    exact ⟨Z, hj.clear, hZ⟩
  · rintro ⟨Z, hq, hZ⟩
    exact ⟨Z, hn.clear.trans hq, hZ⟩

theorem Clear.exists_run (h : Clear host thread see X Y) : ∃ n, X.run host thread n = Y := by
  obtain ⟨n, hn, -⟩ := h
  exact ⟨n, hn⟩

end Config

end ScriptMachine
