import ScriptMachine.Proofs.Safety.Frame

/-!
# Code with an explicit return at its end

Code that comes to its end completes its call with undefined. The same can be spelled out by two
more instructions, which `Routine.explicit` appends to the routines of a set, wherever they are
nested. Positions and targets keep their meaning, so valid code stays valid:
`Routine.defect?_explicit`.

Values and frames hold code. They are mapped along with it, and what is computed from them does
not depend on the mapping.
-/

namespace ScriptMachine

/-- A set of routines that may be run. -/
structure Units where
  has : Routine → Bool
  valid {r : Routine} (h : has r = true) : r.Valid

/-- The valid routines with a name. -/
def Units.named (name : String) : Units where
  has r := decide (r.name = some name ∧ r.Valid)
  valid h := (of_decide_eq_true h).2

/-- What returns undefined. -/
def returnUndefined : Array Instruction := #[.undefined, .ret]

variable (U : Units)

/-! ## Routines -/

namespace Routine

mutual

/-- The routine with explicit returns in place of those at the end of the code of the units. -/
def explicit (U : Units) : Routine → Routine
  | ⟨name, kind, gen, strict, expr, params, names, consts, code, nested⟩ =>
    let r : Routine := ⟨name, kind, gen, strict, expr, params, names, consts, code, nested⟩
    { r with
      code := if U.has r then code ++ returnUndefined else code
      nested := explicitAll U nested }

/-- Some routines with explicit returns. -/
def explicitAll (U : Units) : List Routine → List Routine
  | [] => []
  | r :: rest => explicit U r :: explicitAll U rest

end

theorem explicitAll_eq_map (rs : List Routine) : explicitAll U rs = rs.map (explicit U) := by
  induction rs with
  | nil => rfl
  | cons r rest ih => rw [explicitAll, ih, List.map_cons]

theorem explicit_eq (r : Routine) :
    r.explicit U = { r with
      code := if U.has r then r.code ++ returnUndefined else r.code
      nested := r.nested.map (explicit U) } := by
  cases r
  rw [explicit, explicitAll_eq_map]

variable (r : Routine)

@[simp] theorem name_explicit : (r.explicit U).name = r.name := by rw [explicit_eq]

@[simp] theorem kind_explicit : (r.explicit U).kind = r.kind := by rw [explicit_eq]

@[simp] theorem isGenerator_explicit : (r.explicit U).isGenerator = r.isGenerator := by
  rw [explicit_eq]

@[simp] theorem isStrict_explicit : (r.explicit U).isStrict = r.isStrict := by rw [explicit_eq]

@[simp] theorem paramCount_explicit : (r.explicit U).paramCount = r.paramCount := by
  rw [explicit_eq]

@[simp] theorem names_explicit : (r.explicit U).names = r.names := by rw [explicit_eq]

@[simp] theorem isConst_explicit : (r.explicit U).isConst = r.isConst := by rw [explicit_eq]

@[simp] theorem isScript_explicit : (r.explicit U).isScript = r.isScript := by
  rw [isScript, kind_explicit, isScript]

@[simp] theorem nested_explicit : (r.explicit U).nested = r.nested.map (explicit U) := by
  rw [explicit_eq]

theorem code_explicit_of_has {r : Routine} (h : U.has r = true) :
    (r.explicit U).code = r.code ++ returnUndefined := by
  rw [explicit_eq]
  exact if_pos h

theorem code_explicit_of_not_has {r : Routine} (h : U.has r = false) :
    (r.explicit U).code = r.code := by
  rw [explicit_eq]
  exact if_neg (Bool.eq_false_iff.mp h)

/-- An instruction keeps its position. -/
theorem getElem?_code_explicit {position : Nat} {i : Instruction}
    (h : r.code[position]? = some i) : (r.explicit U).code[position]? = some i := by
  cases hhas : U.has r with
  | true =>
    rw [code_explicit_of_has U hhas]
    obtain ⟨hlt, hi⟩ := Array.getElem?_eq_some_iff.mp h
    rw [Array.getElem?_append_left hlt, h]
  | false => rw [code_explicit_of_not_has U hhas, h]

end Routine

/-! ## Validity -/

/-- What code may refer to it may refer to when it is longer. -/
theorem Extent.flaw?_of_longer {x y : Extent} (hcode : x.code ≤ y.code)
    (hslots : y.slots = x.slots) (hnested : y.nested = x.nested)
    (hgen : y.isGenerator = x.isGenerator) {position : Nat} {i : Instruction}
    (h : x.flaw? position i = none) : y.flaw? position i = none := by
  cases i with
  | jump target | jumpIfFalse target =>
    have hle : ¬ x.code < target := not_of_flaw?_eq_none h
    exact if_neg (by omega)
  | loadLocal slot | storeLocal slot =>
    rw [← h, flaw?, flaw?, hslots]
  | closure index => rw [← h, flaw?, flaw?, hnested]
  | yield => rw [← h, flaw?, flaw?, hgen]
  | enterTry catchAt finallyAt =>
    have hany : ∀ target : Option Nat, target.any (x.code < ·) = false →
        target.any (y.code < ·) = false := by
      rintro (_ | t) ht
      · rfl
      · simp only [Option.any_some, decide_eq_false_iff_not] at ht ⊢
        omega
    rcases catchAt with _ | c <;> rcases finallyAt with _ | d
    · cases h
    all_goals
      have hnot := not_of_flaw?_eq_none h
      rw [Bool.not_eq_true, Bool.or_eq_false_iff] at hnot
      refine if_neg ?_
      rw [Bool.not_eq_true, Bool.or_eq_false_iff]
      exact ⟨hany _ hnot.1, hany _ hnot.2⟩
  | _ => rfl

namespace Routine

theorem flaw?_eq_none_iff {r : Routine} :
    r.flaw? = none ↔ r.paramCount ≤ r.names.size ∧ r.isConst.size = r.names.size ∧
      (r.isGenerator && r.isScript) = false ∧
        ∀ position i, r.code[position]? = some i → r.extent.flaw? position i = none := by
  have hcode : (∀ position i, r.code[position]? = some i → r.extent.flaw? position i = none) ↔
      (r.code.toList.zipIdx.findSome? fun x => r.extent.flaw? x.2 x.1) = none := by
    rw [List.findSome?_eq_none_iff]
    constructor
    · rintro h ⟨i, position⟩ hi
      rw [List.mem_zipIdx_iff_getElem?, Array.getElem?_toList] at hi
      exact h position i hi
    · intro h position i hi
      refine h (i, position) ?_
      rw [List.mem_zipIdx_iff_getElem?, Array.getElem?_toList]
      exact hi
  rw [hcode, flaw?, ← Nat.not_lt]
  by_cases hparams : r.names.size < r.paramCount
  · simp [hparams]
  by_cases hconst : r.isConst.size = r.names.size
  · by_cases hscript : (r.isGenerator && r.isScript) = true
    · simp [hparams, hconst, hscript]
    · simp [hparams, hconst, hscript]
  · simp [hparams, hconst]

theorem flaw?_explicit_of_has {r : Routine} (h : U.has r = true) :
    (r.explicit U).flaw? = none := by
  obtain ⟨hparams, hconst, hscript, hcode⟩ := flaw?_eq_none_iff.mp (U.valid h).flaw?_eq_none
  have hlength : (r.explicit U).code = r.code ++ returnUndefined := code_explicit_of_has U h
  refine flaw?_eq_none_iff.mpr ⟨?_, ?_, ?_, fun position i hi => ?_⟩
  · rwa [paramCount_explicit, names_explicit]
  · rwa [isConst_explicit, names_explicit]
  · rwa [isGenerator_explicit, isScript_explicit]
  · rw [hlength, Array.getElem?_append] at hi
    split at hi
    · refine Extent.flaw?_of_longer ?_ ?_ ?_ ?_ (hcode position i hi)
      · simp [extent, hlength]
      · simp [extent]
      · simp [extent]
      · simp [extent]
    · -- what is appended refers to nothing
      have hmem := Array.mem_of_getElem? hi
      simp only [returnUndefined, List.mem_toArray, List.mem_cons, List.not_mem_nil,
        or_false] at hmem
      rcases hmem with rfl | rfl <;> rfl

theorem flaw?_explicit_of_not_has {r : Routine} (h : U.has r = false) :
    (r.explicit U).flaw? = r.flaw? := by
  have hextent : (r.explicit U).extent = r.extent := by
    simp [extent, code_explicit_of_not_has U h]
  simp only [flaw?, hextent, code_explicit_of_not_has U h, paramCount_explicit, names_explicit,
    isConst_explicit, isGenerator_explicit, isScript_explicit]

mutual

/-- Validation says the same of code with explicit returns. -/
theorem defect?_explicit : ∀ r : Routine, (r.explicit U).defect? = r.defect?
  | ⟨name, kind, gen, strict, expr, params, names, consts, code, nested⟩ => by
    have hnested := firstDefect?_explicit nested
    rw [defect?_eq, defect?_eq]
    simp only [name_explicit, nested_explicit, hnested]
    cases hhas : U.has ⟨name, kind, gen, strict, expr, params, names, consts, code, nested⟩ with
    | true => rw [flaw?_explicit_of_has U hhas, (U.valid hhas).flaw?_eq_none]
    | false => rw [flaw?_explicit_of_not_has U hhas]

theorem firstDefect?_explicit :
    ∀ rs : List Routine, firstDefect? (rs.map (explicit U)) = firstDefect? rs
  | [] => rfl
  | r :: rest => by
    rw [List.map_cons, firstDefect?, firstDefect?, defect?_explicit r, firstDefect?_explicit rest]

end

theorem Valid.explicit {r : Routine} (h : r.Valid) : (r.explicit U).Valid := by
  rwa [Valid, defect?_explicit]

end Routine

/-! ## One unit alone -/

open Classical in
/-- One routine that may be run, and no other. -/
noncomputable def Units.only (u : Routine) (hu : u.Valid) : Units where
  has r := decide (r = u)
  valid h := of_decide_eq_true h ▸ hu

theorem Units.has_only {u r : Routine} (hu : u.Valid) : (only u hu).has r = true ↔ r = u := by
  simp only [only, decide_eq_true_eq]

namespace Routine

variable {u : Routine} (hu : u.Valid)

mutual

/-- Routines that are smaller than the unit do not hold it. -/
theorem explicit_only_of_lt : ∀ r : Routine, sizeOf r < sizeOf u → r.explicit (.only u hu) = r
  | ⟨name, kind, gen, strict, expr, params, names, consts, code, nested⟩, hlt => by
    have hne : Units.has (.only u hu)
        ⟨name, kind, gen, strict, expr, params, names, consts, code, nested⟩ = false := by
      rw [Bool.eq_false_iff, Ne, Units.has_only]
      rintro rfl
      exact absurd hlt (Nat.lt_irrefl _)
    have hnested := map_explicit_only_of_lt nested (by
      simp only [mk.sizeOf_spec] at hlt
      omega)
    rw [explicit_eq, hne, hnested]
    rfl

theorem map_explicit_only_of_lt : ∀ rs : List Routine, sizeOf rs < sizeOf u →
    rs.map (explicit (.only u hu)) = rs
  | [], _ => rfl
  | r :: rest, hlt => by
    simp only [List.cons.sizeOf_spec] at hlt
    rw [List.map_cons, explicit_only_of_lt r (by omega), map_explicit_only_of_lt rest (by omega)]

end

/-- The unit has two more instructions and is otherwise the same. -/
theorem explicit_only :
    u.explicit (.only u hu) = { u with code := u.code ++ #[.undefined, .ret] } := by
  have hhas : Units.has (.only u hu) u = true := (Units.has_only hu).mpr rfl
  have hnested : u.nested.map (explicit (.only u hu)) = u.nested := by
    refine map_explicit_only_of_lt hu _ ?_
    cases u
    simp only [mk.sizeOf_spec]
    omega
  rw [explicit_eq, hhas, hnested]
  rfl

end Routine

end ScriptMachine
