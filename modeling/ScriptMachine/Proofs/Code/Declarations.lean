import Mathlib.Data.List.Induction
import ScriptMachine.Frame.Basic
import ScriptMachine.Proofs.Code.Labels
import ScriptMachine.Proofs.Lists

/-!
# Declarations

The slots of a routine stand in two tables that run side by side, names and constancy, with the
parameters in front. Declarations come in any order: `SlotTables.declare` puts a parameter in front
of the variables that are there already and moves them up by one slot. Main statement: whatever is
declared when, and whatever else is done in between, what is built has the parameters and then the
variables, each in order of declaration and each with its own constancy; the tables are never what
a build fails for; and a call finds each argument in the slot of its parameter.
-/

namespace ScriptMachine

/-- What a slot is declared as. -/
inductive SlotKind where
  | param
  | var
  | const
  deriving DecidableEq, Repr

/-- A slot as it is declared. -/
structure Slot where
  name : String
  kind : SlotKind
  deriving DecidableEq, Repr

namespace Slot

/-- Parameters and variables are not constant. -/
def isConst (s : Slot) : Bool := s.kind = .const

/-- Whether calls bring a value for the slot. -/
def isParam (s : Slot) : Bool := s.kind = .param

/-- The parameters of some declarations, in order. -/
def params (slots : List Slot) : List Slot := slots.filter isParam

/-- All that is declared but parameters, in order. -/
def vars (slots : List Slot) : List Slot := slots.filter (!·.isParam)

/-- Some declarations in order of slots: the parameters, then the variables. -/
def arranged (slots : List Slot) : List Slot := params slots ++ vars slots

/-- The slots in front are those of the parameters. -/
theorem kind_getElem_arranged {slots : List Slot} {index : Nat}
    (h : index < (arranged slots).length) :
    (arranged slots)[index].kind = .param ↔ index < (params slots).length := by
  have hparams : ∀ s ∈ params slots, s.kind = .param := by simp [params, isParam]
  have hvars : ∀ s ∈ vars slots, s.kind ≠ .param := by simp [vars, isParam]
  unfold arranged at h ⊢
  by_cases hindex : index < (params slots).length
  · rw [List.getElem_append_left hindex]
    exact iff_of_true (hparams _ (List.getElem_mem hindex)) hindex
  · rw [List.getElem_append_right (Nat.le_of_not_lt hindex)]
    exact iff_of_false (hvars _ (List.getElem_mem _)) hindex

/-- What is said apart of parameters and variables, said of the slot at an index. -/
theorem map_getElem?_arranged {α : Type} (slots : List Slot) (index : Nat) (x y : α) :
    ((arranged slots)[index]?.map fun s => if s.kind = .param then x else y) =
      if index < (arranged slots).length then some (if index < (params slots).length then x else y)
      else none := by
  by_cases h : index < (arranged slots).length
  · simp only [List.getElem?_eq_getElem h, Option.map_some, if_pos h, kind_getElem_arranged h]
  · rw [List.getElem?_eq_none (Nat.le_of_not_lt h), if_neg h, Option.map_none]

/-- The assembler after a declaration. -/
def addTo (a : Assembler) (s : Slot) : Assembler :=
  match s.kind with
  | .param => a.param s.name
  | .var => a.var s.name
  | .const => a.const s.name

end Slot

/-! ## Tables of slots -/

/-- The slots of a routine, side by side. -/
structure SlotTables where
  paramCount : Nat := 0
  names : List String := []
  isConst : List Bool := []
  deriving DecidableEq, Repr

namespace SlotTables

/-- Make room for a declaration: behind all parameters for a parameter, else at the end. -/
def declare (t : SlotTables) (s : Slot) : SlotTables :=
  match s.kind with
  | .param =>
    { paramCount := t.paramCount + 1
      names := t.names.insertIdx t.paramCount s.name
      isConst := t.isConst.insertIdx t.paramCount s.isConst }
  | .var | .const =>
    { t with names := t.names ++ [s.name], isConst := t.isConst ++ [s.isConst] }

/-- The tables with these parameters and these variables. -/
def of (params vars : List Slot) : SlotTables where
  paramCount := params.length
  names := (params ++ vars).map (·.name)
  isConst := (params ++ vars).map (·.isConst)

/-- A parameter goes between the parameters and the variables. -/
theorem declare_param (params vars : List Slot) {s : Slot} (hs : s.kind = .param) :
    (of params vars).declare s = of (params ++ [s]) vars := by
  have hnames := insertIdx_append (params.map (·.name)) (vars.map (·.name)) s.name
  have hconst := insertIdx_append (params.map (·.isConst)) (vars.map (·.isConst)) s.isConst
  rw [List.length_map] at hnames hconst
  simp [declare, of, hs, hnames, hconst]

/-- A variable goes behind all other slots. -/
theorem declare_var (params vars : List Slot) {s : Slot} (hs : s.kind ≠ .param) :
    (of params vars).declare s = of params (vars ++ [s]) := by
  unfold declare
  split
  · next h => exact absurd h hs
  all_goals simp [of]

theorem foldl_declare (slots : List Slot) :
    slots.foldl declare {} = of (Slot.params slots) (Slot.vars slots) := by
  induction slots using List.reverseRecOn with
  | nil => rfl
  | append_singleton slots s ih =>
    rw [List.foldl_append, List.foldl_cons, List.foldl_nil, ih]
    by_cases hs : s.kind = .param
    · rw [declare_param _ _ hs]
      simp [Slot.params, Slot.vars, List.filter_append, Slot.isParam, hs]
    · rw [declare_var _ _ hs]
      simp [Slot.params, Slot.vars, List.filter_append, Slot.isParam, hs]

end SlotTables

/-- The slots of a routine. -/
def Routine.slots (r : Routine) : SlotTables where
  paramCount := r.paramCount
  names := r.names.toList
  isConst := r.isConst.toList

/-- A complaint about the tables of slots. -/
def Flaw.IsAboutSlots : Flaw → Prop
  | .missingNames _ _ | .constTable => True
  | _ => False

/-- Instructions do not complain about tables. -/
theorem Extent.not_isAboutSlots {x : Extent} {i : Instruction} {position : Nat} {flaw : Flaw}
    (h : x.flaw? position i = some flaw) : ¬ flaw.IsAboutSlots := by
  intro habout
  unfold Extent.flaw? at h
  cases flaw with
  | missingNames | constTable => split at h <;> simp_all
  | _ => exact habout

namespace Routine

variable {r : Routine} {params vars : List Slot}

theorem size_names_of_slots (hr : r.slots = .of params vars) :
    r.names.size = (params ++ vars).length := by
  have hnames := congrArg (fun t => t.names.length) hr
  simpa [slots, SlotTables.of] using hnames

theorem size_isConst_of_slots (hr : r.slots = .of params vars) :
    r.isConst.size = (params ++ vars).length := by
  have hconst := congrArg (fun t => t.isConst.length) hr
  simpa [slots, SlotTables.of] using hconst

/-- Nothing is wrong with tables that have the parameters in front. -/
theorem flaw?_of_slots (hr : r.slots = .of params vars) :
    r.flaw? =
      if r.isGenerator && r.isScript then some .scriptGenerator
      else r.code.toList.zipIdx.findSome? fun (i, position) => r.extent.flaw? position i := by
  have hparams : r.paramCount = params.length := congrArg SlotTables.paramCount hr
  have hnames := size_names_of_slots hr
  have hconst := size_isConst_of_slots hr
  have hfits : ¬ r.names.size < r.paramCount := by
    rw [hnames, hparams, List.length_append]
    omega
  rw [flaw?, if_neg hfits, if_neg (by simp [hconst, hnames])]

theorem not_isAboutSlots (hr : r.slots = .of params vars) {flaw : Flaw}
    (h : r.flaw? = some flaw) : ¬ flaw.IsAboutSlots := by
  rw [flaw?_of_slots hr] at h
  split at h
  · cases h
    exact id
  · obtain ⟨⟨i, position⟩, -, hflaw⟩ := List.exists_of_findSome?_eq_some h
    exact Extent.not_isAboutSlots hflaw

/-- The first defect of some routines is that of one of them. -/
theorem exists_mem_of_firstDefect? {rs : List Routine} {d : Defect}
    (h : firstDefect? rs = some d) : ∃ r ∈ rs, r.defect? = some d := by
  induction rs with
  | nil => cases h
  | cons r rest ih =>
    rw [firstDefect?] at h
    cases hr : r.defect? with
    | some first =>
      rw [hr] at h
      exact ⟨r, List.mem_cons_self, hr.trans h⟩
    | none =>
      rw [hr] at h
      obtain ⟨g, hg, hd⟩ := ih h
      exact ⟨g, List.mem_cons_of_mem r hg, hd⟩

end Routine

namespace Assembler

theorem exists_label_of_resolve {labels : Array (Option Nat)} {code : Array Instruction}
    {fixups : List Fixup} {e : BuildError} (h : resolve labels code fixups = .error e) :
    ∃ label, e = .unmarkedLabel label := by
  induction fixups generalizing code with
  | nil => cases h
  | cons fixup fixups ih =>
    rw [resolve] at h
    split at h
    · cases h
      exact ⟨_, rfl⟩
    · exact ih h

/-- What is built has the tables of the assembler, whatever its code. -/
theorem exists_code_of_build {a : Assembler} {r : Routine} (h : a.build = .ok r) :
    ∃ code, r = a.routine code := by
  unfold build at h
  split at h
  · cases h
  · exact ⟨_, (accept_eq_ok_iff.mp h).2.symm⟩

theorem exists_defect_of_build {a : Assembler} {d : Defect} (h : a.build = .error (.defect d)) :
    ∃ code, (a.routine code).defect? = some d := by
  unfold build at h
  split at h
  · next e he =>
    cases h
    obtain ⟨label, hlabel⟩ := exists_label_of_resolve he
    cases hlabel
  · next code _ =>
    unfold accept at h
    split at h
    · next hd =>
      cases h
      exact ⟨code, hd⟩
    · cases h

end Assembler

/-! ## Building -/

/-- What can be done with an assembler before it is asked for the routine. -/
inductive BuildStep where
  | declare (s : Slot)
  | code (call : AssemblyCall)
  | strict
  | generator
  | expression
  | nest (f : Routine)

namespace BuildStep

/-- The assembler after a step. -/
def perform (a : Assembler) : BuildStep → Assembler
  | declare s => s.addTo a
  | code call => call.perform a
  | strict => a.strict
  | generator => a.generator
  | expression => a.expression
  | nest f => a.nest f

/-- The assembler after some steps. -/
def after (a : Assembler) (steps : List BuildStep) : Assembler := steps.foldl perform a

/-- The slots that some steps declare, in order of declaration. -/
def declared (steps : List BuildStep) : List Slot :=
  steps.filterMap fun
    | declare s => some s
    | _ => none

variable {steps : List BuildStep} {a : Assembler}

@[simp]
theorem after_append_singleton (a : Assembler) (steps : List BuildStep) (step : BuildStep) :
    after a (steps ++ [step]) = step.perform (after a steps) := by
  simp [after]

/-- A declaration makes room in the tables of the routine. -/
theorem slots_addTo (a : Assembler) (s : Slot) (code : Array Instruction) :
    ((s.addTo a).routine code).slots = (a.routine code).slots.declare s := by
  obtain ⟨name, kind⟩ := s
  cases kind with
  | param =>
    have hnames := insertIdx_append a.params.toList (a.vars.toList.map (·.1)) name
    have hconst := insertIdx_append (List.replicate a.params.size false)
      (a.vars.toList.map (·.2)) false
    rw [Array.length_toList] at hnames
    rw [List.length_replicate] at hconst
    simp [Slot.addTo, Assembler.param, Assembler.routine, Routine.slots, SlotTables.declare,
      Slot.isConst, hnames, hconst, List.replicate_succ']
  | var =>
    simp [Slot.addTo, Assembler.var, Assembler.routine, Routine.slots, SlotTables.declare,
      Slot.isConst]
  | const =>
    simp [Slot.addTo, Assembler.const, Assembler.routine, Routine.slots, SlotTables.declare,
      Slot.isConst]

theorem slots_perform (a : Assembler) (step : BuildStep) (code : Array Instruction) :
    ((step.perform a).routine code).slots =
      (declared [step]).foldl SlotTables.declare (a.routine code).slots := by
  cases step with
  | declare s => exact slots_addTo a s code
  | code call =>
    have hroutine : (call.perform a).routine code = a.routine code :=
      AssemblyCall.routine_after a [call] code
    exact congrArg Routine.slots hroutine
  | strict | generator | expression | nest => rfl

/-- The tables are those that the declarations made, one after the other. -/
theorem slots_after (kind : RoutineKind) (name : Option String) (steps : List BuildStep)
    (code : Array Instruction) :
    ((after { kind, name } steps).routine code).slots =
      (declared steps).foldl SlotTables.declare {} := by
  induction steps using List.reverseRecOn with
  | nil => simp [after, Assembler.routine, Routine.slots, declared]
  | append_singleton steps step ih =>
    have hdeclared : declared (steps ++ [step]) = declared steps ++ declared [step] :=
      List.filterMap_append
    rw [after_append_singleton, slots_perform, ih, hdeclared, List.foldl_append]

theorem mem_nested_after {kind : RoutineKind} {name : Option String} {f : Routine}
    (h : f ∈ (after { kind, name } steps).nested.toList) : .nest f ∈ steps := by
  induction steps using List.reverseRecOn with
  | nil => cases h
  | append_singleton steps step ih =>
    rw [after_append_singleton] at h
    rw [List.mem_append]
    cases step with
    | nest g =>
      rw [perform, Assembler.nest, Array.toList_push, List.mem_append] at h
      refine h.imp ih fun h => ?_
      rw [List.mem_singleton.mp h]
      exact List.mem_singleton_self _
    | declare s =>
      obtain ⟨slot, kind⟩ := s
      cases kind <;> exact .inl (ih h)
    | code call =>
      have hroutine := AssemblyCall.routine_after (after { kind, name } steps) [call] #[]
      have hnested : (call.perform (after { kind, name } steps)).nested.toList =
        (after { kind, name } steps).nested.toList := congrArg Routine.nested hroutine
      exact .inl (ih (hnested ▸ (h : f ∈ (call.perform _).nested.toList)))
    | strict | generator | expression => exact .inl (ih h)

end BuildStep

/-! ## Calls -/

/-- Arguments are in the slots in front; every other slot is undefined. -/
theorem Frame.getElem?_locals_enter (body : Executable) (scope : Id .scope) (receiver : Value)
    (args : List Value) (slot : Nat) :
    (enter body scope receiver args).locals[slot]? =
      if slot < body.routine.names.size then
        some (if slot < body.routine.paramCount then args.getD slot .undefined else .undefined)
      else none := by
  simp only [enter, Array.getElem?_ofFn]
  split
  · next h =>
    congr 1
    by_cases hparam : slot < body.routine.paramCount
    · simp [hparam, List.getD_eq_getElem?_getD]
    · have hpast : (args.take body.routine.paramCount)[slot]? = none :=
        List.getElem?_take_eq_none (Nat.le_of_not_lt hparam)
      simp only [if_neg hparam, Array.getD_eq_getD_getElem?, List.getElem?_toArray, hpast,
        Option.getD_none]
  · rfl

namespace BuildStep

variable {steps : List BuildStep}

/-- Declarations alone change nothing else. -/
theorem undeclared_after {a : Assembler} (h : ∀ step ∈ steps, ∃ s, step = .declare s) :
    { after a steps with params := #[], vars := #[] } = { a with params := #[], vars := #[] } := by
  induction steps using List.reverseRecOn with
  | nil => rfl
  | append_singleton steps step ih =>
    obtain ⟨⟨slot, kind⟩, rfl⟩ := h step (by simp)
    rw [after_append_singleton, ← ih fun step hstep => h step (List.mem_append_left _ hstep)]
    cases kind <;> rfl

/-- With declarations alone there is nothing to complain about. -/
theorem build_of_declared {kind : RoutineKind} {name : Option String}
    (h : ∀ step ∈ steps, ∃ s, step = .declare s) :
    (after { kind, name } steps).build = .ok ((after { kind, name } steps).routine #[]) := by
  have hrest := undeclared_after (a := { kind, name }) h
  have htables := (slots_after kind name steps #[]).trans (SlotTables.foldl_declare _)
  generalize after { kind, name } steps = b at hrest htables
  obtain ⟨kind', name', gen, strict, expr, params, vars, nested, code, labels, fixups⟩ := b
  cases hrest
  refine Assembler.accept_eq_ok_iff.mpr ⟨?_, rfl⟩
  rw [Routine.Valid, Routine.defect?_eq, Routine.flaw?_of_slots htables]
  rfl

/-- What is built, whatever is declared when and whatever else is done in between. The tables have
the parameters and then the variables, each in order of declaration with its own constancy, just as
declarations made one after the other leave them; and in a call of it, an argument is in the slot
of its parameter and all other slots are undefined. A build does not fail for the tables, except
those of a routine that came as nested; and with declarations alone it does not fail. -/
theorem slots_of_build (kind : RoutineKind) (name : Option String) (steps : List BuildStep) :
    let b := after { kind, name } steps
    let slots := Slot.arranged (declared steps)
    (∀ r, b.build = .ok r →
      r.names.toList = slots.map (·.name) ∧ r.isConst.toList = slots.map (·.isConst) ∧
      r.paramCount = (Slot.params (declared steps)).length ∧
      r.slots = (declared steps).foldl SlotTables.declare {} ∧
      ∀ e : Executable, e.routine = r → ∀ scope receiver args slot,
        (Frame.enter e scope receiver args).locals[slot]? = slots[slot]?.map fun s =>
          if s.kind = .param then args.getD slot .undefined else .undefined) ∧
    (∀ d, b.build = .error (.defect d) → d.flaw.IsAboutSlots →
      ∃ f, .nest f ∈ steps ∧ f.defect? = some d) ∧
    ((∀ step ∈ steps, ∃ s, step = .declare s) → ∃ r, b.build = .ok r) := by
  intro b slots
  have htables : ∀ code, (b.routine code).slots =
      .of (Slot.params (declared steps)) (Slot.vars (declared steps)) :=
    fun code => (slots_after kind name steps code).trans (SlotTables.foldl_declare _)
  refine ⟨fun r hr => ?_, fun d hd habout => ?_, fun honly => ⟨_, build_of_declared honly⟩⟩
  · obtain ⟨code, rfl⟩ := Assembler.exists_code_of_build hr
    refine ⟨congrArg (·.names) (htables code), congrArg (·.isConst) (htables code),
      congrArg (·.paramCount) (htables code), slots_after kind name steps code, ?_⟩
    rintro e he scope receiver args slot
    have hslots : e.routine.slots = .of _ _ := he ▸ htables code
    have hnames : e.routine.names.size = slots.length := Routine.size_names_of_slots hslots
    have hparams : e.routine.paramCount = (Slot.params (declared steps)).length :=
      congrArg (·.paramCount) hslots
    rw [Frame.getElem?_locals_enter, hnames, hparams, Slot.map_getElem?_arranged]
  · obtain ⟨code, hcode⟩ := Assembler.exists_defect_of_build hd
    rw [Routine.defect?_eq] at hcode
    cases hflaw : (b.routine code).flaw? with
    | some flaw =>
      rw [hflaw] at hcode
      cases hcode
      exact absurd habout (Routine.not_isAboutSlots (htables code) hflaw)
    | none =>
      rw [hflaw] at hcode
      obtain ⟨f, hf, hdefect⟩ := Routine.exists_mem_of_firstDefect? hcode
      exact ⟨f, mem_nested_after hf, hdefect⟩

/-- Parameters are declared behind variables, and code is emitted in between. -/
def interleaved : List BuildStep :=
  [.declare ⟨"x", .var⟩, .declare ⟨"a", .param⟩, .code (.emit .loadThis), .declare ⟨"k", .const⟩,
    .declare ⟨"b", .param⟩]

/-- What is built from them. -/
def interleavedRoutine : Routine where
  name := some "f"
  kind := .function
  isGenerator := false
  isStrict := false
  isExpression := false
  paramCount := 2
  names := #["a", "b", "x", "k"]
  isConst := #[false, false, false, true]
  code := #[.loadThis]
  nested := []

/-- A function that runs it. -/
def interleavedExecutable : Executable where
  id := ⟨0⟩
  shared := ⟨⟨⟨0⟩, []⟩, interleavedRoutine⟩
  security := none
  valid := by decide

/-- A routine that nothing builds: it counts a parameter that has no name. -/
def nameless : Routine := { interleavedRoutine with names := #[], isConst := #[], paramCount := 1 }

theorem slots_of_build_interleaved :
    (after { kind := .function, name := some "f" } interleaved).build = .ok interleavedRoutine ∧
    (Frame.enter interleavedExecutable ⟨0⟩ .null [.bool true]).locals[0]? = some (.bool true) ∧
    (Frame.enter interleavedExecutable ⟨0⟩ .null [.bool true]).locals[1]? = some .undefined ∧
    (Frame.enter interleavedExecutable ⟨0⟩ .null [.null, .null, .null]).locals[2]? =
      some .undefined ∧
    (after { kind := .script, name := none } [.nest nameless]).build =
      .error (.defect ⟨some "f", .missingNames 1 0⟩) ∧
    (∃ f, .nest f ∈ [BuildStep.nest nameless] ∧
      f.defect? = some ⟨some "f", .missingNames 1 0⟩) ∧
    ∃ r, (after { kind := .script, name := none } [.declare ⟨"x", .const⟩]).build = .ok r := by
  have hbuild : (after { kind := .function, name := some "f" } interleaved).build =
      .ok interleavedRoutine := by
    have hroutine : (after { kind := .function, name := some "f" } interleaved).routine
        #[.loadThis] = interleavedRoutine := by
      simp [after, interleaved, perform, Slot.addTo, Assembler.param, Assembler.var,
        Assembler.const, AssemblyCall.perform, Assembler.emit, Assembler.routine,
        interleavedRoutine, List.replicate]
    exact Assembler.accept_eq_ok_iff.mpr ⟨hroutine ▸ interleavedExecutable.valid, hroutine⟩
  have hbroken : (after { kind := .script, name := none } [.nest nameless]).build =
      .error (.defect ⟨some "f", .missingNames 1 0⟩) := by
    simp only [after, perform, Assembler.nest, Assembler.build, Assembler.resolve,
      Assembler.routine, Assembler.accept, List.foldl_cons, List.foldl_nil, Array.map_empty,
      Array.append_empty]
    rfl
  obtain ⟨-, -, -, -, hframe⟩ := (slots_of_build .function (some "f") interleaved).1 _ hbuild
  have hlocals := hframe interleavedExecutable rfl ⟨0⟩ .null
  exact ⟨hbuild, hlocals [.bool true] 0, hlocals [.bool true] 1, hlocals [.null, .null, .null] 2,
    hbroken, (slots_of_build .script none [.nest nameless]).2.1 _ hbroken trivial,
    (slots_of_build .script none [.declare ⟨"x", .const⟩]).2.2 (by simp)⟩

end BuildStep

end ScriptMachine
