import Mathlib.Data.List.Induction
import ScriptMachine.Fault

/-!
# Labels

An assembler writes placeholders where labels are used and remembers, in order, which operand of
which instruction waits for which label. Main statement: what `Assembler.build` accepts or refuses
is the code in which each use of a label is the position of the label's last mark, before or after
the use, and the first use of a label without a mark is an error. Positions of marks are within
the code, so only targets that were written as numbers can be out of range.
-/

namespace ScriptMachine

/-- What can be done about the code of an assembler. -/
inductive AssemblyCall where
  | newLabel
  | mark (label : Label)
  | emit (i : Instruction)
  | jump (label : Label)
  | jumpIfFalse (label : Label)
  | enterTry (catchAt finallyAt : Option Label)

namespace AssemblyCall

/-- The assembler after a call. -/
def perform (a : Assembler) : AssemblyCall → Assembler
  | newLabel => a.newLabel.2
  | mark label => a.mark label
  | emit i => a.emit i
  | jump label => a.jump label
  | jumpIfFalse label => a.jumpIfFalse label
  | enterTry catchAt finallyAt => a.enterTry catchAt finallyAt

/-- The assembler after some calls. -/
def after (a : Assembler) (calls : List AssemblyCall) : Assembler := calls.foldl perform a

/-- The instruction that a call stands for, with these positions for the labels. -/
def instruction? (place : Label → Nat) : AssemblyCall → Option Instruction
  | newLabel | mark _ => none
  | emit i => some i
  | jump label => some (.jump (place label))
  | jumpIfFalse label => some (.jumpIfFalse (place label))
  | enterTry catchAt finallyAt => some (.enterTry (catchAt.map place) (finallyAt.map place))

/-- The operands of the instruction of a call that wait for labels, in order of use. -/
def awaits : AssemblyCall → List (Operand × Label)
  | newLabel | mark _ | emit _ => []
  | jump label | jumpIfFalse label => [(.target, label)]
  | enterTry catchAt finallyAt =>
    (catchAt.map (Operand.catchAt, ·)).toList ++ (finallyAt.map (Operand.finallyAt, ·)).toList

/-- The labels that are used by some calls, in order of use. -/
def uses (calls : List AssemblyCall) : List Label :=
  calls.flatMap fun call => call.awaits.map (·.2)

/-- How many labels some calls give out. -/
def labelCount (calls : List AssemblyCall) : Nat := calls.countP (· matches .newLabel)

/-- How many instructions some calls add. -/
def length (calls : List AssemblyCall) : Nat :=
  calls.countP fun call => (call.instruction? fun _ => 0).isSome

/-- The last mark of a label is at this position. A label cannot be marked before it is given
out. -/
def MarkedAt (calls : List AssemblyCall) (label : Label) (position : Nat) : Prop :=
  ∃ before later, calls = before ++ .mark label :: later ∧ .mark label ∉ later ∧
    label.index < labelCount before ∧ position = length before

variable {calls : List AssemblyCall} {call : AssemblyCall} {label : Label} {p : Nat}
  {place : Label → Nat}

@[simp]
theorem after_append_singleton (a : Assembler) (calls : List AssemblyCall) (call : AssemblyCall) :
    after a (calls ++ [call]) = call.perform (after a calls) := by
  simp [after]

/-! ## Marks -/

theorem markedAt_append_mark :
    MarkedAt (calls ++ [.mark label]) label p ↔
      label.index < labelCount calls ∧ p = length calls := by
  constructor
  · rintro ⟨before, later, hcalls, hlater, hknown, hp⟩
    rcases later.eq_nil_or_concat with rfl | ⟨later, last, rfl⟩
    · obtain ⟨rfl, -⟩ := List.append_inj' hcalls rfl
      exact ⟨hknown, hp⟩
    · rw [List.concat_eq_append, ← List.cons_append, ← List.append_assoc] at hcalls
      obtain ⟨-, hlast⟩ := List.append_inj' hcalls rfl
      simp [← hlast] at hlater
  · rintro ⟨hknown, hp⟩
    exact ⟨calls, [], rfl, List.not_mem_nil, hknown, hp⟩

theorem markedAt_append_of_ne (h : call ≠ .mark label) :
    MarkedAt (calls ++ [call]) label p ↔ MarkedAt calls label p := by
  constructor
  · rintro ⟨before, later, hcalls, hlater, hknown, hp⟩
    rcases later.eq_nil_or_concat with rfl | ⟨later, last, rfl⟩
    · obtain ⟨-, hlast⟩ := List.append_inj' hcalls rfl
      exact absurd (List.singleton_inj.mp hlast) h
    · rw [List.concat_eq_append, ← List.cons_append, ← List.append_assoc] at hcalls
      obtain ⟨rfl, -⟩ := List.append_inj' hcalls rfl
      exact ⟨before, later, rfl, fun hm => hlater (by simp [hm]), hknown, hp⟩
  · rintro ⟨before, later, rfl, hlater, hknown, hp⟩
    refine ⟨before, later ++ [call], by simp, ?_, hknown, hp⟩
    simpa [hlater] using h.symm

theorem MarkedAt.le_length (h : MarkedAt calls label p) : p ≤ length calls := by
  obtain ⟨before, later, rfl, -, -, rfl⟩ := h
  rw [length, length, List.countP_append]
  exact Nat.le_add_right _ _

/-! ## What one call adds -/

/-- The placeholder for an instruction has zero for each operand that waits. -/
def placeholder? (call : AssemblyCall) : Option Instruction := call.instruction? fun _ => 0

theorem code_perform (a : Assembler) (call : AssemblyCall) :
    (call.perform a).code = a.code ++ call.placeholder?.toList.toArray := by
  cases call with
  | enterTry catchAt finallyAt =>
    cases catchAt <;> cases finallyAt <;>
      simp [perform, Assembler.enterTry, Assembler.emit, Assembler.await, placeholder?,
        instruction?]
  | _ =>
    simp [perform, Assembler.newLabel, Assembler.mark, Assembler.emit, Assembler.jump,
      Assembler.jumpIfFalse, Assembler.await, placeholder?, instruction?]

theorem fixups_perform (a : Assembler) (call : AssemblyCall) :
    (call.perform a).fixups.toList =
      a.fixups.toList ++ call.awaits.map fun w => ⟨a.code.size, w.1, w.2⟩ := by
  cases call with
  | enterTry catchAt finallyAt =>
    cases catchAt <;> cases finallyAt <;>
      simp [perform, Assembler.enterTry, Assembler.emit, Assembler.await, Assembler.position,
        awaits]
  | _ =>
    simp [perform, Assembler.newLabel, Assembler.mark, Assembler.emit, Assembler.jump,
      Assembler.jumpIfFalse, Assembler.await, Assembler.position, awaits]

theorem size_labels_perform (a : Assembler) (call : AssemblyCall) :
    (call.perform a).labels.size = a.labels.size + labelCount [call] := by
  cases call with
  | enterTry catchAt finallyAt => cases catchAt <;> cases finallyAt <;> rfl
  | mark label => simp [perform, Assembler.mark, labelCount]
  | newLabel => simp [perform, Assembler.newLabel, labelCount]
  | _ => rfl

/-- Only marking a label changes what it stands for. -/
theorem labels_perform_of_ne (a : Assembler) (h : call ≠ .mark label) :
    (call.perform a).labels[label.index]?.join = a.labels[label.index]?.join := by
  cases call with
  | enterTry catchAt finallyAt => cases catchAt <;> cases finallyAt <;> rfl
  | mark other =>
    have hne : other.index ≠ label.index := fun hindex => h (by cases other; cases label; simp_all)
    simp [perform, Assembler.mark, Array.getElem?_modify, hne]
  | newLabel =>
    simp only [perform, Assembler.newLabel, Array.getElem?_push]
    split
    · next hindex => simp [hindex]
    · rfl
  | _ => rfl

theorem labels_perform_mark (a : Assembler) (label : Label) :
    ((mark label).perform a).labels[label.index]?.join =
      if label.index < a.labels.size then some a.code.size else none := by
  simp only [perform, Assembler.mark, Assembler.position, Array.getElem?_modify, if_pos]
  split
  · next h => simp [h]
  · next h => simp [h]

/-- Putting positions in place of what waits gives the instruction that a call stands for. -/
theorem instruction?_eq (place : Label → Nat) (call : AssemblyCall) :
    call.instruction? place =
      call.placeholder?.map fun i => call.awaits.foldl (fun i w => i.patch w.1 (place w.2)) i := by
  cases call with
  | enterTry catchAt finallyAt => cases catchAt <;> cases finallyAt <;> rfl
  | _ => rfl

theorem awaits_of_placeholder?_eq_none (h : call.placeholder? = none) : call.awaits = [] := by
  cases call with
  | newLabel | mark => rfl
  | _ => cases h

end AssemblyCall

/-! ## Positions in place of labels -/

namespace Assembler

variable {place : Label → Nat}

/-- The declarations of an assembler, without code. -/
def declarations (a : Assembler) : Assembler :=
  { a with code := #[], labels := #[], fixups := #[] }

/-- Code with positions in place of the labels that its operands wait for. -/
def patched (place : Label → Nat) (code : Array Instruction) (fixups : List Fixup) :
    Array Instruction :=
  fixups.foldl (fun code fixup =>
    code.modify fixup.position (·.patch fixup.operand (place fixup.label))) code

theorem patched_append (code : Array Instruction) (fixups later : List Fixup) :
    patched place code (fixups ++ later) = patched place (patched place code fixups) later :=
  List.foldl_append

theorem size_patched (place : Label → Nat) (code : Array Instruction) (fixups : List Fixup) :
    (patched place code fixups).size = code.size := by
  induction fixups generalizing code with
  | nil => rfl
  | cons fixup fixups ih => rw [patched, List.foldl_cons, ← patched, ih, Array.size_modify]

theorem modify_push (code : Array Instruction) (i : Instruction) (position : Nat)
    (f : Instruction → Instruction) :
    (code.push i).modify position f =
      if position = code.size then code.push (f i) else (code.modify position f).push i := by
  apply Array.ext_getElem?
  intro j
  split <;> simp only [Array.getElem?_modify, Array.getElem?_push, Array.size_modify] <;> grind

/-- An instruction that is added later is not changed by what waits already. -/
theorem patched_push (code : Array Instruction) (i : Instruction) {fixups : List Fixup}
    (h : ∀ fixup ∈ fixups, fixup.position < code.size) :
    patched place (code.push i) fixups = (patched place code fixups).push i := by
  induction fixups generalizing code with
  | nil => rfl
  | cons fixup fixups ih =>
    obtain ⟨hfixup, hfixups⟩ := List.forall_mem_cons.mp h
    rw [patched, List.foldl_cons, modify_push, if_neg (Nat.ne_of_lt hfixup)]
    exact ih (code.modify fixup.position _) (by simpa using hfixups)

/-- What waits in the last instruction changes that instruction only. -/
theorem patched_last (code : Array Instruction) (i : Instruction)
    (awaits : List (Operand × Label)) :
    patched place (code.push i) (awaits.map fun w => ⟨code.size, w.1, w.2⟩) =
      code.push (awaits.foldl (fun i w => i.patch w.1 (place w.2)) i) := by
  induction awaits generalizing i with
  | nil => rfl
  | cons w awaits ih =>
    rw [patched, List.map_cons, List.foldl_cons, modify_push, if_pos rfl]
    exact ih _

theorem resolve_of_marked {labels : Array (Option Nat)} {fixups : List Fixup}
    (h : ∀ fixup ∈ fixups, labels[fixup.label.index]?.join = some (place fixup.label))
    (code : Array Instruction) : resolve labels code fixups = .ok (patched place code fixups) := by
  induction fixups generalizing code with
  | nil => rfl
  | cons fixup fixups ih =>
    obtain ⟨hfixup, hfixups⟩ := List.forall_mem_cons.mp h
    rw [resolve, hfixup]
    exact ih hfixups _

theorem resolve_of_unmarked {labels : Array (Option Nat)} {before later : List Fixup}
    {fixup : Fixup} (hbefore : ∀ f ∈ before, (labels[f.label.index]?.join).isSome)
    (h : labels[fixup.label.index]?.join = none) (code : Array Instruction) :
    resolve labels code (before ++ fixup :: later) = .error (.unmarkedLabel fixup.label) := by
  induction before generalizing code with
  | nil => rw [List.nil_append, resolve, h]
  | cons f before ih =>
    obtain ⟨hf, hrest⟩ := List.forall_mem_cons.mp hbefore
    obtain ⟨target, htarget⟩ := Option.isSome_iff_exists.mp hf
    rw [List.cons_append, resolve, htarget]
    exact ih hrest _

end Assembler

namespace AssemblyCall

variable {calls : List AssemblyCall} {call : AssemblyCall} {label : Label} {p : Nat}
  {place : Label → Nat} {a : Assembler}

/-! ## What an assembler holds -/

/-- What an assembler holds after some calls. -/
structure Holds (calls : List AssemblyCall) (a : Assembler) : Prop where
  size_code : a.code.size = length calls
  size_labels : a.labels.size = labelCount calls
  marked : ∀ label p, a.labels[label.index]?.join = some p ↔ MarkedAt calls label p
  used : a.fixups.toList.map (·.label) = uses calls
  waiting : ∀ fixup ∈ a.fixups.toList, fixup.position < a.code.size
  patched : ∀ place, Assembler.patched place a.code a.fixups.toList =
    (calls.filterMap (instruction? place)).toArray

theorem length_append_singleton (calls : List AssemblyCall) (call : AssemblyCall) :
    length (calls ++ [call]) = length calls + call.placeholder?.toList.length := by
  rw [length, List.countP_append, ← length, List.countP_singleton, placeholder?]
  cases call.instruction? fun _ => 0 <;> rfl

namespace Holds

theorem marked_perform (h : Holds calls a) (call : AssemblyCall) (label : Label) (p : Nat) :
    (call.perform a).labels[label.index]?.join = some p ↔ MarkedAt (calls ++ [call]) label p := by
  by_cases hmark : call = .mark label
  · subst hmark
    rw [labels_perform_mark, markedAt_append_mark, h.size_labels, h.size_code]
    split
    · next hknown => simp [hknown, eq_comm]
    · next hknown => simp [hknown]
  · rw [labels_perform_of_ne a hmark, markedAt_append_of_ne hmark, h.marked]

theorem patched_perform (h : Holds calls a) (call : AssemblyCall) (place : Label → Nat) :
    Assembler.patched place (call.perform a).code (call.perform a).fixups.toList =
      ((calls ++ [call]).filterMap (instruction? place)).toArray := by
  have hinstruction := instruction?_eq place call
  rw [List.filterMap_append, ← List.append_toArray, ← h.patched place, code_perform, fixups_perform,
    Assembler.patched_append]
  cases hplaceholder : call.placeholder? with
  | none =>
    rw [hplaceholder, Option.map_none] at hinstruction
    simp [awaits_of_placeholder?_eq_none hplaceholder, hinstruction, Assembler.patched]
  | some i =>
    rw [hplaceholder, Option.map_some] at hinstruction
    -- What waited before does not reach the new instruction, and what waits in it reaches no other.
    have hsize := Assembler.size_patched place a.code a.fixups.toList
    have hpush : a.code ++ (some i).toList.toArray = a.code.push i := by simp
    rw [hpush, Assembler.patched_push a.code i h.waiting, ← hsize, Assembler.patched_last]
    simp [hinstruction]

theorem perform (h : Holds calls a) (call : AssemblyCall) :
    Holds (calls ++ [call]) (call.perform a) where
  size_code := by
    rw [code_perform, Array.size_append, h.size_code, length_append_singleton, List.size_toArray]
  size_labels := by
    rw [size_labels_perform, h.size_labels, labelCount, labelCount, labelCount,
      List.countP_append]
  marked := h.marked_perform call
  used := by
    rw [fixups_perform, List.map_append, h.used, uses, uses, List.flatMap_append]
    simp
  waiting fixup hfixup := by
    rw [fixups_perform, List.mem_append] at hfixup
    rw [code_perform, Array.size_append]
    rcases hfixup with hfixup | hfixup
    · exact Nat.lt_add_right _ (h.waiting fixup hfixup)
    · cases hplaceholder : call.placeholder? with
      | none => simp [awaits_of_placeholder?_eq_none hplaceholder] at hfixup
      | some i =>
        obtain ⟨w, -, rfl⟩ := List.mem_map.mp hfixup
        exact Nat.lt_succ_self _
  patched := h.patched_perform call

end Holds

/-- The calls on an assembler that has declarations only. -/
theorem holds_after (a : Assembler) (calls : List AssemblyCall) :
    Holds calls (after a.declarations calls) := by
  induction calls using List.reverseRecOn with
  | nil =>
    refine ⟨rfl, rfl, fun label p => ?_, rfl, nofun, fun _ => rfl⟩
    simp [after, Assembler.declarations, MarkedAt]
  | append_singleton calls call ih =>
    rw [after_append_singleton]
    exact ih.perform call

theorem routine_after (a : Assembler) (calls : List AssemblyCall) (code : Array Instruction) :
    (after a calls).routine code = a.routine code := by
  induction calls using List.reverseRecOn with
  | nil => rfl
  | append_singleton calls call ih =>
    rw [after_append_singleton, ← ih]
    cases call with
    | enterTry catchAt finallyAt => cases catchAt <;> cases finallyAt <;> rfl
    | _ => rfl

/-! ## Targets out of range -/

theorem length_eq (place : Label → Nat) (calls : List AssemblyCall) :
    length calls = calls.countP fun call => (call.instruction? place).isSome := by
  refine List.countP_congr fun call _ => ?_
  cases call <;> rfl

theorem length_filterMap (place : Label → Nat) (calls : List AssemblyCall) :
    (calls.filterMap (instruction? place)).length = length calls := by
  rw [List.length_filterMap_eq_countP, length_eq place]

/-- An instruction comes from the call that has as many instructions before it. -/
theorem exists_call_of_getElem? {i : Instruction}
    (h : (calls.filterMap (instruction? place))[p]? = some i) :
    ∃ before call later, calls = before ++ call :: later ∧ length before = p ∧
      call.instruction? place = some i := by
  induction calls generalizing p with
  | nil => cases h
  | cons first calls ih =>
    cases hfirst : first.instruction? place with
    | none =>
      rw [List.filterMap_cons_none hfirst] at h
      obtain ⟨before, call, later, rfl, hp, hi⟩ := ih h
      refine ⟨first :: before, call, later, rfl, ?_, hi⟩
      rw [length_eq place, List.countP_cons_of_neg (by simp [hfirst]), ← length_eq, hp]
    | some j =>
      rw [List.filterMap_cons_some hfirst] at h
      cases p with
      | zero =>
        cases h
        exact ⟨[], first, calls, rfl, rfl, hfirst⟩
      | succ p =>
        obtain ⟨before, call, later, rfl, hp, hi⟩ := ih h
        refine ⟨first :: before, call, later, rfl, ?_, hi⟩
        rw [length_eq place, List.countP_cons_of_pos (by simp [hfirst]), ← length_eq, hp]

end AssemblyCall

/-- A complaint about a target of the instruction at this position. -/
def Flaw.IsTargetAt (flaw : Flaw) (position : Nat) : Prop :=
  (∃ target, flaw = .jumpTarget position target) ∨ flaw = .tryTarget position

theorem Extent.eq_of_target {x : Extent} {i : Instruction} {flaw : Flaw} {p q : Nat}
    (hflaw : x.flaw? p i = some flaw) (htarget : flaw.IsTargetAt q) : p = q := by
  unfold Extent.flaw? at hflaw
  rcases htarget with ⟨target, rfl⟩ | rfl <;> split at hflaw <;> simp_all

namespace AssemblyCall

variable {calls : List AssemblyCall} {call : AssemblyCall} {label : Label} {p : Nat}
  {place : Label → Nat} {a : Assembler}

/-- A label that stands for a position of the code is no target out of range. -/
theorem eq_emit_of_target {x : Extent} {i : Instruction} {flaw : Flaw} {q : Nat}
    (hplace : ∀ w ∈ call.awaits, place w.2 ≤ x.code) (hi : call.instruction? place = some i)
    (hflaw : x.flaw? p i = some flaw) (htarget : flaw.IsTargetAt q) : call = .emit i := by
  cases call with
  | newLabel | mark => cases hi
  | emit j => exact congrArg emit (Option.some.inj hi)
  | jump label | jumpIfFalse label =>
    cases hi
    have hle : place label ≤ x.code := hplace (.target, label) List.mem_cons_self
    simp [Extent.flaw?, Nat.not_lt.mpr hle] at hflaw
  | enterTry catchAt finallyAt =>
    cases hi
    have hcatch : ∀ label ∈ catchAt, ¬ x.code < place label := fun label hlabel =>
      Nat.not_lt.mpr (hplace (.catchAt, label) (by simp_all [awaits]))
    have hfinally : ∀ label ∈ finallyAt, ¬ x.code < place label := fun label hlabel =>
      Nat.not_lt.mpr (hplace (.finallyAt, label) (by simp_all [awaits]))
    cases catchAt with
    | none =>
      cases finallyAt with
      | none =>
        cases hflaw
        rcases htarget with ⟨target, h⟩ | h <;> cases h
      | some label => simp [Extent.flaw?, hfinally] at hflaw
    | some label => cases finallyAt <;> simp [Extent.flaw?, hcatch, hfinally] at hflaw

theorem exists_emit_of_flaw (hplace : ∀ label ∈ uses calls, place label ≤ length calls)
    {flaw : Flaw}
    (hflaw : (a.routine (calls.filterMap (instruction? place)).toArray).flaw? = some flaw)
    (htarget : flaw.IsTargetAt p) :
    ∃ before i later, calls = before ++ .emit i :: later ∧ length before = p := by
  have hcode : (a.routine (calls.filterMap (instruction? place)).toArray).extent.code =
      length calls := by
    simp [Routine.extent, Assembler.routine, length_filterMap]
  unfold Routine.flaw? at hflaw
  -- The complaints about declarations are about no target.
  split at hflaw
  · rcases htarget with ⟨target, rfl⟩ | rfl <;> cases hflaw
  split at hflaw
  · rcases htarget with ⟨target, rfl⟩ | rfl <;> cases hflaw
  split at hflaw
  · rcases htarget with ⟨target, rfl⟩ | rfl <;> cases hflaw
  obtain ⟨⟨i, q⟩, hmem, hflaw⟩ := List.exists_of_findSome?_eq_some hflaw
  obtain rfl : q = p := Extent.eq_of_target hflaw htarget
  have hi : (calls.filterMap (instruction? place))[q]? = some i :=
    List.mem_zipIdx_iff_getElem?.mp hmem
  obtain ⟨before, call, later, rfl, hlength, hcall⟩ := exists_call_of_getElem? hi
  have hwithin : ∀ w ∈ call.awaits, place w.2 ≤ Extent.code _ := fun w hw => by
    rw [hcode]
    refine hplace w.2 ?_
    simp only [uses, List.flatMap_append, List.flatMap_cons, List.mem_append]
    exact .inr (.inl (List.mem_map_of_mem hw))
  exact ⟨before, i, later, by rw [eq_emit_of_target hwithin hcall hflaw htarget], hlength⟩

/-- What is built from an assembler with some declarations, for every sequence of calls on it. If
each label that is used has a mark, the code is an instruction for each call that adds one, in
order, with the position of its last mark for each label; and if a target of the code is out of
range, it was written as a number. Otherwise the first use of a label without a mark is an error. -/
theorem build_after (a : Assembler) (calls : List AssemblyCall) :
    let b := after a.declarations calls
    ((∀ label ∈ uses calls, ∃ p, MarkedAt calls label p) →
      ∃ place : Label → Nat,
        (∀ label ∈ uses calls, ∀ p, MarkedAt calls label p ↔ p = place label) ∧
        let r := a.routine (calls.filterMap (instruction? place)).toArray
        b.build = Assembler.accept r ∧
        ∀ flaw p, r.flaw? = some flaw → flaw.IsTargetAt p →
          ∃ before i later, calls = before ++ .emit i :: later ∧ length before = p) ∧
    ∀ before label later, uses calls = before ++ label :: later →
      (∀ l ∈ before, ∃ p, MarkedAt calls l p) → (∀ p, ¬ MarkedAt calls label p) →
      b.build = .error (.unmarkedLabel label) ∧
      (InvalidArgument.build (.unmarkedLabel label)).message =
        s!"label {label.index} was never marked" := by
  intro b
  have hb : Holds calls b := holds_after a calls
  refine ⟨fun hmarked => ?_, fun before label later huses hbefore hlabel => ⟨?_, rfl⟩⟩
  · let place (label : Label) : Nat := (b.labels[label.index]?.join).getD 0
    have hplace : ∀ label ∈ uses calls, b.labels[label.index]?.join = some (place label) := by
      intro label hlabel
      obtain ⟨p, hp⟩ := hmarked label hlabel
      have hjoin := (hb.marked label p).mpr hp
      simp only [place, hjoin, Option.getD_some]
    refine ⟨place, fun label hlabel p => ?_, ?_, fun flaw p hflaw htarget => ?_⟩
    · rw [← hb.marked label p, hplace label hlabel, Option.some_inj, eq_comm]
    · have hresolve := Assembler.resolve_of_marked (fun fixup hfixup => hplace fixup.label (by
        rw [← hb.used]
        exact List.mem_map_of_mem hfixup)) b.code
      rw [Assembler.build, hresolve, hb.patched place]
      exact congrArg Assembler.accept (routine_after a.declarations calls _)
    · refine exists_emit_of_flaw (fun label hlabel => ?_) hflaw htarget
      exact ((hb.marked label _).mp (hplace label hlabel)).le_length
  · rw [← hb.used] at huses
    obtain ⟨fixups, waiting, hfixups, rfl, hrest⟩ := List.map_eq_append_iff.mp huses
    obtain ⟨fixup, rest, rfl, rfl, -⟩ := List.map_eq_cons_iff.mp hrest
    have hnone : b.labels[fixup.label.index]?.join = none :=
      Option.eq_none_iff_forall_ne_some.mpr fun p hp => hlabel p ((hb.marked _ p).mp hp)
    have hsome : ∀ f ∈ fixups, (b.labels[f.label.index]?.join).isSome := fun f hf => by
      obtain ⟨p, hp⟩ := hbefore f.label (List.mem_map_of_mem hf)
      exact Option.isSome_of_eq_some ((hb.marked _ p).mpr hp)
    rw [Assembler.build, hfixups, Assembler.resolve_of_unmarked hsome hnone]

/-- Labels are used before and after their marks; the last mark of one is at the end of the code.
One jump is written with a number. -/
def looping : List AssemblyCall :=
  [.newLabel, .newLabel, .mark ⟨0⟩, .enterTry (some ⟨0⟩) (some ⟨1⟩), .emit (.jump 1),
    .jumpIfFalse ⟨1⟩, .mark ⟨1⟩, .jump ⟨1⟩, .mark ⟨0⟩, .emit .pop, .mark ⟨0⟩]

/-- What is built from them. -/
def loopingRoutine : Routine where
  name := none
  kind := .script
  isGenerator := false
  isStrict := false
  isExpression := false
  paramCount := 0
  names := #[]
  isConst := #[]
  code := #[.enterTry (some 5) (some 3), .jump 1, .jumpIfFalse 3, .jump 3, .pop]
  nested := []

/-- The second label that is used has no mark. -/
def dangling : List AssemblyCall :=
  [.newLabel, .newLabel, .jump ⟨0⟩, .mark ⟨0⟩, .jumpIfFalse ⟨1⟩, .jump ⟨0⟩]

theorem build_after_looping :
    (after .script looping).build = .ok loopingRoutine ∧
    (after .script dangling).build = .error (.unmarkedLabel ⟨1⟩) := by
  have hcatch : MarkedAt looping ⟨0⟩ 5 := ⟨looping.dropLast, [], rfl, nofun, by decide, rfl⟩
  have hfinally : MarkedAt looping ⟨1⟩ 3 :=
    ⟨looping.take 6, looping.drop 7, rfl, by simp [looping], by decide, rfl⟩
  constructor
  · have huses : uses looping = [⟨0⟩, ⟨1⟩, ⟨1⟩, ⟨1⟩] := rfl
    obtain ⟨place, hplace, hbuild, -⟩ := (build_after .script looping).1 (by
      intro label hlabel
      rw [huses] at hlabel
      by_cases h : label = ⟨0⟩
      · exact ⟨5, h ▸ hcatch⟩
      · exact ⟨3, by simp_all⟩)
    have hplace0 : place ⟨0⟩ = 5 := ((hplace ⟨0⟩ (by simp [huses]) 5).mp hcatch).symm
    have hplace1 : place ⟨1⟩ = 3 := ((hplace ⟨1⟩ (by simp [huses]) 3).mp hfinally).symm
    have hcode : looping.filterMap (instruction? place) =
        [.enterTry (some (place ⟨0⟩)) (some (place ⟨1⟩)), .jump 1, .jumpIfFalse (place ⟨1⟩),
          .jump (place ⟨1⟩), .pop] := rfl
    have hroutine : Assembler.script.routine loopingRoutine.code = loopingRoutine := by
      simp [Assembler.routine, Assembler.script, loopingRoutine]
    rw [hcode, hplace0, hplace1] at hbuild
    exact hbuild.trans (Assembler.accept_eq_ok_iff.mpr ⟨hroutine ▸ (by decide), hroutine⟩)
  · have hfirst : MarkedAt dangling ⟨0⟩ 1 :=
      ⟨dangling.take 3, dangling.drop 4, rfl, by simp [dangling], by decide, rfl⟩
    have hsecond : ∀ p, ¬ MarkedAt dangling ⟨1⟩ p := by
      rintro p ⟨before, later, hcalls, -⟩
      have hmem : mark ⟨1⟩ ∈ dangling := by simp [hcalls]
      simp [dangling] at hmem
    have herror := (build_after .script dangling).2 [⟨0⟩] ⟨1⟩ [⟨0⟩] rfl
      (fun l hl => ⟨1, List.mem_singleton.mp hl ▸ hfirst⟩) hsecond
    exact herror.1

end AssemblyCall

end ScriptMachine
