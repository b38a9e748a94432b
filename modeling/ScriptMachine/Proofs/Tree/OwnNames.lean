import ScriptMachine.Proofs.Scope.Erased
import ScriptMachine.Proofs.Tree.Agreement

/-!
# The own names of a function

The own names of a function are its parameters and the functions declared in it. Each use of a
name in a body is compiled to one instruction, and so is the binding of each declared function:
`Compile.IsBody.accesses`. A use of an own name goes to the slot of the first own name that is the
same, unless that slot is one of those beyond the range of operands, which go unaddressed; then the
instruction is one for the scope.

`SourceTree.own_names_have_slots` says so of every function declared in a tree that compiles, and
that no instruction of the function reads or writes a binding of an own name with a slot in range.
-/

namespace ScriptMachine

open Compile

variable {σ : Type} {strict : Bool}

/-! ## Uses of names -/

/-- A use of a name in a source text. -/
inductive Use where
  | read (name : String)
  | write (name : String)

namespace Use

/-- The name that is used. -/
def name : Use → String
  | read name | write name => name

/-- The instruction that uses the variable of a slot. -/
def ofSlot (slot : UInt16) : Use → Instruction
  | read _ => .loadLocal slot
  | write _ => .storeLocal slot

/-- The instruction that uses a name of the scope. -/
def ofScope : Use → Instruction
  | read name => .loadName name
  | write name => .storeName name

/-- The instruction for a use in a body that has these names of its own. -/
def instruction (own : List String) (u : Use) : Instruction :=
  if u.name ∈ own ∧ own.idxOf u.name < operandRange then
    u.ofSlot (UInt16.ofNat (own.idxOf u.name))
  else u.ofScope

end Use

namespace Node

mutual

/-- The uses of names in a node outside the functions that it declares, in the order of their
evaluation. -/
def uses (n : Node) : List Use :=
  match n with
  | ⟨_, _, .ident name, _⟩ => [.read name]
  | ⟨_, _, .assign name, value :: _⟩ => uses value ++ [.write name]
  | ⟨_, _, .binary _, left :: right :: _⟩ => uses left ++ uses right
  | ⟨_, _, .call, callee :: args⟩ => uses callee ++ usesOfAll args
  | ⟨_, _, .expressionStatement, value :: _⟩ => uses value
  | ⟨_, _, .ret, value :: _⟩ => uses value
  | ⟨_, _, .block, body⟩ => usesOfAll body
  | _ => []

/-- The uses of names in several nodes. -/
def usesOfAll (ns : List Node) : List Use :=
  match ns with
  | [] => []
  | n :: rest => uses n ++ usesOfAll rest

end

theorem uses_of_isFunction {n : Node} (h : isFunction n = true) : n.uses = [] := by
  obtain ⟨position, length, kind, children⟩ := n
  cases kind with
  | function name params => simp only [uses]
  | _ => cases h

theorem usesOfAll_filter (body : List Node) :
    usesOfAll (body.filter (!isFunction ·)) = usesOfAll body := by
  induction body with
  | nil => rfl
  | cons n rest ih =>
    rw [List.filter_cons, usesOfAll]
    split
    · rw [usesOfAll, ih]
    · next h =>
      have hfunction : isFunction n = true := by simpa using h
      rw [uses_of_isFunction hfunction, List.nil_append, ih]

end Node

namespace Compile

/-- The names that are a function's own: its parameters, and then the functions declared in it. -/
def ownNames (params : List String) (body : List Node) : List String :=
  params ++ declaredNames body

/-- The uses of names in a body: the functions declared in it are written first. -/
def bodyUses (body : List Node) : List Use :=
  (declaredNames body).map .write ++ Node.usesOfAll body

theorem slot?_eq (own : List String) (name : String) :
    slot? own name =
      if name ∈ own ∧ own.idxOf name < operandRange then some (UInt16.ofNat (own.idxOf name))
      else none := by
  rw [slot?, List.findIdx?_eq_guard_findIdx_lt]
  by_cases hmem : name ∈ own
  · have hlt : own.findIdx (· == name) < own.length := List.idxOf_lt_length_of_mem hmem
    simp [Option.guard, hlt, hmem, operand?, List.idxOf]
  · have hle : ¬ own.findIdx (· == name) < own.length := fun hlt =>
      hmem (List.idxOf_lt_length_iff.mp hlt)
    simp [Option.guard, hle, hmem]

theorem loadName_eq (own : List String) (name : String) :
    loadName own name = (Use.read name).instruction own := by
  by_cases h : name ∈ own ∧ own.idxOf name < operandRange
  · simp only [loadName, slot?_eq, Use.instruction, Use.name, h, and_self, if_true, Use.ofSlot]
  · simp only [loadName, slot?_eq, Use.instruction, Use.name, h, if_false, Use.ofScope]

theorem storeName_eq (own : List String) (name : String) :
    storeName own name = (Use.write name).instruction own := by
  by_cases h : name ∈ own ∧ own.idxOf name < operandRange
  · simp only [storeName, slot?_eq, Use.instruction, Use.name, h, and_self, if_true, Use.ofSlot]
  · simp only [storeName, slot?_eq, Use.instruction, Use.name, h, if_false, Use.ofScope]

end Compile

/-! ## Instructions for names -/

/-- Whether an instruction reads or writes a variable or a binding. -/
def Instruction.isAccess : Instruction → Bool
  | .loadName _ | .storeName _ | .defineName _ | .loadLocal _ | .storeLocal _ => true
  | _ => false

/-- The instructions of a list that read or write variables or bindings. -/
def accesses (is : List Instruction) : List Instruction := is.filter Instruction.isAccess

theorem accesses_append (is js : List Instruction) :
    accesses (is ++ js) = accesses is ++ accesses js :=
  List.filter_append is js

theorem Use.isAccess_instruction (own : List String) (u : Use) :
    (u.instruction own).isAccess = true := by
  rw [instruction]
  split <;> cases u <;> rfl

theorem Use.accesses_instruction (own : List String) (u : Use) :
    accesses [u.instruction own] = [u.instruction own] :=
  List.filter_cons_of_pos (u.isAccess_instruction own)

/-- The slots of own names exist. -/
theorem Use.flaw?_instruction {own : List String} {x : Extent} (h : own.length ≤ x.slots) (u : Use)
    (position : Nat) : x.flaw? position (u.instruction own) = none := by
  rw [instruction]
  split
  · next hslot =>
    have hlt : own.idxOf u.name < x.slots :=
      Nat.lt_of_lt_of_le (List.idxOf_lt_length_of_mem hslot.1) h
    have hnat : (UInt16.ofNat (own.idxOf u.name)).toNat = own.idxOf u.name :=
      Nat.mod_eq_of_lt hslot.2
    cases u <;> simp only [ofSlot, Extent.flaw?, hnat, if_neg (Nat.not_le.mpr hlt)]
  · cases u <;> rfl

/-- A scope instruction of a function is for a name that is not its own or has no slot in
range. -/
theorem Use.scopeName?_instruction {own : List String} {u : Use} {x : String} (hx : x ∈ own)
    (hslot : own.idxOf x < operandRange) : (u.instruction own).scopeName? ≠ some x := by
  rw [instruction]
  split
  · cases u <;> exact nofun
  · next h =>
    intro hname
    have heq : u.name = x := by cases u <;> exact Option.some.inj hname
    exact h (heq ▸ ⟨hx, hslot⟩)

namespace Node

variable (own : List String)

theorem accesses_expressions {ns : List Node}
    (hns : ∀ n ∈ ns, ∀ p, accesses ((n.expression own).layout p) =
      n.uses.map (Use.instruction own)) (p : Nat) :
    accesses ((expressions own ns).layout p) = (usesOfAll ns).map (Use.instruction own) := by
  induction ns generalizing p with
  | nil =>
    rw [expressions, usesOfAll]
    rfl
  | cons n rest ih =>
    obtain ⟨hn, hrest⟩ := List.forall_mem_cons.mp hns
    rw [expressions, usesOfAll, Statement.layout, accesses_append, hn, ih hrest, List.map_append]

/-- Each use of a name in an expression is compiled to its instruction. -/
theorem IsExpression.accesses {n : Node} (h : n.IsExpression) (p : Nat) :
    accesses ((n.expression own).layout p) = n.uses.map (Use.instruction own) := by
  induction h generalizing p with
  | number | text =>
    rw [expression, uses]
    · rfl
    all_goals simp
  | ident _ _ name =>
    rw [expression, uses, Statement.layout, loadName_eq]
    exact Use.accesses_instruction own (.read name)
  | assign _ _ name rest hvalue ih =>
    rw [expression, uses, List.map_append, ← ih p]
    simp only [Statement.layout, accesses_append, storeName_eq, Use.accesses_instruction]
    rfl
  | binary _ _ op rest hleft hright ihleft ihright =>
    rw [expression, uses, List.map_append]
    simp only [Statement.layout, accesses_append, ihleft, ihright]
    exact congrArg _ (List.append_nil _)
  | call _ _ hlength hcallee hargs ihcallee ihargs =>
    rw [expression, uses, List.map_append]
    simp only [Statement.layout, accesses_append, ihcallee, accesses_expressions own ihargs]
    exact congrArg _ (List.append_nil _)

theorem accesses_statements {ns : List Node}
    (hns : ∀ n ∈ ns, ∀ p, accesses ((n.statement own).layout p) =
      n.uses.map (Use.instruction own)) (p : Nat) :
    accesses ((statements own ns).layout p) = (usesOfAll ns).map (Use.instruction own) := by
  induction ns generalizing p with
  | nil =>
    rw [statements, usesOfAll]
    rfl
  | cons n rest ih =>
    obtain ⟨hn, hrest⟩ := List.forall_mem_cons.mp hns
    rw [statements, usesOfAll, Statement.layout, accesses_append, hn, ih hrest, List.map_append]

/-- Each use of a name in a statement is compiled to its instruction. -/
theorem IsStatement.accesses {n : Node} (h : n.IsStatement) (p : Nat) :
    accesses ((n.statement own).layout p) = n.uses.map (Use.instruction own) := by
  induction h generalizing p with
  | expression _ _ rest hvalue =>
    rw [statement, uses, Statement.layout, accesses_append, hvalue.accesses own]
    exact List.append_nil _
  | ret =>
    rw [statement, uses]
    · rfl
    all_goals simp
  | retValue _ _ rest hvalue =>
    rw [statement, uses, Statement.layout, accesses_append, hvalue.accesses own]
    exact List.append_nil _
  | block _ _ hbody ih =>
    rw [statement, uses]
    exact accesses_statements own ih p

end Node

namespace Compile

/-- The binding of each function declared in a function is compiled to its instruction. -/
theorem accesses_bindings (params own : List String) (declared : List String) (index p : Nat) :
    accesses ((bindings (.function params) own declared index).layout p) =
      declared.map fun name => (Use.write name).instruction own := by
  induction declared generalizing index p with
  | nil => rfl
  | cons name rest ih =>
    rw [bindings, Statement.layout, accesses_append, Statement.layout, accesses_append, ih,
      List.map_cons, binding, Statement.layout, storeName_eq, Use.accesses_instruction]
    rfl

/-- The uses of names in a body are compiled to their instructions, in order, and no other
instruction reads or writes a name. -/
theorem IsBody.accesses {params : List String} {body : List Node} {r : Routine}
    (h : IsBody strict (.function params) body r) :
    accesses r.code.toList = (bodyUses body).map (Use.instruction (ownNames params body)) := by
  have hlocals : (Level.function params).locals (declaredNames body).toArray =
      ownNames params body := rfl
  have hbindings := accesses_bindings params (ownNames params body) (declaredNames body) 0 0
  have hstatements := Node.accesses_statements (ownNames params body)
    fun n hn => (h.statements n hn).accesses _
  rw [h.code, List.toList_toArray, bodyStatement, Statement.layout, accesses_append, hlocals,
    hbindings, hstatements, Node.usesOfAll_filter, bodyUses, List.map_append, List.map_map]
  rfl

/-- No instruction of a function is a scope instruction for an own name with a slot in range. -/
theorem IsBody.scopeName?_ne {params : List String} {body : List Node} {r : Routine}
    (h : IsBody strict (.function params) body r) {x : String} (hx : x ∈ ownNames params body)
    (hslot : (ownNames params body).idxOf x < operandRange) {i : Instruction}
    (hi : i ∈ r.code) : i.scopeName? ≠ some x := by
  by_cases haccess : i.isAccess = true
  · have hmem : i ∈ ScriptMachine.accesses r.code.toList :=
      List.mem_filter.mpr ⟨Array.mem_toList_iff.mpr hi, haccess⟩
    rw [h.accesses] at hmem
    obtain ⟨u, -, rfl⟩ := List.mem_map.mp hmem
    exact Use.scopeName?_instruction hx hslot
  · cases i with
    | loadName | storeName | defineName => exact absurd rfl haccess
    | _ => exact nofun

end Compile

/-! ## Functions in a tree -/

/-- The routines that are nested in a routine, directly or not. -/
inductive Routine.Encloses (r : Routine) : Routine → Prop
  | direct {f : Routine} (hf : f ∈ r.nested) : Encloses r f
  | within {f g : Routine} (hf : Encloses r f) (hg : g ∈ f.nested) : Encloses r g

/-- A routine is what a tree was compiled to, or is nested in it. -/
def Routine.IsPart (script r : Routine) : Prop := r = script ∨ script.Encloses r

/-- The body of the script or of a function declared in a tree. -/
inductive SourceTree.HasBody (t : SourceTree) : Level → List Node → Prop
  | script : HasBody t .script t.statements.toList
  | function {position length : Nat} {name : String} {params : List String} {body : List Node}
      (h : Node.Declares t.statements.toList ⟨position, length, .function name params, body⟩) :
      HasBody t (.function params) body

namespace Compile

theorem IsBody.exists_nested {level : Level} {body : List Node} {r : Routine}
    (h : IsBody strict level body r) {n : Node} (hn : n ∈ body) (hfunction : isFunction n = true) :
    ∃ f ∈ r.nested, function strict n = .ok f := by
  have hmem : n ∈ body.filter isFunction := List.mem_filter.mpr ⟨hn, hfunction⟩
  obtain ⟨i, hi, rfl⟩ := List.mem_iff_getElem.mp hmem
  have hi' : i < r.nested.length := h.nested.length_eq ▸ hi
  exact ⟨r.nested[i], List.getElem_mem hi', h.nested.get hi hi'⟩

/-- A tree that compiles has every function declared in it compiled and nested. -/
theorem exists_enclosed {t : SourceTree} {script : Routine} (h : t.compile strict = .ok script)
    {n : Node} (hn : Node.Declares t.statements.toList n) :
    ∃ r, script.Encloses r ∧ function strict n = .ok r := by
  induction hn with
  | here hn hfunction =>
    obtain ⟨r, hr, hcompiled⟩ := (isBody_compile h).1.exists_nested hn hfunction
    exact ⟨r, .direct hr, hcompiled⟩
  | @inner f n hf hn hfunction ih =>
    obtain ⟨r, hr, hcompiled⟩ := ih
    obtain ⟨position, length, kind, children⟩ := f
    cases kind with
    | function name params =>
      obtain ⟨g, hg, hinner⟩ := (isBody_function hcompiled).exists_nested hn hfunction
      exact ⟨g, .within hr hg, hinner⟩
    | _ => cases hcompiled

theorem IsBody.exists_declared {level : Level} {body : List Node} {r f : Routine}
    (h : IsBody strict level body r) (hf : f ∈ r.nested) :
    ∃ n ∈ body, isFunction n = true ∧ function strict n = .ok f := by
  obtain ⟨i, hi, rfl⟩ := List.mem_iff_getElem.mp hf
  have hi' : i < (body.filter isFunction).length := h.nested.length_eq ▸ hi
  obtain ⟨hmem, hfunction⟩ := List.mem_filter.mp (List.getElem_mem hi')
  exact ⟨_, hmem, hfunction, h.nested.get hi' hi⟩

/-- Every routine that is nested in what a tree is compiled to comes from a declaration in it. -/
theorem exists_declares_of_encloses {t : SourceTree} {script r : Routine}
    (h : t.compile strict = .ok script) (hr : script.Encloses r) :
    ∃ n, Node.Declares t.statements.toList n ∧ function strict n = .ok r := by
  induction hr with
  | direct hf =>
    obtain ⟨n, hn, hfunction, hcompiled⟩ := (isBody_compile h).1.exists_declared hf
    exact ⟨n, .here hn hfunction, hcompiled⟩
  | within hf hg ih =>
    obtain ⟨n, hn, hcompiled⟩ := ih
    obtain ⟨position, length, kind, children⟩ := n
    cases kind with
    | function name params =>
      obtain ⟨m, hm, hfunction, hinner⟩ := (isBody_function hcompiled).exists_declared hg
      exact ⟨m, .inner hn hm hfunction, hinner⟩
    | _ => cases hcompiled

/-- Every part of what a tree is compiled to is what becomes of a body in the tree. -/
theorem exists_isBody {t : SourceTree} {script r : Routine} (h : t.compile strict = .ok script)
    (hr : script.IsPart r) : ∃ level body, t.HasBody level body ∧ IsBody strict level body r := by
  rcases hr with rfl | hr
  · exact ⟨_, _, .script, (isBody_compile h).1⟩
  · obtain ⟨⟨position, length, kind, children⟩, hn, hcompiled⟩ := exists_declares_of_encloses h hr
    cases kind with
    | function name params => exact ⟨_, _, .function hn, isBody_function hcompiled⟩
    | _ => cases hcompiled

end Compile

/-- In a tree that compiles every declared function is compiled and nested at its place, its slots
have its own names, and the instructions of its code that use names are those of the uses in its
body, in order: the functions declared in it are bound first. If the first own name that is the
same as a name has a slot in range, then every use of that name is of this slot, no instruction of
the function is a scope instruction for the name, and no instruction that a frame of the function
executes reads or writes a binding of it in any scope. -/
theorem SourceTree.own_names_have_slots {t : SourceTree} {script : Routine}
    (hcompiled : t.compile strict = .ok script) {position length : Nat} {name : String}
    {params : List String} {body : List Node}
    (hdeclared : Node.Declares t.statements.toList
      ⟨position, length, .function name params, body⟩) :
    ∃ r, script.Encloses r ∧
      function strict ⟨position, length, .function name params, body⟩ = .ok r ∧
      r.names.toList = ownNames params body ∧
      accesses r.code.toList = (bodyUses body).map (Use.instruction (ownNames params body)) ∧
      ∀ x ∈ ownNames params body, (ownNames params body).idxOf x < operandRange →
        (∀ u ∈ bodyUses body, u.name = x → u.instruction (ownNames params body) =
          u.ofSlot (UInt16.ofNat ((ownNames params body).idxOf x))) ∧
        (∀ i ∈ r.code, i.scopeName? ≠ some x) ∧
        ∀ (a : Activation) (f : Frame) (callers : List Frame), a.frames = f :: callers →
          f.body.routine = r → Spares (σ := σ) x a.execute := by
  obtain ⟨r, hr, hfunction⟩ := exists_enclosed hcompiled hdeclared
  have hbody := isBody_function hfunction
  refine ⟨r, hr, hfunction, ?_, hbody.accesses, fun x hx hslot => ⟨?_, ?_, ?_⟩⟩
  · exact hbody.names
  · rintro u - rfl
    rw [Use.instruction, if_pos ⟨hx, hslot⟩]
  · exact fun i hi => hbody.scopeName?_ne hx hslot hi
  · rintro a f callers hframes rfl m
    simp only [Activation.execute, hframes]
    split
    · exact ⟨rfl, fun _ => rfl⟩
    · next i g hfetch =>
      obtain ⟨i', hi, heq⟩ := Option.map_eq_some_iff.mp hfetch
      cases heq
      exact a.spares_perform _ callers
        (hbody.scopeName?_ne hx hslot (Array.mem_of_getElem? hi)) m

/-! ## A function with many parameters -/

/-- A body that declares a function and returns it. -/
def Node.hoistingBody : List Node :=
  [⟨0, 0, .function "g" [], []⟩, ⟨0, 0, .ret, [⟨0, 0, .ident "g", []⟩]⟩]

/-- A function with this body and so many parameters, all of one name. -/
def Node.hoisting (count : Nat) : Node :=
  ⟨0, 0, .function "f" (List.replicate count "p"), hoistingBody⟩

/-- A tree with this function alone. -/
def SourceTree.hoisting (count : Nat) : SourceTree := { id := ⟨0⟩, statements := #[.hoisting count] }

namespace Compile

abbrev hoistingNames (count : Nat) : List String :=
  ownNames (List.replicate count "p") Node.hoistingBody

theorem hoistingNames_eq (count : Nat) : hoistingNames count = List.replicate count "p" ++ ["g"] :=
  rfl

theorem mem_hoistingNames (count : Nat) : "g" ∈ hoistingNames count :=
  List.mem_append_right _ (List.mem_singleton_self _)

theorem idxOf_hoistingNames (count : Nat) : (hoistingNames count).idxOf "g" = count := by
  have hfree : "g" ∉ List.replicate count "p" := fun h =>
    absurd (List.eq_of_mem_replicate h) (by decide)
  rw [hoistingNames_eq, List.idxOf_append_of_notMem hfree, List.length_replicate]
  rfl

/-- The function that is declared inside. -/
def innerRoutine : Routine where
  name := some "g"
  kind := .function
  isGenerator := false
  isStrict := false
  isExpression := false
  paramCount := 0
  names := #[]
  isConst := #[]
  code := #[]
  nested := []

def hoistingRoutine (count : Nat) : Routine where
  name := some "f"
  kind := .function
  isGenerator := false
  isStrict := false
  isExpression := false
  paramCount := count
  names := (hoistingNames count).toArray
  isConst := Array.replicate count false ++ #[false]
  code := #[.closure 0, storeName (hoistingNames count) "g", loadName (hoistingNames count) "g",
    .ret]
  nested := [innerRoutine]

def hoistingScript (count : Nat) : Routine where
  name := none
  kind := .script
  isGenerator := false
  isStrict := false
  isExpression := false
  paramCount := 0
  names := #[]
  isConst := #[]
  code := #[.closure 0, .defineName "f"]
  nested := [hoistingRoutine count]

theorem valid_hoistingRoutine (count : Nat) : (hoistingRoutine count).Valid := by
  have hnames : (hoistingRoutine count).names.size = count + 1 := by
    simp [hoistingRoutine, hoistingNames_eq]
  have hconst : (hoistingRoutine count).isConst.size = count + 1 := by simp [hoistingRoutine]
  have hcode (u : Use) (position : Nat) :
      (hoistingRoutine count).extent.flaw? position (u.instruction (hoistingNames count)) = none :=
    Use.flaw?_instruction (Nat.le_of_eq rfl) u position
  have hflaw : (hoistingRoutine count).flaw? = none := by
    have hparams : ¬ count + 1 < (hoistingRoutine count).paramCount :=
      Nat.not_lt.mpr (Nat.le_succ count)
    have htoList : (hoistingRoutine count).code.toList = [.closure 0,
        (Use.write "g").instruction (hoistingNames count),
        (Use.read "g").instruction (hoistingNames count), .ret] := by
      rw [← storeName_eq, ← loadName_eq]
      rfl
    rw [Routine.flaw?, hnames, hconst, if_neg hparams, if_neg (fun h => h rfl),
      if_neg (by exact nofun), htoList]
    simp only [List.zipIdx_cons, List.zipIdx_nil, List.findSome?_cons, List.findSome?_nil, hcode]
    rfl
  rw [Routine.Valid, Routine.defect?_eq, hflaw]
  exact (Routine.firstDefect?_eq_none_iff _).mpr (List.forall_mem_singleton.mpr (by decide))

theorem valid_hoistingScript (count : Nat) : (hoistingScript count).Valid := by
  have hflaw : (hoistingScript count).flaw? = none := rfl
  rw [Routine.Valid, Routine.defect?_eq, hflaw]
  exact (Routine.firstDefect?_eq_none_iff _).mpr
    (List.forall_mem_singleton.mpr (valid_hoistingRoutine count))

/-- The function when its slots and the function inside are there. -/
def hoistingAssembler (count : Nat) : Assembler :=
  ((startRoutine false (List.replicate count "p") (.function "f")).nest innerRoutine).var "g"

theorem finish_eq_ok {level : Level} {body : List Node} {a b c : Assembler}
    {declared : Array String} {r : Routine}
    (hbind : bindFunctions level (level.locals declared) declared.toList 0 a = .ok b)
    (hbody : statements (level.locals declared) (body.filter (!isFunction ·)) b = .ok c)
    (hbuild : c.build = .ok r) : finish level body a declared = .ok r := by
  simp only [finish, hbind, hbody, hbuild]

theorem finish_inner :
    finish (.function []) [] (startRoutine false [] (.function "g")) #[] = .ok innerRoutine := by
  have hbuild : (startRoutine false [] (.function "g")).build = .ok innerRoutine :=
    build_eq_ok rfl (by simp [Assembler.routine, startRoutine, Assembler.function, innerRoutine])
      (by decide)
  exact finish_eq_ok rfl rfl hbuild

theorem finish_hoisting (count : Nat) :
    finish (.function (List.replicate count "p")) Node.hoistingBody
      (hoistingAssembler count) #["g"] = .ok (hoistingRoutine count) := by
  have hstart := startRoutine_eq false (List.replicate count "p") (.function "f") rfl
  have hbuild : { hoistingAssembler count with code := (hoistingRoutine count).code }.build =
      .ok (hoistingRoutine count) := by
    refine build_eq_ok ?_ ?_ (valid_hoistingRoutine count)
    · rw [hoistingAssembler, hstart]
      rfl
    · rw [hoistingAssembler, hstart]
      simp [Assembler.routine, Assembler.nest, Assembler.var, Assembler.function, hoistingRoutine,
        hoistingNames_eq, ← List.toArray_replicate]
  refine finish_eq_ok rfl ?_ hbuild
  rw [hoistingAssembler, hstart]
  rfl

theorem compile_hoisting (count : Nat) :
    (SourceTree.hoisting count).compile false = .ok (hoistingScript count) := by
  have hbuild : { (Assembler.script.nest (hoistingRoutine count)) with
      code := (hoistingScript count).code }.build = .ok (hoistingScript count) :=
    build_eq_ok rfl (by simp [Assembler.routine, Assembler.nest, Assembler.script, hoistingScript])
      (valid_hoistingScript count)
  have hfinish : finish .script (SourceTree.hoisting count).statements.toList
      (Assembler.script.nest (hoistingRoutine count)) #["f"] =
        .ok (hoistingScript count) := finish_eq_ok rfl rfl hbuild
  have hinner := finish_inner
  have hfunction := finish_hoisting count
  simp only [Node.hoistingBody, hoistingAssembler] at hfunction
  simp only [SourceTree.compile, SourceTree.hoisting, Node.hoisting, Node.hoistingBody,
    nestFunctions, hinner,
    List.push_toArray, List.nil_append, hfunction]
  exact hfinish

theorem bodyUses_hoisting : bodyUses Node.hoistingBody = [.write "g", .read "g"] := by
  simp only [bodyUses, Node.hoistingBody, Node.usesOfAll, Node.uses]
  rfl

/-- Beyond the range of operands the function inside is bound and read in the scope. -/
theorem code_hoistingRoutine {count : Nat} (h : operandRange ≤ count) :
    (hoistingRoutine count).code = #[.closure 0, .storeName "g", .loadName "g", .ret] := by
  have hscope (u : Use) (hu : u.name = "g") : u.instruction (hoistingNames count) = u.ofScope := by
    rw [Use.instruction, hu, idxOf_hoistingNames]
    exact if_neg fun hslot => Nat.not_lt.mpr h hslot.2
  rw [hoistingRoutine, storeName_eq, loadName_eq, hscope _ rfl, hscope _ rfl]
  rfl

/-- A call of the function that is about to read the function inside. -/
def hoistingFrame (count : Nat) : Frame :=
  { Frame.enter ⟨⟨0⟩, ⟨⟨⟨0⟩, []⟩, hoistingRoutine count⟩, none, valid_hoistingRoutine count⟩ ⟨0⟩
      .undefined [] with
    position := 2 }

/-- Whether a name is bound in the scope matters to a frame that is about to read it there. -/
theorem not_spares_loadName {f g : Frame} {name : String}
    (hfetch : f.fetch? = some (.loadName name, g)) (hscope : g.scope = ⟨0⟩)
    (hhandlers : g.handlers = []) :
    ¬ Spares (σ := Unit) name (Activation.execute ⟨⟨0⟩, [f], 1, false⟩) := by
  intro hspares
  let m : Store Unit := { Store.initial () with scopes := ⟨#[{ bindings := [(name, .null)] }]⟩ }
  have hbound : m.scopes.find? ⟨0⟩ name = some .null := by
    simp [m, Scopes.find?, Scopes.chain, Table.get, Table.get?, Scope.find?]
  have hfree : (m.erase name).scopes.find? ⟨0⟩ name = none := Scopes.find?_erase_self _ _
  have hunwind (v : Value) : Activation.unwind v [g] = [] := by
    rw [Activation.unwind, Frame.routeThrow, hhandlers]
    rfl
  have hmove := congrArg Prod.fst (hspares m).1
  simp only [Activation.execute, hfetch, Activation.perform, Frame.perform, hscope, hbound, hfree,
    Activation.failed, Activation.fail, Abrupt.referenceError, Abrupt.error, Activation.throw,
    hunwind] at hmove
  cases hmove

end Compile

/-- A function with as many parameters as can be addressed but one: the function inside has the
last slot. -/
theorem SourceTree.own_names_have_slots_hoisting :
    (SourceTree.hoisting 65535).compile false = .ok (hoistingScript 65535) ∧
      Node.Declares (SourceTree.hoisting 65535).statements.toList (.hoisting 65535) ∧
      ∃ r, (hoistingScript 65535).Encloses r ∧
        accesses r.code.toList = [.storeLocal 65535, .loadLocal 65535] ∧
        ∀ i ∈ r.code, i.scopeName? ≠ some "g" := by
  have hcompiled := compile_hoisting 65535
  have hdeclared : Node.Declares (SourceTree.hoisting 65535).statements.toList (.hoisting 65535) :=
    .here (List.mem_singleton_self _) rfl
  obtain ⟨r, hr, -, -, haccesses, hown⟩ :=
    SourceTree.own_names_have_slots (σ := Unit) hcompiled hdeclared
  have hslot : (hoistingNames 65535).idxOf "g" < operandRange := by
    rw [idxOf_hoistingNames]
    decide
  obtain ⟨huses, hscope, -⟩ := hown "g" (mem_hoistingNames 65535) hslot
  rw [bodyUses_hoisting] at haccesses huses
  have hwrite := huses (.write "g") (by simp) rfl
  have hread := huses (.read "g") (by simp) rfl
  rw [idxOf_hoistingNames] at hwrite hread
  rw [List.map_cons, List.map_singleton, hwrite, hread] at haccesses
  exact ⟨hcompiled, hdeclared, r, hr, haccesses, hscope⟩

/-- With one parameter more the function inside has no slot that can be addressed. It is bound in
the scope of the call, and read there. -/
theorem SourceTree.hoisted_into_scope :
    (SourceTree.hoisting 65536).compile false = .ok (hoistingScript 65536) ∧
      (hoistingScript 65536).Encloses (hoistingRoutine 65536) ∧
      "g" ∈ (hoistingRoutine 65536).names ∧
      (hoistingRoutine 65536).code = #[.closure 0, .storeName "g", .loadName "g", .ret] ∧
      ∃ a : Activation, a.frames = [hoistingFrame 65536] ∧
        ¬ Spares (σ := Unit) "g" a.execute := by
  have hcode := code_hoistingRoutine (Nat.le_refl operandRange)
  let a : Activation := ⟨⟨0⟩, [hoistingFrame 65536], 1, false⟩
  refine ⟨compile_hoisting 65536, .direct (List.mem_singleton_self _), ?_, hcode, a, rfl, ?_⟩
  · exact List.mem_toArray.mpr (mem_hoistingNames 65536)
  · have hload : (hoistingFrame 65536).body.routine.code[2]? = some (.loadName "g") :=
      congrArg (·[2]?) hcode
    have hfetch : (hoistingFrame 65536).fetch? =
        some (.loadName "g", { hoistingFrame 65536 with position := 3 }) :=
      congrArg (Option.map _) hload
    exact not_spares_loadName hfetch rfl rfl

end ScriptMachine
