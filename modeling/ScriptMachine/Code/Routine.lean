import ScriptMachine.Code.Instruction

/-!
# Routines

A routine is the compiled form of a script or a function: a table of local slots, a list of
instructions and the routines nested in it. `Routine.validate` rejects code that refers to
something it does not have; its first complaint is a `Defect`.
-/

namespace ScriptMachine

/-- What a routine was compiled from. -/
inductive RoutineKind where
  | script
  | function
  deriving DecidableEq, Repr

/-- The word for a kind in messages. -/
def RoutineKind.word : RoutineKind → String
  | .script => "Script"
  | .function => "Function"

/-- Compiled code. -/
structure Routine where
  /-- Scripts and anonymous functions have no name. -/
  name : Option String
  kind : RoutineKind
  isGenerator : Bool
  isStrict : Bool
  /-- The function was written as an expression and not as a declaration. -/
  isExpression : Bool
  /-- How many of the slots, counted from the first, are parameters. -/
  paramCount : Nat
  /-- The names of the slots: parameters, then variables. -/
  names : Array String
  /-- For each slot whether it is constant. -/
  isConst : Array Bool
  code : Array Instruction
  nested : List Routine

namespace Routine

/-- Whether the routine was compiled from a script. -/
def isScript (r : Routine) : Bool := r.kind == .script

/-- Whether a function with this name is declared directly inside. Functions written as
expressions declare nothing. -/
def declares (r : Routine) (name : String) : Bool :=
  r.nested.any fun f => !f.isExpression && f.name == some name

mutual

/-- Equality of all parts. Number constants are compared as numbers, so a constant that is not
a number differs from itself and the two zeros are equal. -/
def same (a b : Routine) : Bool :=
  match a, b with
  | ⟨name, kind, gen, strict, expr, params, names, consts, code, nested⟩,
    ⟨name', kind', gen', strict', expr', params', names', consts', code', nested'⟩ =>
    name == name' && kind == kind' && gen == gen' && strict == strict' && expr == expr' &&
      params == params' && names == names' && consts == consts' && code == code' &&
      sameAll nested nested'

/-- Equality of all parts of two lists of routines. -/
def sameAll : List Routine → List Routine → Bool
  | [], [] => true
  | a :: as, b :: bs => same a b && sameAll as bs
  | _, _ => false

end

/-- The listing: a headline and one line for each instruction. -/
def listing (r : Routine) : String :=
  let kind := match r.kind with
    | .script => "script"
    | .function => "function"
  let headline := kind ++ " " ++ r.name.getD "<anonymous>" ++
    s!" ({r.paramCount} params, {r.names.size} locals)\n"
  let line (position : Nat) (i : Instruction) : String :=
    let digits := toString position
    "  " ++ Number.zeros (4 - digits.length) ++ digits ++ " " ++ i.listing ++ "\n"
  headline ++ String.join (r.code.toList.zipIdx.map fun (i, position) => line position i)

end Routine

/-- What is wrong with a routine. Positions count instructions. -/
inductive Flaw where
  | missingNames (params names : Nat)
  | constTable
  | scriptGenerator
  | jumpTarget (position target : Nat)
  | localSlot (slot : UInt16) (position : Nat)
  | nestedRoutine (index : UInt16) (position : Nat)
  | emptyTry (position : Nat)
  | tryTarget (position : Nat)
  | strayYield (position : Nat)
  deriving DecidableEq, Repr

/-- The wording of a flaw. -/
def Flaw.message : Flaw → String
  | .missingNames params names => s!"{params} parameters but only {names} names"
  | .constTable => "const table does not match name table"
  | .scriptGenerator => "a script cannot be a generator"
  | .jumpTarget position target => s!"jump at {position} targets {target}"
  | .localSlot slot position => s!"local slot {slot} out of range at {position}"
  | .nestedRoutine index position => s!"nested function {index} out of range at {position}"
  | .emptyTry position => s!"try at {position} has neither catch nor finally"
  | .tryTarget position => s!"try at {position} targets past the end"
  | .strayYield position => s!"yield at {position} outside a generator"

/-- A flaw of the routine with this name. -/
structure Defect where
  owner : Option String
  flaw : Flaw
  deriving DecidableEq, Repr

/-- The wording of a defect. -/
def Defect.message (d : Defect) : String := d.owner.getD "<script>" ++ ": " ++ d.flaw.message

/-- What the instructions of a routine may refer to: how much code, how many slots and nested
routines there are, and whether there is anything to yield to. -/
structure Extent where
  code : Nat
  slots : Nat
  nested : Nat
  isGenerator : Bool
  deriving DecidableEq, Repr

/-- The flaw of one instruction. Jumps may target the end of the code. -/
def Extent.flaw? (x : Extent) (position : Nat) : Instruction → Option Flaw
  | .jump target | .jumpIfFalse target =>
    if x.code < target then some (.jumpTarget position target) else none
  | .loadLocal slot | .storeLocal slot =>
    if x.slots ≤ slot.toNat then some (.localSlot slot position) else none
  | .closure index =>
    if x.nested ≤ index.toNat then some (.nestedRoutine index position) else none
  | .enterTry none none => some (.emptyTry position)
  | .enterTry catchAt finallyAt =>
    if catchAt.any (x.code < ·) || finallyAt.any (x.code < ·) then some (.tryTarget position)
    else none
  | .yield => if x.isGenerator then none else some (.strayYield position)
  | _ => none

namespace Routine

/-- What the instructions of a routine may refer to. -/
def extent (r : Routine) : Extent :=
  { code := r.code.size
    slots := r.names.size
    nested := r.nested.length
    isGenerator := r.isGenerator }

/-- The first flaw of a routine, its nested routines aside: the tables before the code. -/
def flaw? (r : Routine) : Option Flaw :=
  if r.names.size < r.paramCount then some (.missingNames r.paramCount r.names.size)
  else if r.isConst.size ≠ r.names.size then some .constTable
  else if r.isGenerator && r.isScript then some .scriptGenerator
  else
    let extent := r.extent
    r.code.toList.zipIdx.findSome? fun (i, position) => extent.flaw? position i

mutual

/-- The first defect of a routine, its own before those of its nested routines. -/
def defect? (r : Routine) : Option Defect :=
  match r with
  | ⟨name, kind, gen, strict, expr, params, names, consts, code, nested⟩ =>
    match flaw? ⟨name, kind, gen, strict, expr, params, names, consts, code, nested⟩ with
    | some flaw => some ⟨name, flaw⟩
    | none => firstDefect? nested

/-- The first defect in a list of routines. -/
def firstDefect? : List Routine → Option Defect
  | [] => none
  | r :: rest =>
    match defect? r with
    | some d => some d
    | none => firstDefect? rest

end

/-- Code that may be run. -/
def Valid (r : Routine) : Prop := r.defect? = none

instance (r : Routine) : Decidable r.Valid := inferInstanceAs (Decidable (r.defect? = none))

/-- Accept valid code. -/
def validate (r : Routine) : Except Defect Unit :=
  match r.defect? with
  | some d => .error d
  | none => .ok ()

theorem defect?_eq (r : Routine) :
    r.defect? = match r.flaw? with
      | some flaw => some ⟨r.name, flaw⟩
      | none => firstDefect? r.nested := by
  cases r
  rw [defect?]

theorem firstDefect?_eq_none_iff (rs : List Routine) :
    firstDefect? rs = none ↔ ∀ r ∈ rs, r.Valid := by
  induction rs with
  | nil => simp [firstDefect?]
  | cons r rest ih =>
    simp only [firstDefect?, List.forall_mem_cons, Valid]
    cases h : r.defect? with
    | none => simpa [Valid] using ih
    | some d => simp

theorem Valid.of_mem_nested {r f : Routine} (h : r.Valid) (hf : f ∈ r.nested) : f.Valid := by
  rw [Valid, defect?_eq] at h
  cases hflaw : r.flaw? with
  | some flaw => rw [hflaw] at h; simp at h
  | none =>
    rw [hflaw] at h
    exact (firstDefect?_eq_none_iff r.nested).mp h f hf

end Routine

end ScriptMachine
