import ScriptMachine.Code.Routine
import ScriptMachine.Identity

/-!
# Executables

An executable is a routine that may be run: valid code together with the security it was created
under. Functions made from nested routines share the code of the routine around them and carry
its security on unchanged.
-/

namespace ScriptMachine

/-- Where shared code comes from: the routine that was built, and the indices of nested routines
that lead to the code, innermost first. Code with the same origin is the same code. -/
structure Origin where
  build : Id .routine
  path : List Nat
  deriving DecidableEq, Repr

/-- Code that several executables may share. -/
structure SharedRoutine where
  origin : Origin
  routine : Routine

/-- The nested routine with an index. -/
def SharedRoutine.nested? (r : SharedRoutine) (index : Nat) : Option SharedRoutine :=
  r.routine.nested[index]?.map fun f => ⟨⟨r.origin.build, index :: r.origin.path⟩, f⟩

/-- The controller that was in force when an executable was created, and the domain that it
answered. There is no domain without a controller. -/
structure Security where
  controller : Id .controller
  domain : Option Payload
  deriving DecidableEq, Repr

/-- A script or a function that may be run. -/
structure Executable where
  id : Id .executable
  shared : SharedRoutine
  security : Option Security
  valid : shared.routine.Valid

namespace Executable

/-- The code. -/
abbrev routine (e : Executable) : Routine := e.shared.routine

/-- The name; empty for scripts and anonymous functions. -/
def name (e : Executable) : String := e.routine.name.getD ""

/-- The domain of the security it was created under. -/
def domain? (e : Executable) : Option Payload := e.security.bind (·.domain)

/-- Whether two executables run the same code. -/
def sameCode (e f : Executable) : Bool := e.shared.origin == f.shared.origin

theorem valid_of_nested? {e : Executable} {index : Nat} {f : SharedRoutine}
    (h : e.shared.nested? index = some f) : f.routine.Valid := by
  simp only [SharedRoutine.nested?, Option.map_eq_some_iff] at h
  obtain ⟨g, hg, rfl⟩ := h
  exact e.valid.of_mem_nested (List.mem_of_getElem? hg)

/-- The function for a nested routine, under an identity of its own. -/
def nested? (e : Executable) (id : Id .executable) (index : Nat) : Option Executable :=
  match h : e.shared.nested? index with
  | some f => some { id, shared := f, security := e.security, valid := valid_of_nested? h }
  | none => none

/-- What a developer sees of an executable. -/
def inspect (e : Executable) : String :=
  "CallableUnit \x7b name: " ++ Text.quote e.name ++ ", kind: " ++ e.routine.kind.word ++
    s!", strict: {e.routine.isStrict}, generator: {e.routine.isGenerator}, has_security_domain: " ++
    s!"{e.domain?.isSome} \x7d"

end Executable

end ScriptMachine
