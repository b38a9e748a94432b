import ScriptMachine.Fault
import ScriptMachine.Identity

/-!
# Loaders

Loaders keep units of generated code under names. A loader may have a parent, and asks it first,
so no unit of an ancestor can be hidden: `Loaders.define` refuses a name that the loader or an
ancestor already has.
-/

namespace ScriptMachine

/-- A unit of generated code. -/
structure GeneratedUnit where
  name : String
  payload : List UInt8
  deriving DecidableEq, Repr

/-- The units of a loader, in order of definition, and its ancestors, nearest first. -/
structure Loader where
  units : List GeneratedUnit := []
  ancestors : List (Id .loader) := []
  deriving DecidableEq, Repr, Inhabited

/-- The unit that a loader itself has under a name. -/
def Loader.find? (l : Loader) (name : String) : Option GeneratedUnit :=
  l.units.find? (·.name == name)

/-- The names a loader itself has, in order of definition. -/
def Loader.names (l : Loader) : List String := l.units.map (·.name)

/-- What a developer sees of a loader. -/
def Loader.inspect (l : Loader) : String :=
  s!"DefiningLoader \x7b units: {l.units.length}, has_parent: {!l.ancestors.isEmpty} \x7d"

/-- All loaders. -/
abbrev Loaders := Table .loader Loader

namespace Loaders

/-- A new loader, with a parent or without one. -/
def create (t : Loaders) (parent : Option (Id .loader)) : Id .loader × Loaders :=
  let ancestors := match parent with
    | some p => p :: (t.get p).ancestors
    | none => []
  t.insert { ancestors }

/-- The first unit with a name in some loaders, asked from the last one on. -/
def resolve (t : Loaders) (chain : List (Id .loader)) (name : String) : Option GeneratedUnit :=
  chain.reverse.findSome? fun l => (t.get l).find? name

/-- The unit with a name, ancestors first. -/
def find? (t : Loaders) (l : Id .loader) (name : String) : Option GeneratedUnit :=
  t.resolve (l :: (t.get l).ancestors) name

/-- Keep a payload under a name. -/
def define (t : Loaders) (l : Id .loader) (name : String) (payload : List UInt8) :
    Except Fault (GeneratedUnit × Loaders) :=
  if name.isEmpty then .error (.invalidArgument .emptyUnitName)
  else if (t.resolve (t.get l).ancestors name).isSome then
    .error (.illegalState (.definedByAncestor name))
  else if ((t.get l).find? name).isSome then .error (.illegalState (.alreadyDefined name))
  else
    let unit : GeneratedUnit := ⟨name, payload⟩
    .ok (unit, t.modify l fun loader => { loader with units := loader.units ++ [unit] })

end Loaders

end ScriptMachine
