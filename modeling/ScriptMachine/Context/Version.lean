import ScriptMachine.Fault

/-!
# Language versions
-/

namespace ScriptMachine

/-- The language level that scripts are written for. -/
inductive LanguageVersion where
  | unspecified
  | es6
  deriving DecidableEq, Repr, Inhabited

namespace LanguageVersion

/-- The number of a version. -/
def toInt : LanguageVersion → Int
  | .unspecified => 0
  | .es6 => 200

/-- The version with a number. -/
def ofInt (n : Int) : Except Fault LanguageVersion :=
  if n = 0 then .ok .unspecified
  else if n = 200 then .ok .es6
  else .error (.invalidArgument (.badVersion n))

end LanguageVersion

end ScriptMachine
