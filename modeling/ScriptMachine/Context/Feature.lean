/-!
# Features

The toggles that a factory answers for its contexts. A feature is known by a number, which
embedders use, and by a name, which settings use.
-/

namespace ScriptMachine

/-- A toggle of the runtime. -/
inductive Feature where
  | memberExprAsFunctionName
  | reservedKeywordAsIdentifier
  | parentProtoProperties
  | dynamicScope
  | strictVars
  | strictEval
  | locationInformationInError
  | strictMode
  | warningAsError
  | enhancedHostAccess
  | v8Extensions
  | threadSafeObjects
  | integerWithoutDecimalPlace
  | littleEndian
  deriving DecidableEq, Repr

namespace Feature

/-- All features, by number. -/
def all : List Feature :=
  [.memberExprAsFunctionName, .reservedKeywordAsIdentifier, .parentProtoProperties,
   .dynamicScope, .strictVars, .strictEval, .locationInformationInError, .strictMode,
   .warningAsError, .enhancedHostAccess, .v8Extensions, .threadSafeObjects,
   .integerWithoutDecimalPlace, .littleEndian]

/-- The number of a feature, counted from one. -/
def index : Feature → Nat
  | .memberExprAsFunctionName => 1
  | .reservedKeywordAsIdentifier => 2
  | .parentProtoProperties => 3
  | .dynamicScope => 4
  | .strictVars => 5
  | .strictEval => 6
  | .locationInformationInError => 7
  | .strictMode => 8
  | .warningAsError => 9
  | .enhancedHostAccess => 10
  | .v8Extensions => 11
  | .threadSafeObjects => 12
  | .integerWithoutDecimalPlace => 13
  | .littleEndian => 14

/-- The name of a feature in settings. -/
def name : Feature → String
  | .memberExprAsFunctionName => "member_expr_as_function_name"
  | .reservedKeywordAsIdentifier => "reserved_keyword_as_identifier"
  | .parentProtoProperties => "parent_proto_properties"
  | .dynamicScope => "dynamic_scope"
  | .strictVars => "strict_vars"
  | .strictEval => "strict_eval"
  | .locationInformationInError => "location_information_in_error"
  | .strictMode => "strict_mode"
  | .warningAsError => "warning_as_error"
  | .enhancedHostAccess => "enhanced_host_access"
  | .v8Extensions => "v8_extensions"
  | .threadSafeObjects => "thread_safe_objects"
  | .integerWithoutDecimalPlace => "integer_without_decimal_place"
  | .littleEndian => "little_endian"

/-- The answer where nothing else is said. -/
def enabledByDefault : Feature → Bool
  | .reservedKeywordAsIdentifier | .parentProtoProperties | .v8Extensions => true
  | _ => false

/-- The feature with a number. -/
def ofIndex? (index : Nat) : Option Feature := all.find? (·.index == index)

/-- The feature with a name. -/
def ofName? (name : String) : Option Feature := all.find? (·.name == name)

theorem mem_all (f : Feature) : f ∈ all := by cases f <;> decide

theorem ofIndex?_index (f : Feature) : ofIndex? f.index = some f := by cases f <;> decide

end Feature

end ScriptMachine
