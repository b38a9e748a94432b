import ScriptMachine.Context.Feature
import ScriptMachine.Context.Version
import ScriptMachine.Settings.Overrides

/-!
# Settings

The settings of a runtime: how new contexts are configured, and which features are answered
differently from their defaults. Settings are plain data and may be wrong; `Settings.validate`
checks the language version and then the feature names, in order.
-/

namespace ScriptMachine

/-- Frames in one activation, unless a context is told otherwise. -/
def defaultFrameLimit : Nat := 1024

/-- How new contexts are configured. -/
structure ContextSettings where
  languageVersion : Int32 := 200
  /-- Zero turns observation off. -/
  observerThreshold : UInt32 := 0
  frameLimit : UInt64 := UInt64.ofNat defaultFrameLimit
  countsGenerated : Bool := false
  deriving DecidableEq, Repr, Inhabited

/-- The settings of a runtime. -/
structure Settings where
  context : ContextSettings := {}
  /-- Answers to feature queries that replace the defaults. -/
  features : Overrides := .empty
  deriving DecidableEq, Repr, Inhabited

/-- What is wrong with settings. -/
inductive SettingsError where
  /-- The document is no settings document. -/
  | unreadable
  /-- A number is too large to be written. -/
  | unwritable
  | unknownFeature (name : String)
  | invalid (f : Fault)
  deriving DecidableEq, Repr

/-- The wording, where it does not depend on how documents are read and written. -/
def SettingsError.message? : SettingsError → Option String
  | .unreadable | .unwritable => none
  | .unknownFeature name => some ("Unknown feature: " ++ name)
  | .invalid f => some f.message

namespace Settings

/-- The language version. -/
def version (s : Settings) : Except SettingsError LanguageVersion :=
  (LanguageVersion.ofInt s.context.languageVersion.toInt).mapError .invalid

/-- The features that the names stand for; the first unknown name is an error. -/
def featureOverrides (s : Settings) : Except SettingsError (List (Feature × Bool)) :=
  s.features.entries.mapM fun (name, enabled) =>
    match Feature.ofName? name with
    | some feature => .ok (feature, enabled)
    | none => .error (.unknownFeature name)

/-- Accept settings whose version and features exist. -/
def validate (s : Settings) : Except SettingsError Unit := do
  let _ ← s.version
  let _ ← s.featureOverrides
  return ()

end Settings

/-- What valid settings say about contexts. -/
structure ContextPlan where
  version : LanguageVersion
  context : ContextSettings
  features : List (Feature × Bool)
  deriving Repr, Inhabited

namespace ContextPlan

/-- The plan of settings; it exists for valid settings. -/
def ofSettings (s : Settings) : Except SettingsError ContextPlan := do
  let version ← s.version
  let features ← s.featureOverrides
  return { version, context := s.context, features }

/-- The answer to a feature query. -/
def hasFeature (p : ContextPlan) (f : Feature) : Bool :=
  (p.features.lookup f).getD f.enabledByDefault

end ContextPlan

end ScriptMachine
