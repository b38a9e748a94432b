import ScriptMachine.Embedding.Answer

/-!
# Requests about settings
-/

namespace ScriptMachine.Embedding

/-- Something to do with settings. -/
inductive SettingsAction where
  | validate
  | document
  | version
  | overrides

/-- A request about settings. -/
inductive SettingsRequest where
  | read (document : String) (keep : Option String)
  | make (s : Settings) (keep : Option String)
  /-- Read the text of a file, if the file can be read. -/
  | file (text : Option String) (keep : Option String)
  /-- Make a factory as the text of a file says. -/
  | factory (text : Option String) (keep : Option String)
  | act (settings : String) (a : SettingsAction)

namespace SettingsRequest

open Attempt

/-- Go on if the settings were right. -/
def unlessWrong {α : Type} : Except SettingsError α → Attempt α
  | .ok a => return a
  | .error e => throw (.settings e)

/-- Keep settings and show them. -/
def give (name : Option String) (s : Settings) : Attempt (Answer Record) := do
  keep (fun f s => { s with settings := f s.settings }) name s
  return .settings s

/-- Make a factory with a policy. -/
def giveFactory (name : Option String) (policy : Policy) : Attempt Unit := do
  let id ← ask (.factory (.create policy))
  keep (fun f s => { s with factories := f s.factories }) name id

/-- Answers to feature queries, by number of the feature. -/
def byIndex (overrides : List (Feature × Bool)) : List (Feature × Bool) :=
  Feature.all.filterMap fun f => (overrides.lookup f).map fun enabled => (f, enabled)

/-- Do something with settings. -/
def carryOut (s : Settings) : SettingsAction → Attempt (Answer Record)
  | .validate => do
    unlessWrong s.validate
    return .nothing
  | .document => do return .text (← unlessWrong s.toDocument)
  | .version => do return .integer (← unlessWrong s.version).toInt
  | .overrides => do return .overrides (byIndex (← unlessWrong s.featureOverrides))

/-- Carry out the request. -/
def perform : SettingsRequest → Attempt (Answer Record)
  | read document keep => do give keep (← unlessWrong (Settings.ofDocument document))
  | make s keep => give keep s
  | file text keep =>
    match Settings.ofFile text with
    | .ok s => give keep s
    | .error e => return .unreadFile e
  | factory text keep =>
    match Settings.ofFile text with
    | .ok s => do
      giveFactory keep (.planned (← unlessWrong (ContextPlan.ofSettings s)))
      return .factoryMade
    | .error e => return .unreadFile e
  | act name a => do carryOut (← find "config" Session.settings name) a

end SettingsRequest

end ScriptMachine.Embedding
