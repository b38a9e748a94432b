/-!
# Release

The name under which this engine presents itself to embedders, and its release number.
-/

namespace ScriptMachine.Release

/-- The name of the engine. -/
def name : String := "Strand"

/-- The release number. -/
def version : String := "0.3.0"

end ScriptMachine.Release
