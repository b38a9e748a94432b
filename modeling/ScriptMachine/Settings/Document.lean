import ScriptMachine.Settings.Basic
import ScriptMachine.Toml.Reader

/-!
# Settings documents

Settings are kept in TOML documents with two tables, `context` and `features`. Whatever else a
document has is not looked at, and whatever it lacks has its default. The fields of the context
may also be given as an array, in order.
-/

namespace ScriptMachine

open Toml (Value)

namespace ContextSettings

/-- An integer within bounds. -/
def integer? (low high : Int) : Value → Option Int
  | .integer n => if low ≤ n && n ≤ high then some n else none
  | _ => none

/-- The field of a language version. -/
def version? (v : Value) : Option Int32 :=
  (integer? Int32.minValue.toInt Int32.maxValue.toInt v).map Int32.ofInt

/-- The field of an observer threshold. -/
def threshold? (v : Value) : Option UInt32 :=
  (integer? 0 (UInt32.size - 1) v).map fun n => UInt32.ofNat n.toNat

/-- The field of a frame limit. -/
def limit? (v : Value) : Option UInt64 :=
  (integer? 0 (UInt64.size - 1) v).map fun n => UInt64.ofNat n.toNat

/-- The field of a switch. -/
def switch? : Value → Option Bool
  | .boolean b => some b
  | _ => none

/-- Read a field that may be missing. -/
def field? {α : Type} (read : Value → Option α) (default : α) : Option Value → Option α
  | none => some default
  | some v => read v

/-- The fields of the context, as far as they are given. -/
def ofFields (version threshold limit switch : Option Value) : Option ContextSettings := do
  let defaults : ContextSettings := {}
  return {
    languageVersion := ← field? version? defaults.languageVersion version
    observerThreshold := ← field? threshold? defaults.observerThreshold threshold
    frameLimit := ← field? limit? defaults.frameLimit limit
    countsGenerated := ← field? switch? defaults.countsGenerated switch }

/-- The fields of the context. A date has no fields that are known. -/
def ofValue : Value → Option ContextSettings
  | .table _ entries =>
    ofFields (entries.lookup "language_version") (entries.lookup "instruction_observer_threshold")
      (entries.lookup "max_stack_depth") (entries.lookup "generate_observer_count")
  | .array items => ofFields items[0]? items[1]? items[2]? items[3]?
  | .time => some {}
  | _ => none

end ContextSettings

namespace Settings

/-- The answers of a table of features. -/
def featuresOf : Value → Option (List (String × Bool))
  | .table _ entries =>
    entries.mapM fun (name, v) => (ContextSettings.switch? v).map fun enabled => (name, enabled)
  | _ => none

/-- The settings in the entries of a document. -/
def ofEntries (entries : Toml.Entries) : Option Settings := do
  let context ← match entries.lookup "context" with
    | some v => ContextSettings.ofValue v
    | none => some {}
  let features ← match entries.lookup "features" with
    | some v => featuresOf v
    | none => some []
  return { context, features := .ofList features }

/-- Read and validate a settings document. -/
def ofDocument (text : String) : Except SettingsError Settings :=
  match (Toml.read? text).bind ofEntries with
  | none => .error .unreadable
  | some s => s.validate.map fun _ => s

/-! ## Writing -/

/-- Whether a text can stand between single quotes. -/
def isLiteral (s : String) : Bool :=
  s.toList.all fun c => c != '\'' && (c == '\t' || (0x20 ≤ c.toNat && c.toNat != 0x7f))

/-- Whether a text can stand between double quotes as it is. -/
def isBasic (s : String) : Bool :=
  s.toList.all fun c =>
    c != '"' && c != '\\' && (c == '\t' || (0x20 ≤ c.toNat && c.toNat != 0x7f))

/-- A hexadecimal numeral of at least four digits. -/
def hex4 (n : Nat) : String :=
  let digits := (Nat.toDigits 16 n).map Char.toUpper
  String.ofList (List.replicate (4 - digits.length) '0' ++ digits)

/-- A character between double quotes. -/
def escapeChar (c : Char) : String :=
  match c with
  | '\x08' => "\\b"
  | '\t' => "\\t"
  | '\n' => "\\n"
  | '\x0c' => "\\f"
  | '\r' => "\\r"
  | '"' => "\\\""
  | '\\' => "\\\\"
  | c => if c.toNat < 0x20 || c.toNat == 0x7f then "\\u" ++ hex4 c.toNat else c.toString

/-- A text between double quotes. -/
def basicText (s : String) : String := "\"" ++ String.join (s.toList.map escapeChar) ++ "\""

/-- A key: bare if it can be, else in the quotes that need no escapes, else escaped. -/
def keyText (key : String) : String :=
  if !key.isEmpty && key.toList.all Toml.isBare then key
  else if isBasic key then basicText key
  else if isLiteral key then "'" ++ key ++ "'"
  else basicText key

/-- The largest number that a document can hold. -/
def largestInteger : Int := Int64.maxValue.toInt

/-- A line with a key and a value. -/
def line (key value : String) : String := key ++ " = " ++ value ++ "\n"

/-- A truth value in a document. -/
def boolText (b : Bool) : String := if b then "true" else "false"

/-- Write settings as a document. -/
def toDocument (s : Settings) : Except SettingsError String :=
  if largestInteger < s.context.frameLimit.toNat then .error .unwritable
  else
    .ok ("[context]\n" ++
      line "language_version" (toString s.context.languageVersion.toInt) ++
      line "instruction_observer_threshold" (toString s.context.observerThreshold.toNat) ++
      line "max_stack_depth" (toString s.context.frameLimit.toNat) ++
      line "generate_observer_count" (boolText s.context.countsGenerated) ++
      "\n[features]\n" ++
      String.join (s.features.entries.map fun (name, enabled) =>
        line (keyText name) (boolText enabled)))

/-- What went wrong with a settings file. -/
inductive FileError where
  /-- There is no file, or it holds no text. -/
  | unreadable
  | invalid (e : SettingsError)
  deriving DecidableEq, Repr

/-- The wording, with a path. The cause is not part of it. -/
def FileError.message (path : String) : FileError → String
  | .unreadable => "Failed to read config: " ++ path
  | .invalid _ => "Invalid config: " ++ path

/-- The settings in the text of a file, if it has one. -/
def ofFile (text : Option String) : Except FileError Settings :=
  match text with
  | none => .error .unreadable
  | some text => (ofDocument text).mapError .invalid

end Settings

end ScriptMachine
