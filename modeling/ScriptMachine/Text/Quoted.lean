import ScriptMachine.Text.Combining
import ScriptMachine.Text.Unprintable

/-!
# Quoted text

Text between double quotes, with a backslash in front of quotes, backslashes and the common
controls. Characters that would not show, or that would change the look of a neighbour, are
written by their code point in braces.
-/

namespace ScriptMachine.Text

/-- The escape of a code point: hexadecimal digits in braces. -/
def codePointEscape (c : Char) : String :=
  "\\u\x7b" ++ String.ofList (Nat.toDigits 16 c.toNat) ++ "\x7d"

/-- A character inside quotes. -/
def quoteChar (c : Char) : String :=
  match c with
  | '"' => "\\\""
  | '\\' => "\\\\"
  | '\n' => "\\n"
  | '\r' => "\\r"
  | '\t' => "\\t"
  | '\x00' => "\\0"
  | c =>
    if 0x20 ≤ c.toNat && c.toNat < 0x7f then c.toString
    else if isCombining c || isUnprintable c then codePointEscape c
    else c.toString

/-- A text between double quotes. -/
def quote (s : String) : String :=
  "\"" ++ String.join (s.toList.map quoteChar) ++ "\""

end ScriptMachine.Text
