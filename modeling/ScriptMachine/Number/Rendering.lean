import ScriptMachine.Number.Shortest

/-!
# Number texts

Two texts of a number. Scripts see `Number.render`: an integral number below 10²¹ is written
as a 64-bit integer, every other finite number positionally with its shortest digits. Code
listings use `Number.renderLiteral`, which keeps a decimal point and switches to an exponent
outside the range from 10⁻⁴ to 10¹⁶.
-/

namespace ScriptMachine.Number

/-- Zeros to fill a positional numeral. -/
def zeros (n : Nat) : String := String.ofList (List.replicate n '0')

/-- A decimal without an exponent: `120`, `1.2`, `0.012`. -/
def Decimal.positional (d : Decimal) : String :=
  let digits := Nat.toDigits 10 d.coefficient
  if 0 ≤ d.exponent then String.ofList digits ++ zeros d.exponent.toNat
  else
    let places := (-d.exponent).toNat
    if places < digits.length then
      String.ofList (digits.take (digits.length - places)) ++ "." ++
        String.ofList (digits.drop (digits.length - places))
    else "0." ++ zeros (places - digits.length) ++ String.ofList digits

/-- A decimal with one digit before the point and a power of ten: `1e21`, `1.2e-7`. -/
def Decimal.scientific (d : Decimal) : String :=
  let digits := Nat.toDigits 10 d.coefficient
  let power := d.exponent + (digits.length - 1 : Nat)
  let tail := String.ofList (digits.drop 1)
  String.ofList (digits.take 1) ++ (if tail.isEmpty then "" else "." ++ tail) ++ "e" ++
    toString power

/-- The 64-bit integer nearest to `n`. -/
def clampInt64 (n : Int) : Int := max Int64.minValue.toInt (min n Int64.maxValue.toInt)

/-- Integral numbers of at least this magnitude are not written as integers. -/
def integerTextBound : Nat := Nat.pow 10 21

/-- The minus sign of a negative number. -/
def signText (negative : Bool) : String := if negative then "-" else ""

/-- The text of an exact value as scripts see it. Zero has no sign. -/
def Binary.render : Binary → String
  | .nan => "NaN"
  | .infinite negative => signText negative ++ "Infinity"
  | .finite negative mantissa exponent =>
    let positional := signText negative ++ (shortest mantissa exponent).positional
    match Binary.toInt? (.finite negative mantissa exponent) with
    | some n => if n.natAbs < integerTextBound then toString (clampInt64 n) else positional
    | none => positional

/-- The text of an exact value in a code listing. -/
def Binary.renderLiteral : Binary → String
  | .nan => "NaN"
  | .infinite negative => signText negative ++ "inf"
  | .finite negative mantissa exponent =>
    let d := shortest mantissa exponent
    let power := d.exponent + digitCount d.coefficient
    let text :=
      if d.coefficient = 0 then "0.0"
      else if power < -3 ∨ 16 < power then d.scientific
      else if 0 ≤ d.exponent then d.positional ++ ".0"
      else d.positional
    signText negative ++ text

/-- The text of a number as scripts see it. -/
def render (x : Float) : String := (Binary.ofFloat x).render

/-- The text of a number in a code listing. -/
def renderLiteral (x : Float) : String := (Binary.ofFloat x).renderLiteral

end ScriptMachine.Number
