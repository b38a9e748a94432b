/-!
# Exact values of double-precision numbers

A script number is a double-precision float. Its text is chosen by exact arithmetic on the
value that the bits stand for: a sign, a natural mantissa and a power of two.
-/

namespace ScriptMachine.Number

/-- The exact value of a double: `± mantissa · 2 ^ exponent` when it is finite. -/
inductive Binary where
  | nan
  | infinite (negative : Bool)
  | finite (negative : Bool) (mantissa : Nat) (exponent : Int)
  deriving DecidableEq, Repr

/-- Bits of the fraction field; a normal number has one more, implicit, bit in front. -/
def fractionBits : Nat := 52

/-- The implicit bit of the mantissa of a normal number. -/
def hiddenBit : Nat := Nat.pow 2 fractionBits

/-- The bit of the sign, above eleven exponent bits and the fraction. -/
def signBit : Nat := Nat.pow 2 11 * hiddenBit

/-- Exponent of the last bit of a subnormal number. -/
def leastExponent : Int := -1074

/-- The value of a 64-bit pattern: sign, eleven exponent bits, fraction. -/
def Binary.ofBits (bits : Nat) : Binary :=
  let negative := signBit ≤ bits
  let field := bits % signBit / hiddenBit
  let fraction := bits % hiddenBit
  if field = 2047 then
    if fraction = 0 then .infinite negative else .nan
  else if field = 0 then .finite negative fraction leastExponent
  else .finite negative (hiddenBit + fraction) (leastExponent + (field - 1 : Nat))

/-- The exact value of a float. -/
def Binary.ofFloat (x : Float) : Binary := .ofBits x.toBits.toNat

/-- The magnitude as a fraction of two natural numbers. -/
def Binary.ratio (mantissa : Nat) (exponent : Int) : Nat × Nat :=
  (mantissa * Nat.pow 2 exponent.toNat, Nat.pow 2 (-exponent).toNat)

/-- The integer with this value, if the value is integral. -/
def Binary.toInt? : Binary → Option Int
  | .finite negative mantissa exponent =>
    let (numerator, denominator) := ratio mantissa exponent
    if numerator % denominator = 0 then
      let magnitude := numerator / denominator
      some (if negative then -(magnitude : Int) else magnitude)
    else none
  | _ => none

end ScriptMachine.Number
