import ScriptMachine.Number.Binary

/-!
# Shortest decimals

The decimal with the fewest digits that reads back as a given double, and among those the one
nearest to it. A decimal reads back when it lies in the interval of reals that round to the
double; the ends belong to that interval exactly when the mantissa is even.

For one digit, two digits and so on, the two neighbours of the value on the decimal grid with
that many digits are tried in exact arithmetic. The first grid with a neighbour inside the
interval wins.
-/

namespace ScriptMachine.Number

/-- The number `coefficient · 10 ^ exponent`. -/
structure Decimal where
  coefficient : Nat
  exponent : Int
  deriving DecidableEq, Repr

/-- Number of decimal digits of a natural number. -/
def digitCount (n : Nat) : Nat := (Nat.toDigits 10 n).length

/-- The reals that round to a double, as multiples of a common fraction `1 / denominator`. -/
structure RoundingInterval where
  low : Nat
  value : Nat
  high : Nat
  denominator : Nat
  /-- Whether the two ends belong to the interval. -/
  closed : Bool

/-- The interval around `mantissa · 2 ^ exponent`. The neighbour below a power of two is half
as far away as the one above it. -/
def RoundingInterval.around (mantissa : Nat) (exponent : Int) : RoundingInterval :=
  let below := if mantissa = hiddenBit ∧ leastExponent < exponent then 1 else 2
  let scale := Nat.pow 2 (exponent - 2).toNat
  { low := (4 * mantissa - below) * scale
    value := 4 * mantissa * scale
    high := (4 * mantissa + 2) * scale
    denominator := Nat.pow 2 (2 - exponent).toNat
    closed := mantissa % 2 == 0 }

/-- Whether `coefficient · 10 ^ exponent` lies in the interval. -/
def RoundingInterval.holds (r : RoundingInterval) (d : Decimal) : Bool :=
  let point := d.coefficient * Nat.pow 10 d.exponent.toNat * r.denominator
  let unit := Nat.pow 10 (-d.exponent).toNat
  if r.closed then r.low * unit ≤ point && point ≤ r.high * unit
  else r.low * unit < point && point < r.high * unit

/-- The power of ten just above the value: `10 ^ (E - 1) ≤ value < 10 ^ E`. -/
def RoundingInterval.magnitude (r : RoundingInterval) : Int :=
  digitCount (r.value * Nat.pow 10 400 / r.denominator) - 400

/-- The neighbour of the value on the grid `10 ^ exponent` that lies in the interval, the
nearer one if both do; a tie goes up. -/
def RoundingInterval.neighbour? (r : RoundingInterval) (exponent : Int) : Option Decimal :=
  let numerator := r.value * Nat.pow 10 (-exponent).toNat
  let denominator := r.denominator * Nat.pow 10 exponent.toNat
  let down : Decimal := ⟨numerator / denominator, exponent⟩
  let up : Decimal := ⟨numerator / denominator + 1, exponent⟩
  match r.holds down, r.holds up with
  | true, true => some (if 2 * (numerator % denominator) < denominator then down else up)
  | true, false => some down
  | false, true => some up
  | false, false => none

/-- Seventeen digits always tell two doubles apart. -/
def longestDecimal : Nat := 17

/-- Search the grids with `digits`, `digits + 1`, … digits. -/
def RoundingInterval.search (r : RoundingInterval) (magnitude : Int) : Nat → Nat → Decimal
  | 0, digits => ⟨r.value * Nat.pow 10 (digits - magnitude).toNat /
      (r.denominator * Nat.pow 10 (magnitude - digits).toNat), magnitude - digits⟩
  | more + 1, digits =>
    match r.neighbour? (magnitude - digits) with
    | some d => d
    | none => r.search magnitude more (digits + 1)

/-- Drop the zeros at the end of the coefficient. -/
def Decimal.trim (d : Decimal) : Decimal :=
  let digits := Nat.toDigits 10 d.coefficient
  let zeros := (digits.reverse.takeWhile (· == '0')).length
  if d.coefficient = 0 then ⟨0, 0⟩ else ⟨d.coefficient / Nat.pow 10 zeros, d.exponent + zeros⟩

/-- The shortest decimal of a finite magnitude. -/
def shortest (mantissa : Nat) (exponent : Int) : Decimal :=
  if mantissa = 0 then ⟨0, 0⟩
  else
    let r := RoundingInterval.around mantissa exponent
    (r.search r.magnitude longestDecimal 1).trim

end ScriptMachine.Number
