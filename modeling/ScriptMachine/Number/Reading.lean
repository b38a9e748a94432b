import ScriptMachine.Number.Binary
import ScriptMachine.Text.Blank

/-!
# Reading numerals

The number that a text stands for. Blanks around the numeral are ignored and an empty text is
zero. A numeral has digits with an optional point and an optional exponent; the words
`inf`, `infinity` and `nan` count in any case. Any other text is not a number.

The digits are rounded once, to the nearest double, ties to the even mantissa.
-/

namespace ScriptMachine.Number

/-- A fraction rounded to a natural number, halves to the even neighbour. -/
def roundHalfEven (numerator denominator : Nat) : Nat :=
  let quotient := numerator / denominator
  let remainder := numerator % denominator
  if 2 * remainder < denominator then quotient
  else if denominator < 2 * remainder then quotient + 1
  else quotient + quotient % 2

/-- The bits of positive infinity. -/
def infinityBits : Nat := 2047 * hiddenBit

/-- The bits of the result for what is not a number. -/
def nanBits : Nat := infinityBits + Nat.pow 2 (fractionBits - 1)

/-- The bits of the double nearest to a positive fraction. The exponent is chosen so that the
mantissa has 53 bits, or fewer at the bottom of the range; a mantissa that rounds up to the
next power of two carries into the exponent field. -/
def nearestBits (numerator denominator : Nat) : Nat :=
  let scaled (e : Int) : Nat × Nat :=
    (numerator * Nat.pow 2 (-e).toNat, denominator * Nat.pow 2 e.toNat)
  let guess : Int := (numerator.log2 : Int) - denominator.log2 - 53
  let (n, d) := scaled guess
  let exact := if n / d < 2 * hiddenBit then guess else guess + 1
  let exponent := max leastExponent exact
  let (n, d) := scaled exponent
  let mantissa := roundHalfEven n d
  if mantissa < hiddenBit then mantissa
  else
    min infinityBits
      ((exponent - leastExponent + 1).toNat * hiddenBit + (mantissa - hiddenBit))

/-- Beyond this many places every decimal is infinite, or zero, as a double. -/
def decimalRange : Int := 400

/-- The bits of the double nearest to `coefficient · 10 ^ exponent`. -/
def decimalBits (coefficient : Nat) (exponent : Int) : Nat :=
  let places : Int := (Nat.toDigits 10 coefficient).length
  if coefficient = 0 then 0
  else if decimalRange < places + exponent then infinityBits
  else if places + exponent < -decimalRange then 0
  else nearestBits (coefficient * Nat.pow 10 exponent.toNat) (Nat.pow 10 (-exponent).toNat)

/-- Digits in front of a text, and the rest. -/
def spanDigits (s : List Char) : List Char × List Char :=
  (s.takeWhile Char.isDigit, s.dropWhile Char.isDigit)

/-- The natural number with these digits. -/
def natOfDigits (digits : List Char) : Nat :=
  digits.foldl (fun n c => 10 * n + (c.toNat - '0'.toNat)) 0

/-- An exponent that has come this far takes no further digits. -/
def exponentBound : Nat := 65536

/-- The exponent with these digits. What is behind the digit that brings it to the bound is
ignored. -/
def exponentOfDigits (digits : List Char) : Nat :=
  digits.foldl (fun n c => if n < exponentBound then 10 * n + (c.toNat - '0'.toNat) else n) 0

/-- A number of digits that no midpoint of two neighbouring doubles exceeds. -/
def midpointDigits : Nat := 800

/-- The bits of the double nearest to the decimal with these digits and a power of ten. Behind
the digits that a midpoint can have it only matters whether all others are zero. -/
def digitsBits (digits : List Char) (exponent : Int) : Nat :=
  let digits := digits.dropWhile (· == '0')
  let others := digits.drop midpointDigits
  if others.isEmpty then decimalBits (natOfDigits digits) exponent
  else
    let last := if others.all (· == '0') then '0' else '1'
    decimalBits (natOfDigits (digits.take midpointDigits ++ [last])) (exponent + others.length - 1)

/-- A sign in front of a text: whether it is a minus, and the rest. -/
def spanSign : List Char → Bool × List Char
  | '-' :: s => (true, s)
  | '+' :: s => (false, s)
  | s => (false, s)

/-- The exponent part of a numeral, which has to be the rest of the text. -/
def exponent? : List Char → Option Int
  | [] => some 0
  | c :: s =>
    if c = 'e' ∨ c = 'E' then
      let (negative, s) := spanSign s
      let (digits, rest) := spanDigits s
      if digits.isEmpty ∨ !rest.isEmpty then none
      else if negative then some (-(exponentOfDigits digits)) else some (exponentOfDigits digits)
    else none

/-- The bits of an unsigned numeral. -/
def numeralBits? (s : List Char) : Option Nat :=
  let (whole, s) := spanDigits s
  let (places, s) := match s with
    | '.' :: s => spanDigits s
    | s => ([], s)
  if whole.isEmpty ∧ places.isEmpty then none
  else (exponent? s).map fun e =>
    digitsBits (whole ++ places) (e - places.length)

/-- The words for numbers that have no digits. -/
def wordBits? (s : List Char) : Option Nat :=
  match String.ofList (s.map Char.toLower) with
  | "inf" | "infinity" => some infinityBits
  | "nan" => some nanBits
  | _ => none

/-- The number that a text stands for. -/
def read (text : String) : Float :=
  match Text.trim text.toList with
  | [] => 0.0
  | trimmed =>
    let (negative, s) := spanSign trimmed
    match (wordBits? s).or (numeralBits? s) with
    | some bits => Float.ofBits (UInt64.ofNat (bits + if negative then signBit else 0))
    | none => Float.ofBits (UInt64.ofNat nanBits)

end ScriptMachine.Number
