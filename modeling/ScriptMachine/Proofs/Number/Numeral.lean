import Mathlib
import ScriptMachine.Proofs.Number.Rounding
import ScriptMachine.Value.Basic

/-!
# The numeral of an integral number

An integral number below 10^21 is written by way of a 64-bit integer, which clamps. From -2^63 to
2^63 - 1 the text is the decimal numeral of the number, so different numbers have different texts
and reading the text gives the number back (`Value.numeral_of_integral`). On both sides of that
range every number below 10^21 has the text of the end of the range: 2^63 and 10^20 look the same
(`Value.same_text_clamped`).
-/

namespace ScriptMachine

namespace Number

/-! ## Reading digits -/

theorem isBlank_eq_false {c : Char} (h : c.isDigit ∨ c = '-') : Text.isBlank c = false := by
  rcases h with h | rfl
  · have hrange : 48 ≤ c.toNat ∧ c.toNat ≤ 57 := by
      simpa [Char.isDigit, UInt32.le_iff_toNat_le] using h
    unfold Text.isBlank
    simp only [Bool.or_eq_false_iff, Bool.and_eq_false_iff, decide_eq_false_iff_not,
      beq_eq_false_iff_ne]
    omega
  · decide

theorem trim_eq_self {s : List Char} (h : ∀ c ∈ s, c.isDigit ∨ c = '-') : Text.trim s = s := by
  have hdrop {l : List Char} (hl : ∀ c ∈ l, c ∈ s) : l.dropWhile Text.isBlank = l := by
    cases l with
    | nil => rfl
    | cons c l =>
      have hc := isBlank_eq_false (h c (hl c List.mem_cons_self))
      exact List.dropWhile_cons_of_neg (by rw [hc]; exact Bool.false_ne_true)
  unfold Text.trim
  rw [hdrop fun _ => id, hdrop fun c hc => List.mem_reverse.mp hc, List.reverse_reverse]

section Digits

variable {s : List Char}

theorem spanSign_digits (hs : ∀ c ∈ s, c.isDigit) : spanSign s = (false, s) := by
  unfold spanSign
  split
  · exact absurd (hs '-' List.mem_cons_self) (by decide)
  · exact absurd (hs '+' List.mem_cons_self) (by decide)
  · rfl

theorem numeralBits?_digits (hs : ∀ c ∈ s, c.isDigit) (hne : s ≠ []) :
    numeralBits? s = some (digitsBits s 0) := by
  have htake : s.takeWhile Char.isDigit = s := List.takeWhile_eq_self_iff.mpr hs
  have hdrop : s.dropWhile Char.isDigit = [] := List.dropWhile_eq_nil_iff.mpr hs
  unfold numeralBits?
  simp [spanDigits, htake, hdrop, exponent?, hne]

/-- Digits spell no word. -/
theorem wordBits?_digits (hs : ∀ c ∈ s, c.isDigit) (hne : s ≠ []) : wordBits? s = none := by
  obtain ⟨c, rest, rfl⟩ := List.exists_cons_of_ne_nil hne
  have hdigit : c.isDigit := hs c List.mem_cons_self
  have hfirst (d : Char) (word : List Char) (hd : d.isDigit = false) :
      String.ofList ((c :: rest).map Char.toLower) ≠ String.ofList (d :: word) := by
    intro h
    have hlower : c.toLower = c := by
      apply Char.toLower_eq_of_not_isUpper
      simp only [Char.isDigit, Char.isUpper, UInt32.le_iff_toNat_le, Bool.and_eq_true,
        decide_eq_true_eq] at hdigit ⊢
      have : 'A'.val.toNat = 65 := rfl
      have : '9'.val.toNat = 57 := rfl
      omega
    obtain ⟨hcd, -⟩ := List.cons.inj (String.ofList_injective h)
    rw [hlower] at hcd
    rw [← hcd, hdigit] at hd
    cases hd
  unfold wordBits?
  split
  · next h => exact absurd h (hfirst 'i' ['n', 'f'] rfl)
  · next h => exact absurd h (hfirst 'i' "nfinity".toList rfl)
  · next h => exact absurd h (hfirst 'n' ['a', 'n'] rfl)
  · rfl

end Digits

/-- Zeros in front do not count. -/
theorem natOfDigits_dropWhile (s : List Char) :
    natOfDigits (s.dropWhile (· == '0')) = natOfDigits s := by
  induction s with
  | nil => rfl
  | cons c s ih =>
    rw [List.dropWhile_cons]
    split
    · next hc =>
      rw [ih, eq_of_beq hc]
      rfl
    · rfl

theorem digitsBits_toDigits {n : Nat} (h : (Nat.toDigits 10 n).length ≤ 400) :
    digitsBits (Nat.toDigits 10 n) 0 = decimalBits n 0 := by
  have hshort : ((Nat.toDigits 10 n).dropWhile (· == '0')).length ≤ midpointDigits :=
    (List.dropWhile_sublist _).length_le.trans (h.trans (by decide))
  have hnat : natOfDigits (Nat.toDigits 10 n) = n := Nat.ofDigitChars_ten_toDigits
  unfold digitsBits
  simp only [List.drop_eq_nil_of_le hshort, List.isEmpty_nil, if_true, natOfDigits_dropWhile, hnat]

/-- The numeral of a natural number, read without its sign. -/
theorem bits?_toDigits {n : Nat} (h : (Nat.toDigits 10 n).length ≤ 400) :
    (wordBits? (Nat.toDigits 10 n)).or (numeralBits? (Nat.toDigits 10 n)) =
      some (decimalBits n 0) := by
  have hdigits : ∀ c ∈ Nat.toDigits 10 n, c.isDigit :=
    fun c hc => Nat.isDigit_of_mem_toDigits (by decide) (by decide) hc
  rw [wordBits?_digits hdigits Nat.toDigits_ne_nil, numeralBits?_digits hdigits Nat.toDigits_ne_nil,
    digitsBits_toDigits h, Option.none_or]

/-! ## Reading integers -/

theorem read_of_toList {text : String} {s digits : List Char} {negative : Bool} {bits : Nat}
    (htext : text.toList = s) (hs : ∀ c ∈ s, c.isDigit ∨ c = '-') (hne : s ≠ [])
    (hsign : spanSign s = (negative, digits))
    (hbits : (wordBits? digits).or (numeralBits? digits) = some bits) :
    read text = Float.ofBits (UInt64.ofNat (bits + if negative then signBit else 0)) := by
  unfold read
  rw [htext, trim_eq_self hs]
  split
  · exact absurd rfl hne
  · simp only [hsign, hbits]

theorem read_natCast {n : Nat} (h : (Nat.toDigits 10 n).length ≤ 400) :
    read (toString (n : Int)) = Float.ofBits (UInt64.ofNat (decimalBits n 0)) := by
  have hdigits : ∀ c ∈ Nat.toDigits 10 n, c.isDigit :=
    fun c hc => Nat.isDigit_of_mem_toDigits (by decide) (by decide) hc
  have htext : (toString (n : Int)).toList = Nat.toDigits 10 n := Nat.toList_repr
  rw [read_of_toList htext (fun c hc => Or.inl (hdigits c hc)) Nat.toDigits_ne_nil
    (spanSign_digits hdigits) (bits?_toDigits h), if_neg Bool.false_ne_true, Nat.add_zero]

theorem read_negSucc {n : Nat} (h : (Nat.toDigits 10 (n + 1)).length ≤ 400) :
    read (toString (Int.negSucc n)) =
      Float.ofBits (UInt64.ofNat (decimalBits (n + 1) 0 + signBit)) := by
  have hdigits : ∀ c ∈ Nat.toDigits 10 (n + 1), c.isDigit :=
    fun c hc => Nat.isDigit_of_mem_toDigits (by decide) (by decide) hc
  have htext : (toString (Int.negSucc n)).toList = '-' :: Nat.toDigits 10 (n + 1) := by
    show ("-" ++ (n + 1).repr).toList = _
    rw [String.toList_append, Nat.toList_repr]
    rfl
  have hchars : ∀ c ∈ '-' :: Nat.toDigits 10 (n + 1), c.isDigit ∨ c = '-' := by
    rintro c (_ | ⟨_, hc⟩)
    · exact Or.inr rfl
    · exact Or.inl (hdigits c hc)
  have hsign : spanSign ('-' :: Nat.toDigits 10 (n + 1)) = (true, Nat.toDigits 10 (n + 1)) := rfl
  rw [read_of_toList htext hchars (List.cons_ne_nil _ _) hsign (bits?_toDigits h), if_pos rfl]

/-! ## Integral doubles -/

variable {x y : Float} {n m : Int}

/-- The number is an integer. -/
def IsInteger (x : Float) (n : Int) : Prop := (Binary.ofFloat x).toInt? = some n

instance : Decidable (IsInteger x n) := inferInstanceAs (Decidable (_ = _))

/-- The sign of an integral double. -/
theorem signBit_of_toInt? {bits : Nat} (h : (Binary.ofBits bits).toInt? = some n) :
    (0 < n → ¬ signBit ≤ bits) ∧ (n < 0 → signBit ≤ bits) := by
  have hfinite {m : Nat} {e : Int}
      (h : (Binary.finite (decide (signBit ≤ bits)) m e).toInt? = some n) :
      (0 < n → ¬ signBit ≤ bits) ∧ (n < 0 → signBit ≤ bits) := by
    obtain ⟨-, hpositive, hnegative⟩ := Binary.toInt?_finite h
    rw [decide_eq_false_iff_not] at hpositive
    rw [decide_eq_true_eq] at hnegative
    refine ⟨fun hn hle => ?_, fun hn => ?_⟩
    · have := hnegative hle
      omega
    · by_contra hle
      have := hpositive hle
      omega
  unfold Binary.ofBits at h
  dsimp only at h
  split at h
  · split at h <;> cases h
  · split at h <;> exact hfinite h

/-- The numeral of an integral double reads as that double. Minus zero is written without its
sign, so it reads as zero. -/
theorem read_toString (h : IsInteger x n) : read (toString n) = if n = 0 then 0.0 else x := by
  obtain ⟨hbits, hlength⟩ := decimalBits_of_toInt? h
  obtain ⟨hpositive, hnegative⟩ := signBit_of_toInt? h
  have hsplit := bits_eq x.toBits.toNat_lt
  have hback : Float.ofBits (UInt64.ofNat x.toBits.toNat) = x := by
    rw [UInt64.ofNat_toNat, Float.ofBits_toBits]
  rcases n with n | n
  · have hbits' : decimalBits n 0 = x.toBits.toNat % signBit := hbits
    show read (toString (n : Int)) = if (n : Int) = 0 then 0.0 else x
    rw [read_natCast (n := n) hlength]
    by_cases hzero : n = 0
    · subst hzero
      rfl
    · have hne : ¬ (n : Int) = 0 := by omega
      have hpos : ¬ signBit ≤ x.toBits.toNat := hpositive (Int.natCast_pos.mpr (Nat.pos_of_ne_zero hzero))
      rw [if_neg hpos, Nat.add_zero] at hsplit
      rw [hbits', ← hsplit, hback, if_neg hne]
  · have hneg : signBit ≤ x.toBits.toNat := hnegative (Int.negSucc_lt_zero n)
    rw [if_pos hneg] at hsplit
    have hbits' : decimalBits (n + 1) 0 = x.toBits.toNat % signBit := hbits
    rw [read_negSucc hlength, hbits', ← hsplit, hback, if_neg (Int.negSucc_ne_zero n)]

theorem isInteger_read (h : IsInteger x n) : IsInteger (read (toString n)) n := by
  rw [read_toString h]
  split
  · next hzero =>
    subst hzero
    decide +kernel
  · exact h

/-! ## Writing integers -/

/-- The range of the 64-bit integers. -/
def FitsInt64 (n : Int) : Prop := Int64.minValue.toInt ≤ n ∧ n ≤ Int64.maxValue.toInt

instance : Decidable (FitsInt64 n) := inferInstanceAs (Decidable (_ ∧ _))

theorem clampInt64_eq_self_iff : clampInt64 n = n ↔ FitsInt64 n := by
  have hmin : Int64.minValue.toInt = -9223372036854775808 := rfl
  have hmax : Int64.maxValue.toInt = 9223372036854775807 := rfl
  unfold clampInt64 FitsInt64
  rw [hmin, hmax]
  omega

theorem render_of_isInteger (h : IsInteger x n) (hn : n.natAbs < 10 ^ 21) :
    render x = toString (clampInt64 n) := by
  have hbound : n.natAbs < integerTextBound := hn
  unfold IsInteger at h
  unfold render
  revert h
  cases Binary.ofFloat x with
  | nan => exact fun h => by cases h
  | infinite negative => exact fun h => by cases h
  | finite negative mantissa exponent =>
    intro h
    simp only [Binary.render, h, if_pos hbound]

end Number

/-! ## Texts of values -/

namespace Value

open Number

variable {x : Float} {n : Int}

/-- The text of an integral number is that of the nearest 64-bit integer. -/
theorem plainText_of_isInteger (hx : IsInteger x n) (hn : n.natAbs < 10 ^ 21) :
    (Value.number x).plainText = toString (clampInt64 n) := render_of_isInteger hx hn

/-- The text of an integral number below 10^21 is its decimal numeral exactly if the number fits
in 64 bits. Then that text is what concatenations contain; as a string it is read back as the
number, but minus zero as zero; and it equals the text of another such number only if the numbers
are equal. -/
theorem numeral_of_integral (hx : IsInteger x n) (hn : n.natAbs < 10 ^ 21) :
    ((Value.number x).plainText = toString n ↔ FitsInt64 n) ∧
      (FitsInt64 n → ∀ t : FlatTexts,
        ((Value.number x).display t).1 = toString n ∧
        ((Value.text (Value.number x).plainText).toNumber t).1 = (if n = 0 then 0.0 else x) ∧
        IsInteger ((Value.text (Value.number x).plainText).toNumber t).1 n ∧
        (∀ r : Rope, ((Value.number x).add (.string r) t).1.plainText = toString n ++ r.text ∧
          ((Value.string r).add (.number x) t).1.plainText = r.text ++ toString n) ∧
        ∀ y m, IsInteger y m → FitsInt64 m →
          ((Value.number x).plainText = (Value.number y).plainText ↔ n = m) ∧
          (((Value.string (Value.number x).toRope).strictEquals
            (.string (Value.number y).toRope)) t).1 = decide (n = m)) := by
  have htext := plainText_of_isInteger hx hn
  constructor
  · rw [htext, ← clampInt64_eq_self_iff]
    exact Int.repr_inj
  intro hfits t
  rw [clampInt64_eq_self_iff.mpr hfits] at htext
  have hnumber : ((Value.text (Value.number x).plainText).toNumber t).1 = read (toString n) := by
    rw [htext]
    rfl
  refine ⟨htext, ?_, ?_, fun r => ⟨?_, ?_⟩, fun y m hy hm => ?_⟩
  · rw [hnumber, read_toString hx]
  · rw [hnumber]
    exact isInteger_read hx
  · rw [← htext]
    rfl
  · rw [← htext]
    rfl
  · have hsmall : m.natAbs < 10 ^ 21 := by
      have hmin : Int64.minValue.toInt = -9223372036854775808 := rfl
      have hmax : Int64.maxValue.toInt = 9223372036854775807 := rfl
      unfold FitsInt64 at hm
      omega
    have htext' := plainText_of_isInteger hy hsmall
    rw [clampInt64_eq_self_iff.mpr hm] at htext'
    have hiff : (Value.number x).plainText = (Value.number y).plainText ↔ n = m := by
      rw [htext, htext']
      exact Int.repr_inj
    refine ⟨hiff, ?_⟩
    show ((Value.number x).plainText == (Value.number y).plainText) = _
    rw [Bool.eq_iff_iff, beq_iff_eq, decide_eq_true_eq]
    exact hiff

/-- The largest double below 2^63 and the smallest that fits. -/
theorem numeral_of_integral_ends :
    (Value.number (Float.ofBits 0x43dfffffffffffff)).plainText = "9223372036854774784" ∧
      (Value.number (Float.ofBits 0xc3e0000000000000)).plainText = "-9223372036854775808" ∧
      (((Value.string (Value.number (Float.ofBits 0x43dfffffffffffff)).toRope).strictEquals
        (.string (Value.number (Float.ofBits 0xc3e0000000000000)).toRope)) {}).1 = false := by
  have hlarge : IsInteger (Float.ofBits 0x43dfffffffffffff) 9223372036854774784 := by
    decide +kernel
  have hsmall : IsInteger (Float.ofBits 0xc3e0000000000000) (-9223372036854775808) := by
    decide +kernel
  obtain ⟨hiff, hfits⟩ := numeral_of_integral hlarge (by decide)
  obtain ⟨hiff', -⟩ := numeral_of_integral hsmall (by decide)
  obtain ⟨-, -, -, -, hother⟩ := hfits (by decide) {}
  exact ⟨hiff.mpr (by decide), hiff'.mpr (by decide), (hother _ _ hsmall (by decide)).2⟩

/-- Two integral numbers below 10^21 that are different and have the same text, which is the
numeral of neither. -/
theorem same_text_clamped :
    IsInteger (Float.ofBits 0x43e0000000000000) 9223372036854775808 ∧
      IsInteger (Float.ofBits 0x4415af1d78b58c40) 100000000000000000000 ∧
      (Value.number (Float.ofBits 0x43e0000000000000)).plainText = "9223372036854775807" ∧
      (Value.number (Float.ofBits 0x4415af1d78b58c40)).plainText = "9223372036854775807" := by
  decide +kernel

end Value

end ScriptMachine
