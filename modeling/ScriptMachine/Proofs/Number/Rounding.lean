import Mathlib.Algebra.Order.Group.Nat
import Mathlib.Tactic.Ring
import ScriptMachine.Number.Reading

/-!
# Integers that need no rounding

An integral double is zero or a mantissa of 53 bits times a power of two. Reading its numeral
rounds to the nearest double, which is that double itself: the exponent that the reader chooses is
the one the double has, and nothing is left over (`Number.decimalBits_of_toInt?`).
-/

namespace ScriptMachine.Number

theorem hiddenBit_eq : hiddenBit = 2 ^ 52 := rfl

theorem signBit_eq : signBit = 2 ^ 63 := by decide +kernel

/-! ## Exact quotients -/

theorem roundHalfEven_mul (m : Nat) {d : Nat} (hd : 0 < d) : roundHalfEven (m * d) d = m := by
  simp only [roundHalfEven, Nat.mul_mod_left, Nat.mul_div_cancel m hd, Nat.mul_zero, hd, if_true]

section Exact

variable {n m : Nat} {e : Int}

/-- The number of binary digits of an integer that is a mantissa of 53 bits times a power of
two. -/
theorem log2_of_exact (hm : 2 ^ 52 ≤ m ∧ m < 2 ^ 53) (h : n * 2 ^ (-e).toNat = m * 2 ^ e.toNat) :
    (n.log2 : Int) = 52 + e := by
  have hn : n ≠ 0 := by
    rintro rfl
    have := Nat.mul_pos (Nat.lt_of_lt_of_le (Nat.two_pow_pos 52) hm.1) (Nat.two_pow_pos e.toNat)
    omega
  obtain ⟨hlow, hhigh⟩ := (Nat.log2_eq_iff hn).mp rfl
  have hbelow : 2 ^ (n.log2 + (-e).toNat) < 2 ^ (53 + e.toNat) := by
    rw [Nat.pow_add, Nat.pow_add]
    calc 2 ^ n.log2 * 2 ^ (-e).toNat
        ≤ n * 2 ^ (-e).toNat := Nat.mul_le_mul_right _ hlow
      _ = m * 2 ^ e.toNat := h
      _ < 2 ^ 53 * 2 ^ e.toNat := Nat.mul_lt_mul_of_pos_right hm.2 (Nat.two_pow_pos _)
  have habove : 2 ^ (52 + e.toNat) < 2 ^ (n.log2 + 1 + (-e).toNat) := by
    rw [Nat.pow_add, Nat.pow_add]
    calc 2 ^ 52 * 2 ^ e.toNat
        ≤ m * 2 ^ e.toNat := Nat.mul_le_mul_right _ hm.1
      _ = n * 2 ^ (-e).toNat := h.symm
      _ < 2 ^ (n.log2 + 1) * 2 ^ (-e).toNat :=
        Nat.mul_lt_mul_of_pos_right hhigh (Nat.two_pow_pos _)
  have := (Nat.pow_lt_pow_iff_right (by decide : 1 < 2)).mp hbelow
  have := (Nat.pow_lt_pow_iff_right (by decide : 1 < 2)).mp habove
  omega

/-- With an exponent one lower the mantissa is twice as large. -/
theorem scaled_below (h : n * 2 ^ (-e).toNat = m * 2 ^ e.toNat) :
    n * 2 ^ (-(e - 1)).toNat = 2 * m * 2 ^ (e - 1).toNat := by
  rcases le_or_gt e 0 with he | he
  · have hneg : (-(e - 1)).toNat = (-e).toNat + 1 := by omega
    have hpos : (e - 1).toNat = e.toNat := by omega
    rw [hneg, hpos, pow_succ, ← mul_assoc, h]
    ring
  · have hneg : (-(e - 1)).toNat = (-e).toNat := by omega
    have hpos : e.toNat = (e - 1).toNat + 1 := by omega
    rw [hneg, h, hpos, pow_succ]
    ring

/-- An integer that is a mantissa of 53 bits times a power of two is rounded to the double with
that mantissa and exponent. -/
theorem nearestBits_of_exact (hm : 2 ^ 52 ≤ m ∧ m < 2 ^ 53) (he : leastExponent ≤ e)
    (he' : e ≤ leastExponent + 2045) (h : n * 2 ^ (-e).toNat = m * 2 ^ e.toNat) :
    nearestBits n 1 = (e - leastExponent + 1).toNat * hiddenBit + (m - hiddenBit) := by
  have hguess : (n.log2 : Int) - (Nat.log2 1 : Nat) - 53 = e - 1 := by
    rw [log2_of_exact hm h, show Nat.log2 1 = 0 by decide]
    omega
  have hfirst : ¬ n * 2 ^ (-(e - 1)).toNat / 2 ^ (e - 1).toNat < 2 * hiddenBit := by
    rw [scaled_below h, Nat.mul_div_cancel _ (Nat.two_pow_pos _), hiddenBit_eq]
    omega
  have hexponent : max leastExponent (e - 1 + 1) = e := by omega
  have hmantissa : ¬ m < hiddenBit := by
    rw [hiddenBit_eq]
    omega
  have hfinite : (e - leastExponent + 1).toNat * hiddenBit + (m - hiddenBit) ≤ infinityBits := by
    have hfield : (e - leastExponent + 1).toNat ≤ 2046 := by omega
    have hfraction : m - hiddenBit ≤ hiddenBit := by
      rw [hiddenBit_eq]
      omega
    calc (e - leastExponent + 1).toNat * hiddenBit + (m - hiddenBit)
        ≤ 2046 * hiddenBit + hiddenBit :=
          Nat.add_le_add (Nat.mul_le_mul_right _ hfield) hfraction
      _ = infinityBits := (Nat.succ_mul 2046 hiddenBit).symm
  simp only [nearestBits, Nat.pow_eq, one_mul, hguess, if_neg hfirst, hexponent, h,
    roundHalfEven_mul m (Nat.two_pow_pos _), if_neg hmantissa, Nat.min_eq_right hfinite]

end Exact

/-! ## Integral doubles -/

/-- The parts of a 64-bit pattern. -/
theorem bits_eq {bits : Nat} (h : bits < 2 ^ 64) :
    bits = bits % signBit + if signBit ≤ bits then signBit else 0 := by
  rw [signBit_eq]
  split <;> omega

theorem magnitude_eq (bits : Nat) :
    bits % signBit = bits % signBit / hiddenBit * hiddenBit + bits % hiddenBit := by
  rw [hiddenBit_eq, signBit_eq]
  omega

/-- The integer that a finite value stands for: its mantissa is divided without a remainder. -/
theorem Binary.toInt?_finite {negative : Bool} {m : Nat} {e : Int} {n : Int}
    (h : (Binary.finite negative m e).toInt? = some n) :
    n.natAbs * 2 ^ (-e).toNat = m * 2 ^ e.toNat ∧ (negative = false → 0 ≤ n) ∧
      (negative = true → n ≤ 0) := by
  change (if m * 2 ^ e.toNat % 2 ^ (-e).toNat = 0 then
    some (if negative then -((m * 2 ^ e.toNat / 2 ^ (-e).toNat : Nat) : Int)
      else (m * 2 ^ e.toNat / 2 ^ (-e).toNat : Nat)) else none) = some n at h
  by_cases hmod : m * 2 ^ e.toNat % 2 ^ (-e).toNat = 0
  · have hdiv := Nat.div_mul_cancel (Nat.dvd_of_mod_eq_zero hmod)
    rw [if_pos hmod, Option.some.injEq] at h
    subst h
    cases negative with
    | false =>
      refine ⟨?_, fun _ => Int.natCast_nonneg _, by simp⟩
      rw [if_neg Bool.false_ne_true, Int.natAbs_natCast]
      exact hdiv
    | true =>
      refine ⟨?_, by simp, fun _ => Int.neg_nonpos_of_nonneg (Int.natCast_nonneg _)⟩
      rw [if_pos rfl, Int.natAbs_neg]
      exact hdiv
  · rw [if_neg hmod] at h
    cases h

/-- A subnormal double is no integer but zero. -/
theorem eq_zero_of_subnormal {n fraction : Nat} (hfraction : fraction < hiddenBit)
    (h : n * 2 ^ (-leastExponent).toNat = fraction) : n = 0 := by
  have hlarge : hiddenBit < 2 ^ (-leastExponent).toNat := by
    rw [hiddenBit_eq]
    exact Nat.pow_lt_pow_right (by decide) (by decide)
  by_contra hn
  have hle := Nat.mul_le_mul_right (2 ^ (-leastExponent).toNat) (Nat.one_le_iff_ne_zero.mpr hn)
  omega

theorem two_pow_le_ten_pow {j k : Nat} (h : j ≤ 3 * k) : 2 ^ j ≤ 10 ^ k :=
  calc 2 ^ j ≤ 2 ^ (3 * k) := Nat.pow_le_pow_right (by decide) h
    _ = (2 ^ 3) ^ k := Nat.pow_mul ..
    _ ≤ 10 ^ k := Nat.pow_le_pow_left (by decide) k

/-- Integral doubles are within the range of decimals that is looked at. -/
theorem length_toDigits_of_exact {n m : Nat} {e : Int} (hm : m < 2 ^ 53)
    (he : e ≤ leastExponent + 2045) (h : n * 2 ^ (-e).toNat = m * 2 ^ e.toNat) :
    (Nat.toDigits 10 n).length ≤ 400 := by
  have hexponent : e.toNat ≤ 971 := by
    have : leastExponent = -1074 := rfl
    omega
  rw [Nat.length_toDigits_le_iff (by decide) (by decide)]
  calc n ≤ n * 2 ^ (-e).toNat := Nat.le_mul_of_pos_right n (Nat.two_pow_pos _)
    _ = m * 2 ^ e.toNat := h
    _ < 2 ^ 53 * 2 ^ e.toNat := Nat.mul_lt_mul_of_pos_right hm (Nat.two_pow_pos _)
    _ = 2 ^ (53 + e.toNat) := (Nat.pow_add ..).symm
    _ ≤ 10 ^ 400 := two_pow_le_ten_pow (by omega)

/-- The numeral of an integral double is rounded to the magnitude of that double. -/
theorem decimalBits_of_toInt? {bits : Nat} {n : Int} (h : (Binary.ofBits bits).toInt? = some n) :
    decimalBits n.natAbs 0 = bits % signBit ∧ (Nat.toDigits 10 n.natAbs).length ≤ 400 := by
  have hfraction : bits % hiddenBit < hiddenBit := Nat.mod_lt _ (by decide)
  rw [magnitude_eq]
  unfold Binary.ofBits at h
  dsimp only at h
  split at h
  · split at h <;> cases h
  next hspecial =>
  split at h
  · next hfield =>
    obtain ⟨hexact, -, -⟩ := Binary.toInt?_finite h
    have hexact' : n.natAbs * 2 ^ (-leastExponent).toNat = bits % hiddenBit :=
      hexact.trans (Nat.mul_one _)
    have hzero := eq_zero_of_subnormal hfraction hexact'
    rw [hzero, Nat.zero_mul] at hexact'
    rw [hfield, ← hexact', hzero]
    exact ⟨rfl, by decide⟩
  · next hfield =>
    obtain ⟨hexact, -, -⟩ := Binary.toInt?_finite h
    have hsize : bits % signBit / hiddenBit < 2048 := by
      rw [hiddenBit_eq, signBit_eq]
      omega
    generalize bits % signBit / hiddenBit = field at hfield hspecial hexact hsize ⊢
    generalize bits % hiddenBit = fraction at hfraction hexact ⊢
    have hm : 2 ^ 52 ≤ hiddenBit + fraction ∧ hiddenBit + fraction < 2 ^ 53 := by
      rw [hiddenBit_eq] at hfraction ⊢
      omega
    have hlength := length_toDigits_of_exact hm.2 (by omega) hexact
    have hne : n.natAbs ≠ 0 := by
      intro hzero
      rw [hzero, Nat.zero_mul] at hexact
      have := Nat.mul_pos (Nat.lt_of_lt_of_le (Nat.two_pow_pos 52) hm.1)
        (Nat.two_pow_pos (leastExponent + (field - 1 : Nat)).toNat)
      omega
    have hsmall : ¬ decimalRange < ((Nat.toDigits 10 n.natAbs).length : Int) + 0 := by
      have : decimalRange = 400 := rfl
      omega
    have hlarge : ¬ ((Nat.toDigits 10 n.natAbs).length : Int) + 0 < -decimalRange := by
      have : decimalRange = 400 := rfl
      omega
    have hnearest := nearestBits_of_exact hm (by omega) (by omega) hexact
    have hexponent : (leastExponent + (field - 1 : Nat) - leastExponent + 1).toNat = field := by
      omega
    rw [hexponent, Nat.add_sub_cancel_left] at hnearest
    refine ⟨?_, hlength⟩
    unfold decimalBits
    rw [if_neg hne, if_neg hsmall, if_neg hlarge]
    exact (congrArg (nearestBits · 1) (Nat.mul_one _)).trans hnearest

end ScriptMachine.Number
