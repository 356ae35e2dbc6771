import LineTags.Json.Decimal
import Mathlib

/-!
# Numbers beyond the range

A decimal number becomes the floating-point number nearest to it. From the middle between the greatest finite number and the next power of two on, that is infinity. The argument follows the rounding: a fraction lies between two neighbouring powers of two, which give the unit of its mantissa; only a fraction right below `2 ^ 1024` needs a look at how the mantissa is rounded.
-/

namespace LineTags

open Float.Model (Format UnpackedFloat)
open Float.Model.UnpackedFloat

namespace Binary

/-! ## The fields of a number -/

theorem toNat_unpackExponent (b : BitVec Format.binary64.numBits) :
    (unpackExponent b).toNat = b.toNat / fractionSize % exponentSize := by
  rw [unpackExponent_def, BitVec.extractLsb'_toNat, Nat.shiftRight_eq_div_pow]
  rfl

theorem toNat_unpackMantissa (b : BitVec Format.binary64.numBits) :
    (unpackMantissa b).toNat = b.toNat % fractionSize := by
  rw [unpackMantissa_def, BitVec.extractLsb'_toNat, Nat.shiftRight_zero]
  rfl

theorem toNat_toBits_ofBits {b : Nat} (hb : b ≤ (exponentSize - 1) * fractionSize) :
    (Float.ofBits b.toUInt64).toBits.toNat = b := by
  have hsize : b < 2 ^ 64 := by
    unfold exponentSize fractionSize at hb
    omega
  have hnat : b.toUInt64.toBitVec.toNat = b := UInt64.toNat_ofNat_of_lt hsize
  have hnan : ¬@isNaNBits Format.binary64 b.toUInt64.toBitVec = true := by
    rw [isNaNBits, decide_eq_true_iff]
    rintro ⟨hexponent, hmantissa⟩
    apply hmantissa
    apply BitVec.eq_of_toNat_eq
    have hgreatest : b / fractionSize % exponentSize = 2047 := by
      rw [← hnat, ← toNat_unpackExponent, hexponent]
      rfl
    rw [toNat_unpackMantissa, hnat]
    change b % fractionSize = 0
    unfold fractionSize exponentSize at *
    omega
  have hbits : (Float.ofBits b.toUInt64).toBits.toBitVec = b.toUInt64.toBitVec := (pack_unpack _).trans (if_neg hnan)
  rw [← UInt64.toNat_toBitVec, hbits, hnat]

theorem biasedOf_eq (x : Float) : biasedOf x = (@unpackExponent Format.binary64 x.toBits.toBitVec).toNat :=
  (toNat_unpackExponent _).symm

theorem fractionOf_eq (x : Float) : fractionOf x = (@unpackMantissa Format.binary64 x.toBits.toBitVec).toNat :=
  (toNat_unpackMantissa _).symm

/-- Infinite numbers have the greatest exponent and no fraction. -/
def IsInfinite (x : Float) : Prop := isFinite x = false ∧ fractionOf x = 0

instance : DecidablePred IsInfinite := fun x => inferInstanceAs (Decidable (isFinite x = false ∧ fractionOf x = 0))

theorem isFinite_eq_false_iff (x : Float) :
    isFinite x = false ↔ @unpackExponent Format.binary64 x.toBits.toBitVec = -1#11 := by
  rw [isFinite, bne_eq_false_iff_eq, biasedOf_eq]
  constructor
  · exact fun h => BitVec.eq_of_toNat_eq h
  · exact fun h => congrArg BitVec.toNat h

theorem fractionOf_eq_zero_iff (x : Float) :
    fractionOf x = 0 ↔ @unpackMantissa Format.binary64 x.toBits.toBitVec = 0#52 := by
  rw [fractionOf_eq]
  constructor
  · exact fun h => BitVec.eq_of_toNat_eq h
  · exact fun h => congrArg BitVec.toNat h

theorem isNaN_iff_fields (x : Float) : x.isNaN = true ↔ isFinite x = false ∧ fractionOf x ≠ 0 := by
  change (unpack Format.binary64 x.toBits.toBitVec).isNaN = true ↔ _
  rw [isFinite_eq_false_iff, ne_eq, fractionOf_eq_zero_iff, unpack]
  dsimp only
  split
  · next hexponent =>
    split
    · next hmantissa => simp [isNaN, hmantissa]
    · next hmantissa => exact iff_of_true rfl ⟨hexponent, hmantissa⟩
  · next hexponent =>
    apply iff_of_false
    · split
      · split <;> simp
      · simp
    · exact fun h => hexponent h.1

theorem pack_neg (f : UnpackedFloat) :
    unpackExponent (pack Format.binary64 f.neg) = unpackExponent (pack Format.binary64 f) ∧
      unpackMantissa (pack Format.binary64 f.neg) = unpackMantissa (pack Format.binary64 f) := by
  cases f with
  | notANumber => exact ⟨rfl, rfl⟩
  | infinity s => simp [UnpackedFloat.neg, pack, packedInfinity]
  | zero s => simp [UnpackedFloat.neg, pack, packedZero]
  | finite s m e hm =>
    simp only [UnpackedFloat.neg, pack]
    split
    · simp [packedInfinity]
    · split <;> simp

theorem isInfinite_neg (x : Float) : IsInfinite (-x) ↔ IsInfinite x := by
  have hx : x.toBits.toBitVec = pack Format.binary64 (unpack Format.binary64 x.toBits.toBitVec) :=
    (pack_unpack_of_valid x.toModel.valid).symm
  have hneg : (-x).toBits.toBitVec = pack Format.binary64 (unpack Format.binary64 x.toBits.toBitVec).neg := rfl
  obtain ⟨hexponent, hmantissa⟩ := pack_neg (unpack Format.binary64 x.toBits.toBitVec)
  rw [← hneg, ← hx] at hexponent hmantissa
  rw [IsInfinite, IsInfinite, isFinite_eq_false_iff, isFinite_eq_false_iff, fractionOf_eq_zero_iff, fractionOf_eq_zero_iff,
    hexponent, hmantissa]

theorem isInfinite_ofBits_iff {b : Nat} (hb : b ≤ (exponentSize - 1) * fractionSize) :
    IsInfinite (Float.ofBits b.toUInt64) ↔ b = (exponentSize - 1) * fractionSize := by
  rw [IsInfinite, isFinite, bne_eq_false_iff_eq, biasedOf, fractionOf, toNat_toBits_ofBits hb]
  unfold exponentSize fractionSize at *
  omega

/-! ## Rounding -/

variable {n d : Nat}

theorem le_roundedQuotient_iff (hd : 0 < d) {k : Nat} (heven : k % 2 = 0) :
    k ≤ roundedQuotient n d ↔ 2 * k * d ≤ 2 * n + d := by
  have hdiv := Nat.div_add_mod n d
  have hmod := Nat.mod_lt n hd
  unfold roundedQuotient
  dsimp only
  generalize n / d = q at *
  generalize n % d = r at *
  subst hdiv
  rw [Nat.mul_comm d q]
  rcases Nat.lt_trichotomy k (q + 1) with hk | rfl | hk
  · have hle : k * d ≤ q * d := Nat.mul_le_mul_right d (by omega)
    rw [Nat.mul_assoc]
    apply iff_of_true
    · split <;> omega
    · omega
  · rw [Nat.mul_assoc, Nat.add_mul]
    split <;> omega
  · have hle : (q + 2) * d ≤ k * d := Nat.mul_le_mul_right d (by omega)
    rw [Nat.add_mul] at hle
    rw [Nat.mul_assoc]
    apply iff_of_false
    · split <;> omega
    · omega

theorem roundedQuotient_le (hd : 0 < d) {k : Nat} (h : n ≤ k * d) : roundedQuotient n d ≤ k := by
  obtain ⟨-, hnear⟩ := roundedQuotient_near (n := n) hd
  by_contra hk
  have hle : (k + 1) * d ≤ roundedQuotient n d * d := Nat.mul_le_mul_right d (by omega)
  rw [Nat.add_mul] at hle
  omega

/-- Shifting one side or the other of a fraction divides it by a power of two. -/
theorem exists_shiftLeft (n d : Nat) (k : Int) :
    ∃ s : ℚ, 0 < s ∧ ((n <<< (-k).toNat : Nat) : ℚ) = n * s ∧ ((d <<< k.toNat : Nat) : ℚ) = 2 ^ k * d * s := by
  refine ⟨2 ^ (-k).toNat, by positivity, by simp [Nat.shiftLeft_eq], ?_⟩
  have hk : (2 : ℚ) ^ k.toNat = 2 ^ k * 2 ^ (-k).toNat := by
    rw [← zpow_natCast, ← zpow_natCast, ← zpow_add₀ two_ne_zero]
    congr 1
    omega
  rw [Nat.shiftLeft_eq, Nat.cast_mul, Nat.cast_pow, Nat.cast_ofNat, hk]
  ring

theorem shiftLeft_le_shiftLeft_iff (n d : Nat) (k : Int) : d <<< k.toNat ≤ n <<< (-k).toNat ↔ (2 : ℚ) ^ k * d ≤ n := by
  obtain ⟨s, hs, hn, hd⟩ := exists_shiftLeft n d k
  rw [← Nat.cast_le (α := ℚ), hn, hd, mul_le_mul_iff_left₀ hs]

/-- The magnitude of a fraction is the exponent of the power of two at or below it. -/
theorem magnitude_spec (hn : 0 < n) (hd : 0 < d) :
    (2 : ℚ) ^ magnitude n d * d ≤ n ∧ (n : ℚ) < 2 ^ (magnitude n d + 1) * d := by
  have hnlow : (2 : ℚ) ^ n.log2 ≤ n := by exact_mod_cast Nat.log2_self_le hn.ne'
  have hnhigh : (n : ℚ) < 2 ^ (n.log2 + 1) := by exact_mod_cast Nat.lt_log2_self
  have hdlow : (2 : ℚ) ^ d.log2 ≤ d := by exact_mod_cast Nat.log2_self_le hd.ne'
  have hdhigh : (d : ℚ) < 2 ^ (d.log2 + 1) := by exact_mod_cast Nat.lt_log2_self
  unfold magnitude
  dsimp only
  set guess : Int := (n.log2 : Int) - d.log2 with hguess
  have hbelow : (2 : ℚ) ^ (guess - 1) * d ≤ n := by
    calc (2 : ℚ) ^ (guess - 1) * d ≤ 2 ^ (guess - 1) * 2 ^ (d.log2 + 1) := by gcongr
      _ = 2 ^ n.log2 := by
        rw [← zpow_natCast, ← zpow_natCast, ← zpow_add₀ two_ne_zero]
        congr 1
        push_cast
        omega
      _ ≤ n := hnlow
  have habove : (n : ℚ) < 2 ^ (guess + 1) * d := by
    calc (n : ℚ) < 2 ^ (n.log2 + 1) := hnhigh
      _ = 2 ^ (guess + 1) * 2 ^ d.log2 := by
        rw [← zpow_natCast, ← zpow_natCast, ← zpow_add₀ two_ne_zero]
        congr 1
        push_cast
        omega
      _ ≤ 2 ^ (guess + 1) * d := by gcongr
  split
  · next h => exact ⟨(shiftLeft_le_shiftLeft_iff n d guess).1 h, habove⟩
  · next h =>
    rw [shiftLeft_le_shiftLeft_iff, not_le] at h
    exact ⟨hbelow, by rwa [sub_add_cancel]⟩

/-- The mantissa of a fraction in units of `2 ^ place`. -/
def mantissaAt (n d : Nat) (place : Int) : Nat := roundedQuotient (n <<< (-place).toNat) (d <<< place.toNat)

variable {place : Int}

theorem shiftLeft_pos (hd : 0 < d) (k : Nat) : 0 < d <<< k := by
  rw [Nat.shiftLeft_eq]
  positivity

theorem le_mantissaAt_iff (hd : 0 < d) {k : Nat} (heven : k % 2 = 0) :
    k ≤ mantissaAt n d place ↔ (k - 1 / 2) * 2 ^ place * d ≤ (n : ℚ) := by
  obtain ⟨s, hs, hns, hds⟩ := exists_shiftLeft n d place
  rw [mantissaAt, le_roundedQuotient_iff (shiftLeft_pos hd _) heven, ← Nat.cast_le (α := ℚ)]
  push_cast
  rw [hns, hds, ← mul_le_mul_iff_left₀ hs (b := ((k : ℚ) - 1 / 2) * 2 ^ place * d)]
  constructor
  · intro h
    linarith
  · intro h
    linarith

theorem mantissaAt_le (hd : 0 < d) {k : Nat} (h : (n : ℚ) ≤ k * 2 ^ place * d) : mantissaAt n d place ≤ k := by
  obtain ⟨s, hs, hns, hds⟩ := exists_shiftLeft n d place
  apply roundedQuotient_le (shiftLeft_pos hd _)
  rw [← Nat.cast_le (α := ℚ), Nat.cast_mul, hns, hds]
  calc (n : ℚ) * s ≤ k * 2 ^ place * d * s := by gcongr
    _ = k * (2 ^ place * d * s) := by ring

/-- Where the numbers start that are beyond the range: in the middle between the greatest finite number and `2 ^ 1024`. -/
def overflow : ℚ := 2 ^ 1024 - 2 ^ 970

theorem overflow_eq : overflow = (2 ^ 53 - 1 / 2) * 2 ^ (971 : Int) := by
  have hhalf : (1 / 2 : ℚ) * 2 ^ 971 = 2 ^ 970 := by
    rw [pow_succ', one_div, inv_mul_cancel_left₀ two_ne_zero]
  rw [overflow, zpow_ofNat, sub_mul, ← pow_add, hhalf]

theorem overflow_le : overflow ≤ 2 ^ (1024 : Int) := by
  rw [overflow, zpow_ofNat]
  exact sub_le_self _ (by positivity)

theorem le_overflow : 2 ^ (1023 : Int) ≤ overflow := by
  rw [overflow_eq, zpow_ofNat, zpow_ofNat, pow_add 2 52 971]
  gcongr
  norm_num

theorem isInfinite_ofFraction_iff (hn : 0 < n) (hd : 0 < d) : IsInfinite (ofFraction n d) ↔ overflow * d ≤ n := by
  obtain ⟨hlow, hhigh⟩ := magnitude_spec hn hd
  have hdq : (0 : ℚ) < d := by exact_mod_cast hd
  have hbits : IsInfinite (ofFraction n d) ↔
      2047 * fractionSize ≤ (max (-1074) (magnitude n d - 52) + 1074).toNat * fractionSize +
        mantissaAt n d (max (-1074) (magnitude n d - 52)) := by
    rw [ofFraction, isInfinite_ofBits_iff (Nat.min_le_right _ _), min_eq_right_iff]
    rfl
  rw [hbits]
  generalize hplace : max (-1074) (magnitude n d - 52) = place
  generalize magnitude n d = m at *
  unfold fractionSize
  rcases Int.lt_trichotomy m 1023 with hm | rfl | hm
  · have hmantissa : mantissaAt n d place ≤ 2 ^ 53 := by
      apply mantissaAt_le hd
      have hpow : (2 : ℚ) ^ (m + 1) ≤ 2 ^ 53 * 2 ^ place := by
        rw [← zpow_natCast, ← zpow_add₀ two_ne_zero]
        exact zpow_le_zpow_right₀ one_le_two (by omega)
      rw [Nat.cast_pow, Nat.cast_ofNat]
      exact hhigh.le.trans (mul_le_mul_of_nonneg_right hpow hdq.le)
    apply iff_of_false
    · omega
    · rw [not_le]
      apply hhigh.trans_le
      apply mul_le_mul_of_nonneg_right _ hdq.le
      exact (zpow_le_zpow_right₀ one_le_two (by omega)).trans le_overflow
  · -- whether the number is infinite turns on how its mantissa is rounded
    obtain rfl : place = 971 := by omega
    have hmantissa : 2 ^ 53 ≤ mantissaAt n d 971 ↔ _ := le_mantissaAt_iff hd (by decide)
    rw [Nat.cast_pow, Nat.cast_ofNat, ← overflow_eq] at hmantissa
    rw [← hmantissa]
    omega
  · obtain rfl : place = m - 52 := by omega
    have hmantissa : 2 ^ 52 ≤ mantissaAt n d (m - 52) := by
      have hpow : (2 : ℚ) ^ m = 2 ^ 52 * 2 ^ (m - 52) := by
        rw [← zpow_natCast, ← zpow_add₀ two_ne_zero]
        congr 1
        omega
      rw [le_mantissaAt_iff hd (by decide)]
      refine le_trans (mul_le_mul_of_nonneg_right ?_ hdq.le) hlow
      rw [hpow]
      gcongr
      norm_num
    apply iff_of_true
    · omega
    · refine le_trans (mul_le_mul_of_nonneg_right ?_ hdq.le) hlow
      exact overflow_le.trans (zpow_le_zpow_right₀ one_le_two (by omega))

end Binary

namespace Decimal

open Binary (IsInfinite isInfinite_neg isInfinite_ofFraction_iff overflow overflow_le le_overflow)

variable {digits : Nat} {exponent : Int}

theorem not_isInfinite_zero : ¬IsInfinite 0.0 := by
  decide +kernel

theorem isInfinite_infinity : IsInfinite (1.0 / 0.0) := by
  decide +kernel

/-- The length of a whole number tells between which powers of ten it lies. -/
theorem length_ofInt_spec (h : digits ≠ 0) :
    10 ^ ((Text.ofInt digits).length - 1) ≤ digits ∧ digits < 10 ^ (Text.ofInt digits).length ∧
      0 < (Text.ofInt digits).length := by
  have htext : Text.ofInt digits = Nat.toDigits 10 digits := Nat.toList_repr
  have hpositive := Nat.length_toDigits_pos (b := 10) (n := digits)
  have hlength (k : Nat) (hk : 0 < k) := Nat.length_toDigits_le_iff (b := 10) (n := digits) (k := k) (by decide) hk
  rw [htext]
  refine ⟨?_, (hlength _ hpositive).1 le_rfl, hpositive⟩
  by_contra hlow
  rw [not_le] at hlow
  rcases Nat.eq_zero_or_pos ((Nat.toDigits 10 digits).length - 1) with hone | hmore
  · rw [hone] at hlow
    omega
  · have hshorter := (hlength _ hmore).2 hlow
    omega

theorem scaled_spec (h : digits ≠ 0) (exponent : Int) :
    (10 : ℚ) ^ ((Text.ofInt digits).length + exponent - 1) ≤ digits * 10 ^ exponent ∧
      digits * 10 ^ exponent < (10 : ℚ) ^ ((Text.ofInt digits).length + exponent) := by
  obtain ⟨hlow, hhigh, hpositive⟩ := length_ofInt_spec h
  generalize (Text.ofInt digits).length = length at *
  have hlow' : (10 : ℚ) ^ ((length : Int) - 1) ≤ digits := by
    rw [← Nat.cast_one, ← Nat.cast_sub hpositive, zpow_natCast]
    exact_mod_cast hlow
  have hhigh' : (digits : ℚ) < 10 ^ (length : Int) := by
    rw [zpow_natCast]
    exact_mod_cast hhigh
  have hsum : (length : Int) + exponent - 1 = length - 1 + exponent := by ring
  rw [hsum, zpow_add₀ (by norm_num), zpow_add₀ (by norm_num)]
  constructor
  · gcongr
  · gcongr

theorem lt_overflow_of_small (h : digits = 0 ∨ (Text.ofInt digits).length + exponent ≤ 0) :
    (digits : ℚ) * 10 ^ exponent < overflow := by
  refine lt_of_lt_of_le ?_ (le_trans (one_le_zpow₀ one_le_two (by decide)) le_overflow)
  rcases eq_or_ne digits 0 with rfl | hdigits
  · rw [Nat.cast_zero, zero_mul]
    exact one_pos
  · have hsize := h.resolve_left hdigits
    calc digits * (10 : ℚ) ^ exponent < 10 ^ (((Text.ofInt digits).length : Int) + exponent) := (scaled_spec hdigits exponent).2
      _ ≤ 1 := zpow_le_one_of_nonpos₀ (by norm_num) (by omega)

theorem overflow_le_of_large (hdigits : digits ≠ 0) (h : 400 < (Text.ofInt digits).length + exponent) :
    overflow ≤ (digits : ℚ) * 10 ^ exponent := by
  have hpow : (2 : ℚ) ^ (3 * 400) ≤ 10 ^ 400 := by
    rw [pow_mul]
    exact pow_le_pow_left₀ (by norm_num) (by norm_num) 400
  calc overflow ≤ 2 ^ (1024 : Int) := overflow_le
    _ ≤ 2 ^ ((3 * 400 : Nat) : Int) := zpow_le_zpow_right₀ one_le_two (by decide)
    _ ≤ 10 ^ ((400 : Nat) : Int) := by rwa [zpow_natCast, zpow_natCast]
    _ ≤ 10 ^ (((Text.ofInt digits).length : Int) + exponent - 1) := zpow_le_zpow_right₀ (by norm_num) (by omega)
    _ ≤ digits * 10 ^ exponent := (scaled_spec hdigits exponent).1

/-- A decimal number as a fraction of whole numbers. -/
theorem isInfinite_ofFraction_decimal_iff (hdigits : digits ≠ 0) :
    IsInfinite (Binary.ofFraction (digits * Nat.pow 10 exponent.toNat) (Nat.pow 10 (-exponent).toNat)) ↔
      overflow ≤ digits * 10 ^ exponent := by
  have hdenominator : 0 < Nat.pow 10 (-exponent).toNat := Nat.pow_pos (by decide)
  have hnumerator : 0 < digits * Nat.pow 10 exponent.toNat :=
    Nat.mul_pos (Nat.pos_of_ne_zero hdigits) (Nat.pow_pos (by decide))
  have hscale : (10 : ℚ) ^ exponent.toNat = 10 ^ exponent * 10 ^ (-exponent).toNat := by
    rw [← zpow_natCast, ← zpow_natCast, ← zpow_add₀ (by norm_num)]
    congr 1
    omega
  rw [isInfinite_ofFraction_iff hnumerator hdenominator, Nat.pow_eq, Nat.pow_eq]
  push_cast
  rw [hscale, ← mul_assoc, mul_le_mul_iff_left₀ (by positivity)]

/-- A decimal number is infinite exactly if it is beyond the range. -/
theorem isInfinite_toFloat_iff (negative : Bool) (digits : Nat) (exponent : Int) :
    IsInfinite (toFloat negative digits exponent) ↔ overflow ≤ digits * 10 ^ exponent := by
  have hsign (x : Float) : IsInfinite (if negative then -x else x) ↔ IsInfinite x := by
    cases negative
    · exact Iff.rfl
    · exact isInfinite_neg x
  rw [toFloat, hsign]
  split
  · next hsmall =>
    apply iff_of_false not_isInfinite_zero
    rw [not_le]
    apply lt_overflow_of_small
    omega
  · next hsmall =>
    rw [not_or] at hsmall
    split
    · next hlarge =>
      apply iff_of_true isInfinite_infinity
      apply overflow_le_of_large hsmall.1
      omega
    · exact isInfinite_ofFraction_decimal_iff hsmall.1

end Decimal

end LineTags
