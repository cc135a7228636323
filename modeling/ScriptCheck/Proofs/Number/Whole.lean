import Mathlib.Algebra.Order.Ring.Nat
import ScriptCheck.Number.Binary

/-!
# Natural numbers as doubles

Counts reach a script as doubles.  A natural number below `2 ^ 53` becomes the double that is
exactly this number; from there on it is rounded, to a double that is not below `2 ^ 53` either.
-/

namespace ScriptCheck.Number

open Float.Model
open Float.Model.UnpackedFloat

/-- The natural number that a double is, none for a double that is no natural number. -/
def natural? (x : Float) : Option Nat :=
  let s := magnitude x
  if x.isFinite ∧ (isNegative x = false ∨ s.mantissa = 0) ∧
      2 ^ (-s.exponent).toNat ∣ s.mantissa then some s.floor
  else none

/-! ## Packed doubles -/

/-- A mantissa with its leading bit in place and an exponent in the range of doubles. -/
structure Normal (m : Nat) (e : Int) : Prop where
  log2_eq : m.log2 = 52
  least_le : -1074 ≤ e
  le_greatest : e ≤ 971

namespace Normal

variable {m : Nat} {e : Int} (h : Normal m e)
include h

theorem pos : 0 < m := by
  have hlog := h.log2_eq
  rcases Nat.eq_zero_or_pos m with rfl | hpos
  · simp at hlog
  · exact hpos

theorem le_mantissa : 2 ^ 52 ≤ m :=
  (Nat.le_log2 h.pos.ne').mp (Nat.le_of_eq h.log2_eq.symm)

theorem mantissa_lt : m < 2 ^ 53 :=
  (Nat.log2_lt h.pos.ne').mp (by rw [h.log2_eq]; decide)

end Normal

/-- The positive double with this mantissa and exponent. -/
def ofNormal {m : Nat} {e : Int} (h : Normal m e) : Float :=
  .ofModel (pack (.finite .positive m e h.pos))

theorem toNat_packComponents (exponent : BitVec 11) (mantissa : BitVec 52) :
    (packComponents .binary64 .positive exponent mantissa).toNat =
      exponent.toNat * leadingBit + mantissa.toNat := by
  change (0#1 ++ exponent ++ mantissa).toNat = _
  rw [BitVec.toNat_append, ← Nat.shiftLeft_add_eq_or_of_lt mantissa.isLt, BitVec.toNat_append]
  simp [Nat.shiftLeft_eq, leadingBit]

section

variable {m : Nat} {e : Int} (h : Normal m e)

/-- The leading bit of the mantissa is not stored, the exponent is stored with a bias. -/
theorem pack_normal : UnpackedFloat.pack .binary64 (.finite .positive m e h.pos) =
    packComponents .binary64 .positive (BitVec.ofNat 11 (e + 1075).toNat) (BitVec.ofNat 52 m) := by
  have hlow := h.least_le
  have hhigh := h.le_greatest
  have hexponent : (e + (Format.binary64.exponentBias : Int) + 52).toNat = (e + 1075).toNat := by
    have : Format.binary64.exponentBias = 1023 := rfl
    omega
  have hroom : ¬ 2 ^ 11 ≤ (e + (Format.binary64.exponentBias : Int) + 52).toNat + 1 := by
    omega
  have hbits : m.log2 + 1 = Format.binary64.mantissaBits := by rw [h.log2_eq]; rfl
  refine (if_neg hroom).trans ((if_pos hbits).trans ?_)
  rw [← hexponent]
  rfl

include h in
theorem toNat_exponent : (BitVec.ofNat 11 (e + 1075).toNat).toNat = (e + 1075).toNat := by
  have hhigh := h.le_greatest
  rw [BitVec.toNat_ofNat]
  exact Nat.mod_eq_of_lt (by omega)

include h in
theorem toNat_mantissa : (BitVec.ofNat 52 m).toNat + leadingBit = m := by
  have hlow := h.le_mantissa
  have hhigh := h.mantissa_lt
  have hbit : leadingBit = 2 ^ 52 := rfl
  rw [BitVec.toNat_ofNat]
  omega

theorem unpackSign_positive (exponent : BitVec 11) (mantissa : BitVec 52) :
    unpackSign (packComponents .binary64 .positive exponent mantissa) = 0#1 := by
  have hmantissa : mantissa.toNat < leadingBit := mantissa.isLt
  have hexponent : exponent.toNat ≤ 2047 := Nat.le_of_lt_succ exponent.isLt
  have hbits : (packComponents .binary64 .positive exponent mantissa).toNat < 2 ^ 63 := by
    have hscaled := Nat.mul_le_mul_right leadingBit hexponent
    have htop : (2 : Nat) ^ 63 = 2047 * leadingBit + leadingBit := rfl
    rw [toNat_packComponents, htop]
    omega
  apply BitVec.eq_of_toNat_eq
  change (packComponents .binary64 .positive exponent mantissa).toNat >>> 63 % 2 = 0
  rw [Nat.shiftRight_eq_div_pow, Nat.div_eq_of_lt hbits]

theorem unpack_ofNormal : (ofNormal h).toModel.unpack = .finite .positive m e h.pos := by
  have hlow := h.least_le
  have hexponent := toNat_exponent h
  have hmantissa := toNat_mantissa h
  have hnotAll : BitVec.ofNat 11 (e + 1075).toNat ≠ -1#11 := by
    intro heq
    have hmax : (e + 1075).toNat = 2047 := hexponent.symm.trans (congrArg BitVec.toNat heq)
    have hhigh := h.le_greatest
    omega
  have hnotZero : BitVec.ofNat 11 (e + 1075).toNat ≠ 0#11 := by
    intro heq
    have hmin : (e + 1075).toNat = 0 := hexponent.symm.trans (congrArg BitVec.toNat heq)
    omega
  change UnpackedFloat.unpack .binary64 (UnpackedFloat.pack .binary64 _) = _
  rw [pack_normal h]
  have hfield : unpackExponent (packComponents .binary64 .positive
    (BitVec.ofNat 11 (e + 1075).toNat)
      (BitVec.ofNat 52 m)) = BitVec.ofNat 11 (e + 1075).toNat := unpackExponent_packComponents
  rw [← hfield] at hnotAll hnotZero hexponent
  refine (if_neg hnotAll).trans ((if_neg hnotZero).trans ?_)
  rw [UnpackedFloat.finite.injEq]
  refine ⟨?_, ?_, ?_⟩
  · rw [unpackSign_positive]
    rfl
  · rw [unpackMantissa_packComponents]
    change (1#1 ++ BitVec.ofNat 52 m).toNat = m
    rw [BitVec.toNat_append, ← Nat.shiftLeft_add_eq_or_of_lt (BitVec.isLt _), Nat.add_comm]
    exact hmantissa
  · have hbias : Format.binary64.exponentBias = 1023 := rfl
    have hwidth : Format.binary64.mantissaBitsWithoutImplicit = 52 := rfl
    omega

theorem toNat_toBits_ofNormal :
    (ofNormal h).toBits.toNat = (e + 1075).toNat * leadingBit + (m - leadingBit) := by
  change (UnpackedFloat.pack .binary64 _).toNat = _
  rw [pack_normal h, toNat_packComponents, toNat_exponent h]
  have hmantissa := toNat_mantissa h
  omega

/-- The bits of a double give back what it was made of. -/
theorem magnitude_ofNormal : magnitude (ofNormal h) = ⟨m, e⟩ := by
  have hlow := h.least_le
  have hhigh := h.le_greatest
  have hfraction : m - leadingBit < leadingBit := by
    have hbelow : m < 2 * leadingBit := h.mantissa_lt
    omega
  have hquotient : ((e + 1075).toNat * leadingBit + (m - leadingBit)) / leadingBit =
      (e + 1075).toNat := by
    rw [Nat.mul_comm, Nat.mul_add_div (by decide), Nat.div_eq_of_lt hfraction, Nat.add_zero]
  have hrest : ((e + 1075).toNat * leadingBit + (m - leadingBit)) % leadingBit =
      m - leadingBit := by
    rw [Nat.mul_comm, Nat.mul_add_mod, Nat.mod_eq_of_lt hfraction]
  have hfield : (e + 1075).toNat % Nat.pow 2 11 = (e + 1075).toNat :=
    Nat.mod_eq_of_lt (show (e + 1075).toNat < 2048 by omega)
  rw [magnitude, toNat_toBits_ofNormal h, hquotient, hrest, hfield]
  refine (if_neg (by omega)).trans ?_
  have hexponent : ((e + 1075).toNat : Int) - 1 + leastExponent = e := by
    rw [leastExponent]
    omega
  have hmantissa : leadingBit + (m - leadingBit) = m := Nat.add_sub_cancel' h.le_mantissa
  rw [hexponent, hmantissa]

theorem isNegative_ofNormal : isNegative (ofNormal h) = false := by
  have hbits : (ofNormal h).toBits.toNat < 2047 * leadingBit + leadingBit := by
    have hbelow : m < 2 * leadingBit := h.mantissa_lt
    have hexponent : (e + 1075).toNat * leadingBit ≤ 2047 * leadingBit :=
      Nat.mul_le_mul_right _ (by have := h.le_greatest; omega)
    rw [toNat_toBits_ofNormal h]
    omega
  exact decide_eq_false (Nat.not_le.mpr hbits)

theorem floor_of_nonneg (he : 0 ≤ e) : Scaled.floor ⟨m, e⟩ = m * 2 ^ e.toNat :=
  if_pos he

theorem floor_of_nonpos (he : e ≤ 0) : Scaled.floor ⟨m, e⟩ = m / 2 ^ (-e).toNat := by
  rcases Int.lt_or_eq_of_le he with hneg | rfl
  · exact if_neg (Int.not_le.mpr hneg)
  · rw [floor_of_nonneg (Int.le_refl 0)]
    simp

theorem natural?_ofNormal : natural? (ofNormal h) =
    if 2 ^ (-e).toNat ∣ m then some (Scaled.floor ⟨m, e⟩) else none := by
  have hfinite : (ofNormal h).isFinite = true := by
    change (ofNormal h).toModel.unpack.isFinite = true
    rw [unpack_ofNormal h]
    rfl
  rw [natural?, magnitude_ofNormal h, isNegative_ofNormal h, hfinite]
  simp

end

/-! ## Rounding -/

theorem mantissa_shiftRight (mantissa : ExtendedMantissa) (k : Nat) :
    (mantissa >>> k).mantissa = mantissa.mantissa / 2 ^ k := by
  change (k.repeat ExtendedMantissa.shiftRightOne mantissa).mantissa = _
  induction k with
  | zero => simp [Nat.repeat]
  | succ k ih =>
      rw [Nat.repeat, ExtendedMantissa.shiftRightOne, ih, Nat.div_div_eq_div_mul, Nat.pow_succ]

/-- Nothing is lost where only zeros are shifted out. -/
theorem exact_shiftRight (m k : Nat) :
    (⟨m * 2 ^ k, false, false⟩ : ExtendedMantissa) >>> k = ⟨m, false, false⟩ := by
  change k.repeat ExtendedMantissa.shiftRightOne _ = _
  induction k generalizing m with
  | zero => simp [Nat.repeat]
  | succ k ih =>
      have hsplit : m * 2 ^ (k + 1) = 2 * m * 2 ^ k := by
        rw [Nat.pow_succ, Nat.mul_comm _ 2, ← Nat.mul_assoc, Nat.mul_comm m 2]
      rw [Nat.repeat, hsplit, ih, ExtendedMantissa.shiftRightOne]
      simp

theorem roundedMantissa_bounds (mantissa : ExtendedMantissa) :
    mantissa.mantissa ≤ mantissa.roundedMantissa ∧
      mantissa.roundedMantissa ≤ mantissa.mantissa + 1 := by
  obtain ⟨m, round, sticky⟩ := mantissa
  cases round <;> cases sticky <;>
    simp only [ExtendedMantissa.roundedMantissa, ExtendedMantissa.accuracy,
      Accuracy.roundToNearestEven] <;> omega

/-- The exponent that leaves 53 bits of a mantissa, where it is not below the least one. -/
theorem targetExponent_eq {m : Nat} {e : Int} (h : -1074 ≤ m.log2 + e - 52) :
    Format.binary64.targetExponent (totalExponent m e) = m.log2 + e - 52 := by
  have hbits : Format.binary64.mantissaBits = 53 := rfl
  have hleast : Format.binary64.minExponent = -1074 := rfl
  rw [Format.targetExponent, totalExponent, hbits, hleast]
  omega

/-- Of a mantissa that is too long 53 bits are kept. -/
theorem shiftToTargetExponent_exact {m k : Nat} {e : Int} (hm : m.log2 = 52 + k)
    (he : -1074 ≤ e + k) :
    shiftToTargetExponent .binary64 m e .exact =
      ((⟨m, false, false⟩ : ExtendedMantissa) >>> k, e + k) := by
  have hshift : Format.binary64.targetExponent (totalExponent m e) - e = k := by
    rw [targetExponent_eq (by omega)]
    omega
  rw [shiftToTargetExponent, shiftToExponent, hshift, Int.toNat_natCast]
  rfl

theorem log2_mul_two_pow {m : Nat} (hm : 0 < m) (k : Nat) : (m * 2 ^ k).log2 = m.log2 + k := by
  obtain ⟨hle, hlt⟩ := (Nat.log2_eq_iff hm.ne').mp rfl
  have hpos : 0 < 2 ^ k := Nat.two_pow_pos k
  refine (Nat.log2_eq_iff (Nat.mul_pos hm hpos).ne').mpr ⟨?_, ?_⟩
  · rw [Nat.pow_add]
    exact Nat.mul_le_mul_right _ hle
  · rw [Nat.add_right_comm, Nat.pow_add]
    exact Nat.mul_lt_mul_of_pos_right hlt hpos

theorem bounds_div_two_pow {m b k : Nat} (hm : m ≠ 0) (hlog : m.log2 = b + k) :
    2 ^ b ≤ m / 2 ^ k ∧ m / 2 ^ k < 2 ^ (b + 1) := by
  obtain ⟨hle, hlt⟩ := (Nat.log2_eq_iff hm).mp hlog
  rw [Nat.le_div_iff_mul_le (Nat.two_pow_pos k), Nat.div_lt_iff_lt_mul (Nat.two_pow_pos k),
    ← Nat.pow_add, ← Nat.pow_add, Nat.add_right_comm]
  exact ⟨hle, hlt⟩

/-- Rounding keeps 53 bits, rounds, and shifts out a carry. -/
theorem roundWithAccuracy_eq {m k carry : Nat} {e : Int} {rounded : Nat}
    (hm : m.log2 = 52 + k) (he : -1074 ≤ e + k)
    (hrounded : ((⟨m, false, false⟩ : ExtendedMantissa) >>> k).roundedMantissa = rounded)
    (hcarry : rounded.log2 = 52 + carry) (hpos : 0 < rounded / 2 ^ carry) :
    roundWithAccuracy .binary64 .positive m e .exact =
      .finite .positive (rounded / 2 ^ carry) (e + k + carry) hpos := by
  have hleast : -1074 ≤ e + k + (carry : Int) := by omega
  have hkept : ((⟨rounded, false, false⟩ : ExtendedMantissa) >>> carry).mantissa =
      rounded / 2 ^ carry := mantissa_shiftRight _ _
  rw [roundWithAccuracy, shiftToTargetExponent_exact hm he]
  dsimp only
  rw [hrounded, shiftToTargetExponent_exact hcarry hleast]
  have hne : ((⟨rounded, false, false⟩ : ExtendedMantissa) >>> carry).mantissa ≠ 0 := by
    rw [hkept]
    exact hpos.ne'
  refine (dif_neg hne).trans ?_
  rw [UnpackedFloat.finite.injEq]
  exact ⟨rfl, hkept, rfl⟩

/-- What fits into 53 bits is not changed by rounding. -/
theorem roundWithAccuracy_exact {m k : Nat} {e e' : Int} (h : Normal m e') (he : e + k = e') :
    roundWithAccuracy .binary64 .positive (m * 2 ^ k) e .exact =
      .finite .positive m e' h.pos := by
  have hlog : (m * 2 ^ k).log2 = 52 + k := by rw [log2_mul_two_pow h.pos, h.log2_eq]
  have hrounded : ((⟨m * 2 ^ k, false, false⟩ : ExtendedMantissa) >>> k).roundedMantissa = m := by
    rw [exact_shiftRight]
    rfl
  have hcarry : m.log2 = 52 + 0 := h.log2_eq
  have hwhole : m / 2 ^ 0 = m := by rw [Nat.pow_zero, Nat.div_one]
  rw [roundWithAccuracy_eq hlog (he ▸ h.least_le) hrounded hcarry (hwhole.symm ▸ h.pos),
    UnpackedFloat.finite.injEq]
  exact ⟨rfl, hwhole, by omega⟩

/-- What is rounded has 53 bits; a carry out of them makes the exponent one larger. -/
theorem roundWithAccuracy_normal {m k : Nat} {e : Int} (hm : m.log2 = 52 + k)
    (he : -1074 ≤ e + k) :
    ∃ (m' : Nat) (e' : Int) (hpos : 0 < m'), m'.log2 = 52 ∧ e + k ≤ e' ∧ e' ≤ e + k + 1 ∧
      roundWithAccuracy .binary64 .positive m e .exact = .finite .positive m' e' hpos := by
  have hne : m ≠ 0 := by
    rintro rfl
    rw [Nat.log2_zero] at hm
    omega
  obtain ⟨rounded, hrounded⟩ :
    ∃ r, ((⟨m, false, false⟩ : ExtendedMantissa) >>> k).roundedMantissa = r := ⟨_, rfl⟩
  have hkept : ((⟨m, false, false⟩ : ExtendedMantissa) >>> k).mantissa = m / 2 ^ k :=
    mantissa_shiftRight _ _
  obtain ⟨hlow, hhigh⟩ := bounds_div_two_pow hne hm
  obtain ⟨hdown, hup⟩ := roundedMantissa_bounds ((⟨m, false, false⟩ : ExtendedMantissa) >>> k)
  rw [hkept, hrounded] at hdown hup
  -- rounding up may carry into a 54th bit
  obtain ⟨carry, hcarry, hlog⟩ : ∃ carry, carry ≤ 1 ∧ rounded.log2 = 52 + carry := by
    rcases Nat.lt_or_ge rounded (2 ^ 53) with hfits | hcarries
    · exact ⟨0, by omega, (Nat.log2_eq_iff (by omega)).mpr ⟨by omega, hfits⟩⟩
    · exact ⟨1, by omega, (Nat.log2_eq_iff (by omega)).mpr ⟨hcarries, by omega⟩⟩
  obtain ⟨hkeptLow, hkeptHigh⟩ := bounds_div_two_pow (b := 52) (by omega) hlog
  have hpos : 0 < rounded / 2 ^ carry := by omega
  exact ⟨_, e + k + carry, hpos, (Nat.log2_eq_iff hpos.ne').mpr ⟨hkeptLow, hkeptHigh⟩, by omega,
    by omega, roundWithAccuracy_eq hm he hrounded hlog hpos⟩

/-! ## Doubles of natural numbers -/

/-- A natural number of at most 53 bits is a mantissa shifted left. -/
theorem normal_of_log2 {n k : Nat} (hpos : 0 < n) (hk : n.log2 + k = 52) :
    Normal (n * 2 ^ k) (-k) where
  log2_eq := by rw [log2_mul_two_pow hpos, hk]
  least_le := by omega
  le_greatest := by omega

section

variable {n k : Nat} (hpos : 0 < n) (hk : n.log2 + k = 52)

theorem toFloat_of_log2 : n.toUInt64.toFloat = ofNormal (normal_of_log2 hpos hk) := by
  have hn : n < 2 ^ 53 := (Nat.log2_lt hpos.ne').mp (by omega)
  have hword : n.toUInt64.toNat = n :=
    UInt64.toNat_ofNat_of_lt (Nat.lt_trans hn (by decide))
  have hsign : compare (n : Int) 0 = .gt := Int.compare_eq_gt.mpr (by omega)
  have hplace : (0 - Format.binary64.targetExponent (totalExponent n 0)).toNat = k := by
    rw [targetExponent_eq (by omega)]
    omega
  change Float.ofModel (pack (UnpackedFloat.normalize .binary64 (n.toUInt64.toNat : Int) 0 _)) = _
  rw [hword, UnpackedFloat.normalize, hsign]
  simp only [UnpackedFloat.round, decreaseExponent, hplace, Int.toNat_natCast]
  have hexact := roundWithAccuracy_exact (k := 0) (e := 0 - (k : Int)) (normal_of_log2 hpos hk)
    (by omega)
  rw [Nat.pow_zero, Nat.mul_one] at hexact
  rw [Nat.shiftLeft_eq]
  exact congrArg (Float.ofModel <| pack ·) hexact

theorem ofNat_of_log2 : Float.ofNat n = ofNormal (normal_of_log2 hpos hk) := by
  have hn : n < 2 ^ 53 := (Nat.log2_lt hpos.ne').mp (by omega)
  have hone : (Float.ofBits 4607182418800017408).toModel.unpack =
      .finite .positive (2 ^ 52) (-52) (by decide) := rfl
  have hproduct : Float.ofNat n = n.toUInt64.toFloat * Float.ofBits 4607182418800017408 :=
    dif_pos ⟨hn, by decide⟩
  rw [hproduct, toFloat_of_log2 hpos hk]
  change Float.ofModel (pack (UnpackedFloat.mul .binary64 (ofNormal _).toModel.unpack _)) = _
  rw [unpack_ofNormal, hone]
  change Float.ofModel (pack (roundWithAccuracy .binary64 .positive _ _ .exact)) = _
  exact congrArg (Float.ofModel <| pack ·)
    (roundWithAccuracy_exact (k := 52) (normal_of_log2 hpos hk) (by omega))

end

/-- **The double of a natural number below `2 ^ 53` is that number.** -/
theorem natural?_ofNat_of_lt {n : Nat} (h : n < 2 ^ 53) : natural? (Float.ofNat n) = some n := by
  rcases Nat.eq_zero_or_pos n with rfl | hpos
  · decide +kernel
  · have hlog : n.log2 < 53 := (Nat.log2_lt hpos.ne').mpr h
    obtain ⟨k, hk⟩ : ∃ k, n.log2 + k = 52 := ⟨52 - n.log2, by omega⟩
    have hfraction : (- -(k : Int)).toNat = k := by omega
    rw [ofNat_of_log2 hpos hk, natural?_ofNormal, hfraction, if_pos (Nat.dvd_mul_left _ _),
      floor_of_nonpos (by omega), hfraction, Nat.mul_div_cancel _ (Nat.two_pow_pos k)]

/-- The double of a longer natural number has a mantissa of 53 bits too, unless it is out of
range. -/
theorem ofNat_of_le {n : Nat} (h : 2 ^ 53 ≤ n) :
    ∃ (m : Nat) (e : Int) (hpos : 0 < m), m.log2 = 52 ∧ 1 ≤ e ∧ e ≤ n.log2 - 51 ∧
      Float.ofNat n = .ofModel (pack (.finite .positive m e hpos)) := by
  have hne : n ≠ 0 := by omega
  have hlog : 53 ≤ n.log2 := (Nat.le_log2 hne).mpr h
  have hlong : (n <<< 53 * 1).log2 = 52 + (n.log2 + 1) := by
    rw [Nat.mul_one, Nat.shiftLeft_eq, log2_mul_two_pow (Nat.pos_of_ne_zero hne)]
    omega
  obtain ⟨m, e, hpos, hm, hlow, hhigh, hround⟩ :=
    roundWithAccuracy_normal (e := -53 + 0) hlong (by omega)
  refine ⟨m, e, hpos, hm, by omega, by omega, ?_⟩
  have hscientific : Float.ofNat n = .ofModel (Float.Model.ofScientific n 0) :=
    dif_neg (by omega)
  have hten : ¬ (0 : Int) > 2 ^ Format.binary64.exponentBits := by decide
  have hrange : ¬ (0 : Int) < -(2 ^ Format.binary64.exponentBits + (n.log2 : Int)) := by
    have hpower : (0 : Int) ≤ 2 ^ Format.binary64.exponentBits := by decide
    omega
  rw [hscientific, ← hround, Float.Model.ofScientific, UnpackedFloat.ofScientific, dif_neg hne,
    if_neg hten, if_neg hrange, if_pos (Int.le_refl 0)]
  rfl

/-- A double whose exponent is out of range is infinite. -/
theorem natural?_eq_none_of_infinite {m : Nat} {e : Int} (hpos : 0 < m) (he : 971 < e) :
    natural? (.ofModel (pack (.finite .positive m e hpos))) = none := by
  have hinfinite : UnpackedFloat.pack .binary64 (.finite .positive m e hpos) =
      packedInfinity .binary64 .positive := by
    refine if_pos ?_
    have hbias : Format.binary64.exponentBias = 1023 := rfl
    have hwidth : Format.binary64.mantissaBitsWithoutImplicit = 52 := rfl
    have hrange : 2 ^ Format.binary64.exponentBits = 2048 := rfl
    omega
  have hfinite : (Float.ofModel (pack (.finite .positive m e hpos))).isFinite = false := by
    change (UnpackedFloat.unpack .binary64 (UnpackedFloat.pack .binary64 _)).isFinite = false
    rw [hinfinite]
    rfl
  refine if_neg fun hnatural => ?_
  rw [hfinite] at hnatural
  exact Bool.false_ne_true hnatural.1

/-- **The double of a natural number from `2 ^ 53` on is not less than that**, up to the range of
doubles. -/
theorem natural?_ofNat_of_le {n : Nat} (h : 2 ^ 53 ≤ n) :
    (∃ v, natural? (Float.ofNat n) = some v ∧ 2 ^ 53 ≤ v) ∨
      (natural? (Float.ofNat n) = none ∧ 2 ^ 1023 ≤ n) := by
  have hne : n ≠ 0 := by omega
  obtain ⟨m, e, hpos, hm, hlow, hhigh, hdouble⟩ := ofNat_of_le h
  rw [hdouble]
  rcases Int.lt_or_le 971 e with hrange | hrange
  · have hlog : 1023 ≤ n.log2 := by omega
    refine .inr ⟨natural?_eq_none_of_infinite hpos hrange, ?_⟩
    rwa [Nat.le_log2 hne] at hlog
  · have hnormal : Normal m e := ⟨hm, by omega, hrange⟩
    refine .inl ⟨m * 2 ^ e.toNat, ?_, ?_⟩
    · have hwhole : (-e).toNat = 0 := by omega
      have hvalue := natural?_ofNormal hnormal
      rwa [hwhole, Nat.pow_zero, if_pos (Nat.one_dvd m), floor_of_nonneg (by omega)] at hvalue
    · calc 2 ^ 53 = 2 ^ 52 * 2 ^ 1 := rfl
        _ ≤ m * 2 ^ e.toNat :=
          Nat.mul_le_mul hnormal.le_mantissa (Nat.pow_le_pow_right (by decide) (by omega))

/-- Below `2 ^ 53` the double of a natural number has the same numbers under it. -/
theorem lt_iff_of_natural?_ofNat {n v i : Nat} (h : natural? (Float.ofNat n) = some v)
    (hi : i < 2 ^ 53) : i < v ↔ i < n := by
  rcases Nat.lt_or_ge n (2 ^ 53) with hn | hn
  · rw [natural?_ofNat_of_lt hn] at h
    cases h
    rfl
  · rcases natural?_ofNat_of_le hn with ⟨v', hv, hle⟩ | ⟨hnone, _⟩
    · rw [hv] at h
      cases h
      omega
    · rw [hnone] at h
      cases h

/-- Only a natural number out of the range of doubles has a double that is no natural number. -/
theorem le_of_natural?_ofNat_eq_none {n : Nat} (h : natural? (Float.ofNat n) = none) :
    2 ^ 1023 ≤ n := by
  rcases Nat.lt_or_ge n (2 ^ 53) with hn | hn
  · rw [natural?_ofNat_of_lt hn] at h
    cases h
  · rcases natural?_ofNat_of_le hn with ⟨v, hv, _⟩ | ⟨_, hrange⟩
    · rw [hv] at h
      cases h
    · exact hrange

end ScriptCheck.Number
