/-
Rounding products of doubles.

A double of at least one is the number that it was rounded from, up to one unit of its last binary
place.  Each product rounds once, so a chain of products is bounded by the exact product and a
factor for each of them, and it is finite as long as that bound is below the range of doubles.
-/
import Mathlib

namespace Stencil.Decimal

open Float.Model (Format UnpackedFloat)
open Float.Model.UnpackedFloat

/-- How much one rounding can add. -/
def drift : ℚ := 1 + 1 / 2 ^ 52

theorem one_le_drift : 1 ≤ drift := by
  rw [drift]
  norm_num

theorem drift_nonneg : 0 ≤ drift := zero_le_one.trans one_le_drift

/-- The double is at least one and at most the given number and `n` roundings. -/
def Close (n : Nat) (f : UnpackedFloat) (q : ℚ) : Prop :=
  ∃ m e h, f = .finite .positive m e h ∧ 2 ^ 52 ≤ m ∧ m < 2 ^ 53 ∧ -52 ≤ e ∧
    (m : ℚ) * 2 ^ e ≤ q * drift ^ n

variable {m n i j : Nat} {e : Int} {f : UnpackedFloat} {x y : Float} {p q : ℚ}

/-! ## One rounding -/

theorem mantissa_shiftRight (em : ExtendedMantissa) (n : Nat) :
    (em >>> n).mantissa = em.mantissa / 2 ^ n := by
  show (n.repeat ExtendedMantissa.shiftRightOne em).mantissa = _
  induction n with
  | zero => simp [Nat.repeat]
  | succ n ih =>
      rw [Nat.repeat, ExtendedMantissa.shiftRightOne, ih, Nat.div_div_eq_div_mul, Nat.pow_succ]

theorem roundedMantissa_bounds (em : ExtendedMantissa) :
    em.mantissa ≤ em.roundedMantissa ∧ em.roundedMantissa ≤ em.mantissa + 1 := by
  obtain ⟨m, round, sticky⟩ := em
  have hmod : m % 2 < 2 := Nat.mod_lt _ (by decide)
  cases round <;> cases sticky <;>
    simp only [ExtendedMantissa.roundedMantissa, ExtendedMantissa.accuracy,
      Accuracy.roundToNearestEven] <;> omega

/-- Where a shift to the target exponent of a number of at least one ends. -/
theorem shiftToTargetExponent_eq (hlog : 52 ≤ m.log2) (he : 0 ≤ m.log2 + e) :
    (shiftToTargetExponent .binary64 m e .exact).1.mantissa = m / 2 ^ (m.log2 - 52) ∧
      (shiftToTargetExponent .binary64 m e .exact).2 = m.log2 - 52 + e := by
  have htarget : Format.binary64.targetExponent (Float.Model.totalExponent m e) =
      m.log2 - 52 + e := by
    have hbits : (Format.binary64.mantissaBits : Int) = 53 := rfl
    have hmin : Format.binary64.minExponent = -1074 := by decide
    rw [Format.targetExponent, Float.Model.totalExponent, hbits, hmin]
    omega
  have hshift : (↑m.log2 - 52 + e - e).toNat = m.log2 - 52 := by omega
  rw [shiftToTargetExponent, htarget, shiftToExponent, hshift]
  refine ⟨mantissa_shiftRight _ _, ?_⟩
  dsimp only
  omega

theorem le_log2 (h : 2 ^ 52 ≤ m) : 52 ≤ m.log2 := by
  have hm0 : m ≠ 0 := by
    have : 0 < 2 ^ 52 := by decide
    omega
  exact (Nat.le_log2 hm0).mpr h

/-- A mantissa cut off behind the binary places that a double has. -/
theorem div_log2_bounds (h : 2 ^ 52 ≤ m) :
    2 ^ 52 ≤ m / 2 ^ (m.log2 - 52) ∧ m / 2 ^ (m.log2 - 52) < 2 ^ 53 := by
  have hm0 : m ≠ 0 := by
    have : 0 < 2 ^ 52 := by decide
    omega
  have hlog := le_log2 h
  have hsplit : m.log2 - 52 + 52 = m.log2 := by omega
  have hsplit' : m.log2 - 52 + 53 = m.log2 + 1 := by omega
  constructor
  · rw [Nat.le_div_iff_mul_le (Nat.two_pow_pos _), mul_comm, ← pow_add, hsplit]
    exact Nat.log2_self_le hm0
  · rw [Nat.div_lt_iff_lt_mul (Nat.two_pow_pos _), mul_comm, ← pow_add, hsplit']
    exact Nat.lt_log2_self

theorem two_zpow_sub (h : 52 ≤ n) (z : Int) : (2 : ℚ) ^ (n - 52 + z) = 2 ^ (n - 52) * 2 ^ z := by
  have hsub : (n - 52 : Int) = (n - 52 : Nat) := by omega
  rw [hsub, zpow_add₀ (by norm_num), zpow_natCast]

/-- A number that is cut off, possibly raised by a unit of the last place and cut off again: that
unit is at most the number over two to the power of 52. -/
theorem cut_twice_le {r : Nat} (hm : 2 ^ 52 ≤ m) (hr : 2 ^ 52 ≤ r)
    (hround : r ≤ m / 2 ^ (m.log2 - 52) + 1) :
    ((r / 2 ^ (r.log2 - 52) : Nat) : ℚ) * 2 ^ (r.log2 - 52 + (m.log2 - 52 + e) : Int) ≤
      m * 2 ^ e * drift := by
  have hcut := (div_log2_bounds hm).1
  have hmcut := Nat.div_mul_le_self m (2 ^ (m.log2 - 52))
  have hrcut := Nat.div_mul_le_self r (2 ^ (r.log2 - 52))
  rw [two_zpow_sub (le_log2 hr), two_zpow_sub (le_log2 hm)]
  generalize m.log2 - 52 = a at *
  generalize r.log2 - 52 = b at *
  generalize m / 2 ^ a = q at *
  generalize r / 2 ^ b = s at *
  have hqm : (q : ℚ) * 2 ^ a ≤ m := by exact_mod_cast hmcut
  have hsr : (s : ℚ) * 2 ^ b ≤ r := by exact_mod_cast hrcut
  have hrq : (r : ℚ) ≤ q * drift := by
    have hle : (r : ℚ) ≤ q + 1 := by exact_mod_cast hround
    have hone : (2 : ℚ) ^ 52 ≤ q := by exact_mod_cast hcut
    rw [drift]
    linarith
  have hdrift := drift_nonneg
  calc (s : ℚ) * (2 ^ b * (2 ^ a * 2 ^ e)) = s * 2 ^ b * (2 ^ a * 2 ^ e) := by ring
    _ ≤ r * (2 ^ a * 2 ^ e) := by gcongr
    _ ≤ q * drift * (2 ^ a * 2 ^ e) := by gcongr
    _ = q * 2 ^ a * (2 ^ e * drift) := by ring
    _ ≤ m * (2 ^ e * drift) := by gcongr
    _ = m * 2 ^ e * drift := by ring

/-- Rounding a number of at least one adds at most one unit of the last binary place. -/
theorem close_round (hm : 2 ^ 52 ≤ m) (he : 0 ≤ m.log2 + e) :
    Close 1 (roundWithAccuracy .binary64 .positive m e .exact) (m * 2 ^ e) := by
  have hlog := le_log2 hm
  obtain ⟨hmantissa, hexponent⟩ := shiftToTargetExponent_eq hlog he
  obtain ⟨hlow, hhigh⟩ := div_log2_bounds hm
  obtain ⟨hround, hround'⟩ :=
    roundedMantissa_bounds (shiftToTargetExponent .binary64 m e .exact).1
  rw [hmantissa] at hround hround'
  generalize hr : (shiftToTargetExponent .binary64 m e .exact).1.roundedMantissa = r at *
  have hrlow : 2 ^ 52 ≤ r := by omega
  have hrlog := le_log2 hrlow
  obtain ⟨hmantissa', hexponent'⟩ :=
    shiftToTargetExponent_eq (e := (m.log2 : Int) - 52 + e) hrlog (by omega)
  obtain ⟨hlow', hhigh'⟩ := div_log2_bounds hrlow
  have hfinite : roundWithAccuracy .binary64 .positive m e .exact =
      .finite .positive (r / 2 ^ (r.log2 - 52)) (r.log2 - 52 + (m.log2 - 52 + e))
        (by have : 0 < 2 ^ 52 := by decide
            omega) := by
    have hunfold : roundWithAccuracy .binary64 .positive m e .exact =
        if h : (shiftToTargetExponent .binary64
            (shiftToTargetExponent .binary64 m e .exact).1.roundedMantissa
            (shiftToTargetExponent .binary64 m e .exact).2 .exact).1.mantissa = 0 then
          .zero .positive
        else .finite .positive _ (shiftToTargetExponent .binary64
            (shiftToTargetExponent .binary64 m e .exact).1.roundedMantissa
            (shiftToTargetExponent .binary64 m e .exact).2 .exact).2
          (Nat.pos_of_ne_zero h) := rfl
    have hne : r / 2 ^ (r.log2 - 52) ≠ 0 := by
      have : 0 < 2 ^ 52 := by decide
      omega
    rw [hunfold]
    simp only [hr, hexponent, hmantissa', hexponent', hne, dite_false]
  refine ⟨_, _, _, hfinite, hlow', hhigh', by omega, ?_⟩
  rw [pow_one]
  exact cut_twice_le hm hrlow hround'

/-! ## Encodings -/

theorem sign_of_packComponents {spec : Format} {sign exponent mantissa} :
    Sign.ofBitVec (unpackSign (packComponents spec sign exponent mantissa)) = sign := by
  have hsign : unpackSign (packComponents spec sign exponent mantissa) = sign.toBitVec := by
    refine BitVec.eq_of_getLsbD_eq fun i hi => ?_
    obtain rfl : i = 0 := by omega
    simp [unpackSign, packComponents, BitVec.getLsbD_append, BitVec.getElem_append]
  rw [hsign]
  cases sign <;> rfl

/-- A double that is neither too small nor too large is what its encoding stands for. -/
theorem unpack_pack (hlow : 2 ^ 52 ≤ m) (hhigh : m < 2 ^ 53) (hleast : -1074 ≤ e)
    (hgreatest : e ≤ 971) (hpos : 0 < m) :
    unpack .binary64 (pack .binary64 (.finite .positive m e hpos)) =
      .finite .positive m e hpos := by
  obtain ⟨b, hb⟩ := Int.eq_ofNat_of_zero_le (show 0 ≤ e + 1075 by omega)
  have hlog : m.log2 + 1 = Format.mantissaBits .binary64 := by
    have hbits : Format.mantissaBits .binary64 = 53 := rfl
    have := le_log2 hlow
    have := (Nat.log2_lt (by omega)).mpr hhigh
    omega
  have hbias : (e + (Format.exponentBias .binary64 : Nat) + (52 : Nat)).toNat = b := by
    have hbias' : Format.exponentBias .binary64 = 1023 := by decide
    rw [hbias']
    omega
  have hpack : pack .binary64 (.finite .positive m e hpos) =
      packComponents .binary64 .positive (BitVec.ofNat 11 b) (BitVec.ofNat 52 m) := by
    rw [pack]
    simp only [hbias]
    rw [if_neg (by omega), if_pos hlog]
  have hones : BitVec.ofNat 11 b ≠ -1#11 := by
    rw [Ne, ← BitVec.toNat_inj, BitVec.toNat_ofNat, Nat.mod_eq_of_lt (by omega)]
    have : (-1#11).toNat = 2047 := by decide
    omega
  have hzero : BitVec.ofNat 11 b ≠ 0#11 := by
    rw [Ne, ← BitVec.toNat_inj, BitVec.toNat_ofNat, Nat.mod_eq_of_lt (by omega)]
    have : (0#11).toNat = 0 := by decide
    omega
  have hmantissa : (1#1 ++ BitVec.ofNat 52 m).toNat = m := by
    rw [BitVec.toNat_append, ← Nat.shiftLeft_add_eq_or_of_lt (BitVec.isLt _), Nat.shiftLeft_eq]
    simp only [BitVec.toNat_ofNat]
    omega
  have hexponent : ((BitVec.ofNat 11 b).toNat : Int) -
      ((Format.exponentBias .binary64 : Nat) + (52 : Nat)) = e := by
    have hbias' : Format.exponentBias .binary64 = 1023 := by decide
    rw [BitVec.toNat_ofNat, Nat.mod_eq_of_lt (by omega), hbias']
    omega
  rw [hpack, unpack]
  simp only [unpackMantissa_packComponents, unpackExponent_packComponents, sign_of_packComponents,
    hones, hzero, if_false, hmantissa, hexponent]

/-- A double below the bound is not too large to be encoded. -/
theorem Close.exponent_le (h : Close n f q) (hq : q * drift ^ n < 2 ^ 1024) :
    ∃ m e h, f = .finite .positive m e h ∧ 2 ^ 52 ≤ m ∧ m < 2 ^ 53 ∧ -52 ≤ e ∧ e ≤ 971 := by
  obtain ⟨m, e, hpos, hf, hlow, hhigh, hleast, hvalue⟩ := h
  refine ⟨m, e, hpos, hf, hlow, hhigh, hleast, ?_⟩
  have hm : (2 : ℚ) ^ (52 : Int) ≤ m := by exact_mod_cast hlow
  have hlt : (2 : ℚ) ^ (52 + e) < 2 ^ (1024 : Int) := by
    calc (2 : ℚ) ^ (52 + e) = 2 ^ (52 : Int) * 2 ^ e := zpow_add₀ (by norm_num) _ _
      _ ≤ m * 2 ^ e := by gcongr
      _ < 2 ^ (1024 : Int) := lt_of_le_of_lt hvalue (by exact_mod_cast hq)
  have := (zpow_lt_zpow_iff_right₀ (by norm_num : (1 : ℚ) < 2)).mp hlt
  omega

theorem Close.unpack_pack (h : Close n f q) (hq : q * drift ^ n < 2 ^ 1024) :
    (Float.Model.pack f).unpack = f := by
  obtain ⟨m, e, hpos, rfl, hlow, hhigh, hleast, hgreatest⟩ := h.exponent_le hq
  exact Decimal.unpack_pack hlow hhigh (by omega) hgreatest hpos

theorem Close.isInf (h : Close n x.toModel.unpack q) : x.isInf = false := by
  obtain ⟨m, e, hpos, hf, -⟩ := h
  show x.toModel.unpack.isInf = false
  rw [hf]
  rfl

/-! ## Products -/

/-- A product is at most the exact product and one rounding more. -/
theorem Close.mul (hx : Close i x.toModel.unpack p) (hy : Close j y.toModel.unpack q)
    (hq : p * q * drift ^ (i + j + 1) < 2 ^ 1024) :
    Close (i + j + 1) (x * y).toModel.unpack (p * q) := by
  have hround : Close (i + j + 1)
      (UnpackedFloat.mul .binary64 x.toModel.unpack y.toModel.unpack) (p * q) := by
    obtain ⟨m, d, hm, hf, hmlow, hmhigh, hd, hp⟩ := hx
    obtain ⟨n, e, hn, hg, hnlow, hnhigh, he, hq⟩ := hy
    have hlow : 2 ^ 52 * 2 ^ 52 ≤ m * n := Nat.mul_le_mul hmlow hnlow
    have hlog : 104 ≤ (m * n).log2 := (Nat.le_log2 (by omega)).mpr (by omega)
    obtain ⟨r, z, hr, hfinite, hrlow, hrhigh, hz, hle⟩ :=
      close_round (m := m * n) (e := d + e) (by omega) (by omega)
    rw [hf, hg]
    refine ⟨r, z, hr, hfinite, hrlow, hrhigh, hz, ?_⟩
    have hdrift := drift_nonneg
    have hleft : 0 ≤ p * drift ^ i := le_trans (by positivity) hp
    calc (r : ℚ) * 2 ^ z ≤ (m * n : Nat) * 2 ^ (d + e) * drift ^ 1 := hle
      _ = (m * 2 ^ d) * (n * 2 ^ e) * drift := by
          rw [zpow_add₀ (by norm_num)]
          push_cast
          ring
      _ ≤ (p * drift ^ i) * (q * drift ^ j) * drift := by gcongr
      _ = p * q * drift ^ (i + j + 1) := by ring
  have hmul : (x * y).toModel.unpack = (Float.Model.pack
      (UnpackedFloat.mul .binary64 x.toModel.unpack y.toModel.unpack)).unpack := rfl
  rw [hmul, hround.unpack_pack hq]
  exact hround

/-! ## Integers and powers of ten -/

theorem drift_pow_le {n : Nat} (h : n ≤ 4) : drift ^ n ≤ 1 + 1 / 2 ^ 49 := by
  refine (pow_le_pow_right₀ one_le_drift h).trans ?_
  rw [drift]
  norm_num

/-- A number that is written without a point. -/
theorem close_ofScientific {v k : Nat} (hv : 0 < v) (hslow : ¬ (v < 2 ^ 53 ∧ k ≤ 22))
    (hk : k ≤ 308) (hrange : (v : ℚ) * 10 ^ k * drift ^ 1 < 2 ^ 1024) :
    Close 1 (Float.ofScientific v false k).toModel.unpack (v * 10 ^ k) := by
  have hround : Close 1 (UnpackedFloat.ofScientific .binary64 v k) (v * 10 ^ k) := by
    have hbig : ¬ ((k : Int) > 2 ^ Format.exponentBits .binary64) := by
      have : (2 : Int) ^ Format.exponentBits .binary64 = 2048 := by decide
      omega
    have hsmall : ¬ ((k : Int) < -((2 : Int) ^ Format.exponentBits .binary64 + v.log2)) := by
      have : (2 : Int) ^ Format.exponentBits .binary64 = 2048 := by decide
      omega
    have hbits : Format.mantissaBits .binary64 = 53 := rfl
    rw [UnpackedFloat.ofScientific, dif_neg (by omega), if_neg hbig, if_neg hsmall,
      if_pos (by omega)]
    simp only [hbits, Int.toNat_natCast, UnpackedFloat.mul]
    have hsign : Sign.positive * Sign.positive = Sign.positive := rfl
    have hscaled : v <<< 53 = v * 2 ^ 53 := Nat.shiftLeft_eq _ _
    have hlow : 2 ^ 53 ≤ v * 2 ^ 53 * 10 ^ k :=
      (Nat.le_mul_of_pos_left _ hv).trans (Nat.le_mul_of_pos_right _ (Nat.pow_pos (by decide)))
    have hlog : 53 ≤ (v * 2 ^ 53 * 10 ^ k).log2 := (Nat.le_log2 (by omega)).mpr hlow
    have hvalue : (v * 10 ^ k : ℚ) =
        (v * 2 ^ 53 * 10 ^ k : Nat) * 2 ^ (-(53 : Nat) + 0 : Int) := by
      push_cast
      norm_num
      ring
    rw [hvalue, hscaled, hsign]
    exact close_round (by omega) (by omega)
  have hscientific : (Float.ofScientific v false k).toModel.unpack =
      (Float.Model.pack (UnpackedFloat.ofScientific .binary64 v k)).unpack := by
    rw [Float.ofScientific, dif_neg hslow]
    rfl
  rw [hscientific, hround.unpack_pack hrange]
  exact hround

theorem Close.mono (h : Close i f q) (hq : 0 ≤ q) (hij : i ≤ j) : Close j f q := by
  obtain ⟨m, e, hpos, hf, hlow, hhigh, hleast, hvalue⟩ := h
  refine ⟨m, e, hpos, hf, hlow, hhigh, hleast, hvalue.trans ?_⟩
  gcongr
  exact one_le_drift

/-- Whether a double is an integer of at least one. -/
def isInteger (x : Float) (n : Nat) : Bool :=
  match x.toModel.unpack with
  | .finite .positive m e _ =>
    2 ^ 52 ≤ m && m < 2 ^ 53 && -52 ≤ e && m * 2 ^ (e + 52).toNat == n * 2 ^ 52
  | _ => false

theorem close_of_isInteger (h : isInteger x n) : Close 0 x.toModel.unpack n := by
  rw [isInteger] at h
  split at h
  next m e hpos hf =>
    simp only [Bool.and_eq_true, decide_eq_true_eq, beq_iff_eq] at h
    obtain ⟨⟨⟨hlow, hhigh⟩, hleast⟩, hvalue⟩ := h
    refine ⟨m, e, hpos, hf, hlow, hhigh, hleast, le_of_eq ?_⟩
    obtain ⟨s, hs⟩ := Int.eq_ofNat_of_zero_le (show 0 ≤ e + 52 by omega)
    have hs' : e = s - 52 := by omega
    have hcast : (m : ℚ) * 2 ^ s = n * 2 ^ 52 := by
      rw [hs] at hvalue
      exact_mod_cast hvalue
    rw [hs', zpow_sub₀ (by norm_num), zpow_natCast, pow_zero, mul_one]
    rw [← mul_div_assoc, hcast]
    norm_num
  next => cases h

theorem isInteger_power : ∀ k < 23, isInteger (Float.ofScientific 1 false k) (10 ^ k) := by
  decide

theorem greatest_power_lt : (10 : ℚ) ^ 308 * (1 + 1 / 2 ^ 49) < 2 ^ 1024 := by
  have hlt : 10 ^ 308 * (2 ^ 49 + 1) < 2 ^ 1024 * 2 ^ 49 := by
    rw [pow_mul 10 154 2, pow_mul 2 128 8]
    norm_num
  have hcast : (10 : ℚ) ^ 308 * (2 ^ 49 + 1) < 2 ^ 1024 * 2 ^ 49 := by exact_mod_cast hlt
  generalize (10 : ℚ) ^ 308 = a at *
  generalize (2 : ℚ) ^ 1024 = b at *
  linarith

/-- A power of ten in the range of doubles. -/
theorem close_power {k : Nat} (hk : k ≤ 308) :
    Close 1 (Float.ofScientific 1 false k).toModel.unpack (10 ^ k) := by
  by_cases hfast : k ≤ 22
  · have hclose := close_of_isInteger (isInteger_power k (by omega))
    push_cast at hclose
    exact hclose.mono (by positivity) (by omega)
  · have hslow := close_ofScientific (v := 1) (by decide) (by omega) hk ?_
    · simpa using hslow
    · have hle : (10 : ℚ) ^ k ≤ 10 ^ 308 := pow_le_pow_right₀ (by norm_num) hk
      have hdrift := drift_pow_le (n := 1) (by decide)
      calc ((1 : Nat) : ℚ) * 10 ^ k * drift ^ 1 ≤ 10 ^ k * (1 + 1 / 2 ^ 49) := by
            rw [Nat.cast_one, one_mul]
            gcongr
        _ ≤ 10 ^ 308 * (1 + 1 / 2 ^ 49) := by gcongr
        _ < 2 ^ 1024 := greatest_power_lt

theorem word_mul_lt {v n : Nat} (hword : v < 2 ^ 64) (hn : n ≤ 4) :
    (v : ℚ) * drift ^ n < 2 ^ 1024 := by
  have hdrift := drift_pow_le hn
  have hdrift' : 0 ≤ drift ^ n := pow_nonneg drift_nonneg n
  have hle : (v : ℚ) ≤ 2 ^ 64 := by exact_mod_cast hword.le
  calc (v : ℚ) * drift ^ n ≤ 2 ^ 64 * (1 + 1 / 2 ^ 49) := by gcongr
    _ < 2 ^ 65 := by norm_num
    _ ≤ 2 ^ 1024 := pow_le_pow_right₀ (by norm_num) (by decide)

theorem close_toFloat {v : Nat} (hv : 0 < v) (hv' : v < 2 ^ 53) :
    Close 1 v.toUInt64.toFloat.toModel.unpack v := by
  have hlog : v.log2 ≤ 52 := by
    have := (Nat.log2_lt (by omega)).mpr hv'
    omega
  have htoNat : v.toUInt64.toNat = v := UInt64.toNat_ofNat_of_lt' (by
    have : UInt64.size = 2 ^ 64 := rfl
    omega)
  have hround : Close 1 (UnpackedFloat.ofNat .binary64 v) v := by
    have hcompare : compare (v : Int) 0 = .gt := by
      rw [Int.compare_eq_gt]
      omega
    have htarget : Format.binary64.targetExponent (Float.Model.totalExponent v 0) =
        v.log2 - 52 := by
      have hbits : (Format.binary64.mantissaBits : Int) = 53 := rfl
      have hmin : Format.binary64.minExponent = -1074 := by decide
      rw [Format.targetExponent, Float.Model.totalExponent, hbits, hmin]
      omega
    obtain ⟨s, hs⟩ := Nat.exists_eq_add_of_le hlog
    have hshift : (0 - ((v.log2 : Int) - 52)).toNat = s := by omega
    rw [UnpackedFloat.ofNat, UnpackedFloat.ofInt, UnpackedFloat.normalize, hcompare]
    simp only [UnpackedFloat.round, Int.toNat_natCast, htarget, decreaseExponent, hshift]
    have hscaled : v <<< s = v * 2 ^ s := Nat.shiftLeft_eq _ _
    have hlow : 2 ^ 52 ≤ v * 2 ^ s := by
      rw [hs, pow_add]
      exact Nat.mul_le_mul_right _ (Nat.log2_self_le (by omega))
    have hvalue : (v : ℚ) = (v * 2 ^ s : Nat) * 2 ^ (0 - s : Int) := by
      rw [zero_sub, zpow_neg, zpow_natCast]
      push_cast
      field_simp
    have hlog' : 52 ≤ (v * 2 ^ s).log2 := le_log2 hlow
    have hclose := close_round (e := 0 - s) hlow (by omega)
    rw [← hvalue] at hclose
    rw [hscaled]
    exact hclose
  have hrange : (v : ℚ) * drift ^ 1 < 2 ^ 1024 := word_mul_lt (by omega) (by decide)
  have hfloat : v.toUInt64.toFloat.toModel.unpack =
      (Float.Model.pack (UnpackedFloat.ofNat .binary64 v.toUInt64.toNat)).unpack := rfl
  rw [hfloat, htoNat, hround.unpack_pack hrange]
  exact hround

/-- The factor that converts a number without a power of ten. -/
theorem isInteger_one : isInteger (Float.ofBits 0x3FF0000000000000) 1 := by decide

/-- A word. -/
theorem close_ofNat {v : Nat} (hv : 0 < v) (hword : v < 2 ^ 64) :
    Close 2 (Float.ofNat v).toModel.unpack v := by
  by_cases hfast : v < 2 ^ 53
  · have hone := close_of_isInteger isInteger_one
    have hmul := (close_toFloat hv hfast).mul hone (by
      rw [Nat.cast_one, mul_one]
      exact word_mul_lt hword (by decide))
    rw [Nat.cast_one, mul_one] at hmul
    have hnat : Float.ofNat v = v.toUInt64.toFloat * Float.ofBits 0x3FF0000000000000 := by
      show Float.ofScientific v false 0 = _
      rw [Float.ofScientific, dif_pos ⟨hfast, by decide⟩]
      rfl
    rw [hnat]
    exact hmul
  · have hslow := close_ofScientific (k := 0) hv (by omega) (by decide) (by
      rw [pow_zero, mul_one]
      exact word_mul_lt hword (by decide))
    rw [pow_zero, mul_one] at hslow
    exact hslow.mono (by positivity) (by decide)

/-- A word times a power of ten. -/
theorem isInf_mul_power {v k : Nat} (hv : 0 < v) (hword : v < 2 ^ 64) (hk : k ≤ 308)
    (hrange : (v : ℚ) * 10 ^ k * drift ^ 4 < 2 ^ 1024) :
    (Float.ofNat v * Float.ofScientific 1 false k).isInf = false :=
  ((close_ofNat hv hword).mul (close_power hk) hrange).isInf

end Stencil.Decimal
