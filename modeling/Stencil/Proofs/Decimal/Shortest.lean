/-
The shortest decimal of a double.

However the search ends, the decimal that it gives lies at most half a unit of the last binary
place above the number, and its exponent is near the one that the search starts from.
-/
import Mathlib
import Stencil.Decimal.Shortest

namespace Stencil.Decimal

/-- The number that digits stand for. -/
def Digits.value (d : Digits) : ℚ := d.significand * 10 ^ d.exponent

/-- The upper end of the interval of reals that round to a number. -/
def Binary.top (x : Binary) : ℚ := (x.significand + 1 / 2) * 2 ^ x.exponent

variable {x : Binary} {tie : Tie} {n : Nat} {k : Int}

theorem pow_toNat (b : ℚ) (hb : b ≠ 0) (z : Int) : b ^ z.toNat = b ^ z * b ^ (-z).toNat := by
  rcases Int.le_total 0 z with h | h
  · rw [Int.toNat_of_nonpos (by omega : -z ≤ 0), pow_zero, mul_one, ← zpow_natCast,
      Int.toNat_of_nonneg h]
  · rw [Int.toNat_of_nonpos h, pow_zero, ← zpow_natCast b (-z).toNat,
      Int.toNat_of_nonneg (by omega), ← zpow_add₀ hb, add_neg_cancel, zpow_zero]

/-! ## The grids -/

theorem Binary.measure_down_pos (x : Binary) (k : Int) : 0 < (x.measure k).down :=
  Nat.mul_pos (Nat.pow_pos (by decide)) (Nat.pow_pos (by decide))

theorem Binary.measure_up_pos (x : Binary) (k : Int) : 0 < (x.measure k).up :=
  Nat.mul_pos (Nat.pow_pos (by decide)) (Nat.pow_pos (by decide))

theorem two_zpow_eq_quarter (e : Int) : (2 : ℚ) ^ e = 4 * 2 ^ (e - 2) := by
  rw [zpow_sub₀ (by norm_num)]
  norm_num
  ring

/-- A quarter of the last binary place, in units of the grid. -/
theorem Binary.measure_up (x : Binary) (k : Int) :
    ((x.measure k).up : ℚ) * 10 ^ k = 2 ^ (x.exponent - 2) * (x.measure k).down := by
  have htwo := pow_toNat 2 (by norm_num) (x.exponent - 2)
  have hten := pow_toNat 10 (by norm_num) k
  have hswap : -(x.exponent - 2) = 2 - x.exponent := by ring
  have hneg := pow_toNat 10 (by norm_num) (-k)
  rw [neg_neg] at hneg
  rw [hswap] at htwo
  have hcancel : (10 : ℚ) ^ k * 10 ^ (-k) = 1 := by
    rw [← zpow_add₀ (by norm_num), add_neg_cancel, zpow_zero]
  simp only [Binary.measure, Nat.pow_eq]
  push_cast
  rw [htwo, hneg]
  linear_combination (2 ^ (x.exponent - 2) * 2 ^ (2 - x.exponent).toNat * 10 ^ k.toNat) * hcancel

/-- A grid point that is not too far above the number. -/
theorem Binary.value_le_top
    (h : n * (x.measure k).down ≤ (4 * x.significand + 2) * (x.measure k).up) :
    Digits.value ⟨n, k⟩ ≤ x.top := by
  have hdown : (0 : ℚ) < (x.measure k).down := by exact_mod_cast x.measure_down_pos k
  have hcast : (n : ℚ) * (x.measure k).down ≤ (4 * x.significand + 2) * (x.measure k).up := by
    exact_mod_cast h
  have hten : (0 : ℚ) < 10 ^ k := by positivity
  rw [Digits.value, Binary.top, two_zpow_eq_quarter x.exponent]
  dsimp only
  refine le_of_mul_le_mul_right ?_ hdown
  calc (n : ℚ) * 10 ^ k * (x.measure k).down
      = (n : ℚ) * (x.measure k).down * 10 ^ k := by ring
    _ ≤ (4 * x.significand + 2) * (x.measure k).up * 10 ^ k :=
        mul_le_mul_of_nonneg_right hcast hten.le
    _ = (4 * x.significand + 2) * ((x.measure k).up * 10 ^ k) := by ring
    _ = (4 * x.significand + 2) * (2 ^ (x.exponent - 2) * (x.measure k).down) := by
        rw [x.measure_up k]
    _ = (x.significand + 1 / 2) * (4 * 2 ^ (x.exponent - 2)) * (x.measure k).down := by ring

theorem Binary.le_of_hits (h : x.hits (x.measure k) n = true) :
    n * (x.measure k).down ≤ (4 * x.significand + 2) * (x.measure k).up := by
  rw [Binary.hits] at h
  dsimp only [Binary.reach] at h
  split at h
  · exact of_decide_eq_true (Bool.and_eq_true_iff.mp h).2
  · exact (of_decide_eq_true (Bool.and_eq_true_iff.mp h).2).le

theorem Tie.choose_eq_or (tie : Tie) (below down up : Nat) :
    tie.choose below down up = below ∨ tie.choose below down up = below + 1 := by
  cases tie with
  | up =>
      simp only [Tie.choose]
      split_ifs <;> simp
  | even =>
      simp only [Tie.choose]
      split_ifs <;> simp

theorem Binary.hits_of_hit? (h : x.hit? tie (x.measure k) = some n) :
    x.hits (x.measure k) n = true := by
  rw [Binary.hit?] at h
  split at h
  next hbelow habove =>
    cases h
    rcases Tie.choose_eq_or tie (4 * x.significand * (x.measure k).up / (x.measure k).down) _ _ with
      hchoose | hchoose
    · rw [hchoose]
      exact hbelow
    · rw [hchoose]
      exact habove
  next hbelow _ =>
    cases h
    exact hbelow
  next _ habove =>
    cases h
    exact habove
  next => cases h

/-! ## The search -/

theorem Binary.search_le (x : Binary) (tie : Tie) (fuel : Nat) (k : Int) :
    (x.search tie fuel k).value ≤ x.top ∧ k - fuel ≤ (x.search tie fuel k).exponent ∧
      (x.search tie fuel k).exponent ≤ k := by
  induction fuel generalizing k with
  | zero =>
      refine ⟨Binary.value_le_top ?_, by simp [Binary.search], by simp [Binary.search]⟩
      refine (Nat.div_mul_le_self _ _).trans ?_
      exact Nat.mul_le_mul_right _ (by omega)
  | succ fuel ih =>
      rw [Binary.search]
      split
      next n hn =>
        exact ⟨Binary.value_le_top (Binary.le_of_hits (Binary.hits_of_hit? hn)),
          by push_cast; omega, le_rfl⟩
      next _ =>
        obtain ⟨hvalue, hlow, hhigh⟩ := ih (k - 1)
        exact ⟨hvalue, by push_cast; omega, by omega⟩

/-- Factors of ten that are moved change nothing. -/
theorem Digits.stripZeros_value (fuel : Nat) (d : Digits) :
    (d.stripZeros fuel).value = d.value ∧ d.exponent ≤ (d.stripZeros fuel).exponent ∧
      (d.stripZeros fuel).exponent ≤ d.exponent + fuel := by
  induction fuel generalizing d with
  | zero => exact ⟨rfl, le_rfl, by simp [Digits.stripZeros]⟩
  | succ fuel ih =>
      rw [Digits.stripZeros]
      split
      next h =>
        obtain ⟨hvalue, hlow, hhigh⟩ := ih ⟨d.significand / 10, d.exponent + 1⟩
        refine ⟨hvalue.trans ?_, by dsimp only at hlow; omega, by
          dsimp only at hhigh
          push_cast
          omega⟩
        have hten : (d.significand : ℚ) = (d.significand / 10 : Nat) * 10 := by
          exact_mod_cast (Nat.div_mul_cancel (Nat.dvd_of_mod_eq_zero h.2)).symm
        rw [Digits.value, Digits.value, hten, zpow_add_one₀ (by norm_num)]
        ring
      next _ => exact ⟨rfl, le_rfl, by push_cast; omega⟩

/-- The shortest decimal is at most half a unit of the last binary place above the number. -/
theorem Binary.shortest_le (x : Binary) (tie : Tie) : (x.shortest tie).value ≤ x.top := by
  rw [Binary.shortest]
  split
  · have hpos : (0 : ℚ) < 2 ^ x.exponent := by positivity
    rw [Digits.value, Binary.top]
    simp only [Nat.cast_zero, zero_mul]
    positivity
  · rw [(Digits.stripZeros_value 20 _).1]
    exact (x.search_le tie 24 _).1

/-- The exponent of the shortest decimal is near the one that the search starts from. -/
theorem Binary.shortest_exponent (hx : x.significand ≠ 0) (tie : Tie) :
    x.decimalBound - 24 ≤ (x.shortest tie).exponent ∧
      (x.shortest tie).exponent ≤ x.decimalBound + 20 := by
  rw [Binary.shortest, if_neg hx]
  have hsearch := x.search_le tie 24 x.decimalBound
  have hstrip := Digits.stripZeros_value 20 (x.search tie 24 x.decimalBound)
  omega

/-! ## Finite doubles -/

theorem Binary.ofMagnitudeBits_subnormal {bits : Nat} (h : bits / fractionLimit = 0) :
    Binary.ofMagnitudeBits bits = ⟨bits % fractionLimit, -1074, false⟩ := if_pos h

theorem Binary.ofMagnitudeBits_normal {bits : Nat} (h : bits / fractionLimit ≠ 0) :
    Binary.ofMagnitudeBits bits =
      ⟨fractionLimit + bits % fractionLimit, Int.ofNat (bits / fractionLimit) - 1075,
        bits % fractionLimit = 0 && 1 < bits / fractionLimit⟩ := if_neg h

/-- The parts of a finite double. -/
theorem Binary.ofMagnitudeBits_bounds {bits : Nat} (h : bits < 0x7FF0000000000000) :
    (Binary.ofMagnitudeBits bits).significand < 9007199254740992 ∧
      -1074 ≤ (Binary.ofMagnitudeBits bits).exponent ∧
      (Binary.ofMagnitudeBits bits).exponent ≤ 971 := by
  have hlimit : fractionLimit = 4503599627370496 := rfl
  have hmod : bits % fractionLimit < fractionLimit := Nat.mod_lt _ (by decide)
  have hdiv : bits / fractionLimit ≤ 2046 := by
    rw [hlimit]
    omega
  by_cases hbiased : bits / fractionLimit = 0
  · rw [Binary.ofMagnitudeBits_subnormal hbiased]
    dsimp only
    omega
  · rw [Binary.ofMagnitudeBits_normal hbiased]
    simp only [Int.ofNat_eq_natCast]
    generalize bits / fractionLimit = biased at *
    omega

theorem Binary.decimalBound_bounds (hlow : -1074 ≤ x.exponent) (hhigh : x.exponent ≤ 971)
    (hsignificand : x.significand < 9007199254740992) :
    -330 ≤ x.decimalBound ∧ x.decimalBound ≤ 310 := by
  have hlog : Nat.log2 x.significand ≤ 52 := by
    by_cases h : x.significand = 0
    · rw [h]
      decide
    · have := (Nat.log2_lt h).mpr (show x.significand < 2 ^ 53 by omega)
      omega
  rw [Binary.decimalBound, Int.fdiv_eq_ediv_of_nonneg _ (by decide)]
  omega

/-- The shortest decimal of a finite double has not many digits. -/
theorem Binary.shortest_significand_lt {bits : Nat} (h : bits < 0x7FF0000000000000) (tie : Tie) :
    ((Binary.ofMagnitudeBits bits).shortest tie).significand < 10 ^ 700 := by
  obtain ⟨hsignificand, hleast, hgreatest⟩ := Binary.ofMagnitudeBits_bounds h
  generalize Binary.ofMagnitudeBits bits = x at *
  by_cases hx : x.significand = 0
  · rw [Binary.shortest, if_pos hx]
    positivity
  have hvalue := x.shortest_le tie
  have hlow := (Binary.shortest_exponent hx tie).1
  have hbound := (Binary.decimalBound_bounds hleast hgreatest hsignificand).1
  generalize x.shortest tie = d at *
  have htop : x.top ≤ 2 ^ (1025 : Int) := by
    have hs : (x.significand : ℚ) + 1 / 2 ≤ 2 ^ (54 : Int) := by
      have : (x.significand : ℚ) ≤ 9007199254740992 := by exact_mod_cast hsignificand.le
      norm_num
      linarith
    calc x.top ≤ 2 ^ (54 : Int) * 2 ^ x.exponent := by
          rw [Binary.top]
          gcongr
      _ = 2 ^ (54 + x.exponent) := (zpow_add₀ (by norm_num) _ _).symm
      _ ≤ 2 ^ (1025 : Int) := zpow_le_zpow_right₀ (by norm_num) (by omega)
  have hpow : (2 : ℚ) ^ (1025 : Int) < 10 ^ (309 : Int) := by
    have hlt : 2 ^ 1025 < 10 ^ 309 := by
      rw [pow_mul 2 205 5, pow_mul 10 103 3]
      norm_num
    rw [zpow_ofNat, zpow_ofNat]
    exact_mod_cast hlt
  have hlt : (d.significand : ℚ) < 10 ^ 700 := by
    calc (d.significand : ℚ) = d.value * 10 ^ (-d.exponent) := by
          rw [Digits.value, mul_assoc, ← zpow_add₀ (by norm_num), add_neg_cancel, zpow_zero,
            mul_one]
      _ < 10 ^ (309 : Int) * 10 ^ (-d.exponent) :=
          mul_lt_mul_of_pos_right (hvalue.trans_lt (htop.trans_lt hpow)) (by positivity)
      _ = 10 ^ (309 + -d.exponent) := (zpow_add₀ (by norm_num) _ _).symm
      _ ≤ 10 ^ (700 : Int) := zpow_le_zpow_right₀ (by norm_num) (by omega)
      _ = 10 ^ 700 := zpow_ofNat 10 700
  exact_mod_cast hlt

/-- Numbers other than the greatest ones are so far below the end of the range of doubles that a
few roundings do not matter. -/
theorem Binary.top_lt {bits : Nat} (h : bits ≤ 0x7FEFFFFFFFFFFFEF) :
    (Binary.ofMagnitudeBits bits).top * (1 + 1 / 2 ^ 49) < 2 ^ 1024 := by
  have hlimit : fractionLimit = 4503599627370496 := rfl
  obtain ⟨hsignificand, hleast, hgreatest⟩ := Binary.ofMagnitudeBits_bounds
    (show bits < 0x7FF0000000000000 by omega)
  have hcut : (Binary.ofMagnitudeBits bits).exponent = 971 →
      (Binary.ofMagnitudeBits bits).significand ≤ 9007199254740975 := by
    by_cases hbiased : bits / fractionLimit = 0
    · rw [Binary.ofMagnitudeBits_subnormal hbiased]
      intro hexponent
      dsimp only at hexponent
      omega
    · rw [Binary.ofMagnitudeBits_normal hbiased, hlimit]
      simp only [Int.ofNat_eq_natCast]
      omega
  generalize Binary.ofMagnitudeBits bits = x at *
  rw [Binary.top]
  have hswap (a b : ℚ) : (a + 1 / 2) * b * (1 + 1 / 2 ^ 49) =
      (a + 1 / 2) * (1 + 1 / 2 ^ 49) * b := by ring
  have hpow (z : Int) : (0 : ℚ) < 2 ^ z := by positivity
  rw [hswap]
  rcases hgreatest.lt_or_eq with he | he
  · have hs : (x.significand : ℚ) ≤ 9007199254740991 := by
      exact_mod_cast (show x.significand ≤ 9007199254740991 by omega)
    calc ((x.significand : ℚ) + 1 / 2) * (1 + 1 / 2 ^ 49) * 2 ^ x.exponent
        < 2 ^ (54 : Int) * 2 ^ x.exponent := by
          refine mul_lt_mul_of_pos_right ?_ (hpow _)
          linarith
      _ = 2 ^ (54 + x.exponent) := (zpow_add₀ (by norm_num) _ _).symm
      _ ≤ 2 ^ (1024 : Int) := zpow_le_zpow_right₀ (by norm_num) (by omega)
      _ = 2 ^ 1024 := zpow_ofNat 2 1024
  · have hs : (x.significand : ℚ) ≤ 9007199254740975 := by exact_mod_cast hcut he
    calc ((x.significand : ℚ) + 1 / 2) * (1 + 1 / 2 ^ 49) * 2 ^ x.exponent
        < 2 ^ (53 : Int) * 2 ^ x.exponent := by
          refine mul_lt_mul_of_pos_right ?_ (hpow _)
          linarith
      _ = 2 ^ (53 + x.exponent) := (zpow_add₀ (by norm_num) _ _).symm
      _ = 2 ^ (1024 : Int) := by rw [he]; rfl
      _ = 2 ^ 1024 := zpow_ofNat 2 1024

/-- The encoding of a finite double. -/
theorem magnitude_lt {f : Float} (h : f.isFinite) :
    f.toBits.toNat % signBit < 0x7FF0000000000000 := by
  have hfinite : f.toModel.unpack.isFinite = true := h
  have hexponent : @Float.Model.UnpackedFloat.unpackExponent .binary64
      f.toModel.toBits.toBitVec ≠ -1#11 := by
    intro hones
    rw [Float.Model.unpack, Float.Model.UnpackedFloat.unpack] at hfinite
    dsimp only at hfinite
    rw [if_pos hones] at hfinite
    split at hfinite <;> cases hfinite
  have hones : (-1#11).toNat = 2047 := by decide
  have hsign : signBit = 2 ^ 63 := rfl
  have hbits : f.toBits = f.toModel.toBits := rfl
  have hlt := f.toModel.toBits.toNat_lt
  rw [Ne, ← BitVec.toNat_inj, Float.Model.UnpackedFloat.unpackExponent, BitVec.toNat_cast,
    BitVec.extractLsb_toNat, hones] at hexponent
  simp only [Nat.shiftRight_eq_div_pow, UInt64.toNat_toBitVec] at hexponent
  rw [hbits, hsign]
  omega

/-! ## Zero -/

theorem Binary.not_hits_zero (hx : x.significand ≠ 0) : x.hits (x.measure k) 0 = false := by
  have hreach : x.reach.1 ≤ 2 := by
    rw [Binary.reach]
    split_ifs <;> decide
  have hlow : 0 < (4 * x.significand - x.reach.1) * (x.measure k).up :=
    Nat.mul_pos (by omega) (x.measure_up_pos k)
  rw [Binary.hits]
  have hle : ¬ (4 * x.significand - x.reach.1) * (x.measure k).up ≤ 0 := by omega
  have hlt : ¬ (4 * x.significand - x.reach.1) * (x.measure k).up < 0 := by omega
  simp only [Nat.zero_mul, hle, hlt, decide_false, Bool.false_and, ite_self]

/-- The search ends in zero only if it fails, and the last grid is coarser than the number. -/
theorem Binary.search_zero (hx : x.significand ≠ 0) {fuel : Nat}
    (h : (x.search tie fuel k).significand = 0) :
    (x.search tie fuel k).exponent = k - fuel ∧
      4 * x.significand * (x.measure (k - fuel)).up < (x.measure (k - fuel)).down := by
  induction fuel generalizing k with
  | zero =>
      refine ⟨by simp [Binary.search], ?_⟩
      rw [Binary.search] at h
      rw [Nat.cast_zero, sub_zero]
      exact (Nat.div_eq_zero_iff_lt (x.measure_down_pos k)).mp h
  | succ fuel ih =>
      rw [Binary.search] at h ⊢
      split at h
      next n hn =>
        dsimp only at h
        rw [h] at hn
        exact absurd (Binary.hits_of_hit? hn) (by rw [Binary.not_hits_zero hx]; decide)
      next hn =>
        have hk : k - (fuel + 1 : Nat) = k - 1 - fuel := by
          push_cast
          ring
        rw [hk]
        exact ih h

theorem Digits.stripZeros_zero (fuel : Nat) {d : Digits} (h : (d.stripZeros fuel).significand = 0) :
    d.stripZeros fuel = d := by
  have hvalue := (Digits.stripZeros_value fuel d).1
  have hten : (10 : ℚ) ^ d.exponent ≠ 0 := by positivity
  rw [Digits.value, h, Nat.cast_zero, zero_mul, Digits.value, eq_comm, mul_eq_zero] at hvalue
  have hzero : d.significand = 0 := by exact_mod_cast hvalue.resolve_right hten
  cases fuel with
  | zero => rfl
  | succ fuel => rw [Digits.stripZeros, if_neg (by simp [hzero])]

theorem Binary.lt_power_of_measure
    (h : 4 * x.significand * (x.measure k).up < (x.measure k).down) :
    (x.significand : ℚ) * 2 ^ x.exponent < 10 ^ k := by
  have hdown : (0 : ℚ) < (x.measure k).down := by exact_mod_cast x.measure_down_pos k
  have hcast : 4 * (x.significand : ℚ) * (x.measure k).up < (x.measure k).down := by
    exact_mod_cast h
  have hten : (0 : ℚ) < 10 ^ k := by positivity
  refine lt_of_mul_lt_mul_right ?_ hdown.le
  calc (x.significand : ℚ) * 2 ^ x.exponent * (x.measure k).down
      = 4 * x.significand * (2 ^ (x.exponent - 2) * (x.measure k).down) := by
        rw [two_zpow_eq_quarter x.exponent]
        ring
    _ = 4 * x.significand * (x.measure k).up * 10 ^ k := by
        rw [← x.measure_up k]
        ring
    _ < (x.measure k).down * 10 ^ k := mul_lt_mul_of_pos_right hcast hten
    _ = 10 ^ k * (x.measure k).down := mul_comm _ _

/-- Three decimal places are less than ten binary ones. -/
theorem Binary.power_le (hx : x.significand ≠ 0) {j : Nat}
    (h : 10 * (j : Int) ≤ 3 * (Nat.log2 x.significand + x.exponent)) :
    (10 : ℚ) ^ (j : Int) ≤ x.significand * 2 ^ x.exponent := by
  have hlog : (2 : ℚ) ^ (Nat.log2 x.significand : Int) ≤ x.significand := by
    rw [zpow_natCast]
    exact_mod_cast Nat.log2_self_le hx
  have hcube : ((10 : ℚ) ^ (j : Int)) ^ 3 ≤ (2 ^ (Nat.log2 x.significand + x.exponent)) ^ 3 := by
    calc ((10 : ℚ) ^ (j : Int)) ^ 3 = (10 ^ 3) ^ j := by rw [zpow_natCast, ← pow_mul, ← pow_mul,
          mul_comm]
      _ ≤ (2 ^ 10) ^ j := by gcongr; norm_num
      _ = 2 ^ (10 * (j : Int)) := by rw [← pow_mul, ← zpow_natCast, Nat.cast_mul]; rfl
      _ ≤ 2 ^ (3 * (Nat.log2 x.significand + x.exponent)) :=
          zpow_le_zpow_right₀ (by norm_num) h
      _ = (2 ^ (Nat.log2 x.significand + x.exponent)) ^ 3 := by
          rw [← zpow_natCast, ← zpow_mul, mul_comm]
          rfl
  calc (10 : ℚ) ^ (j : Int) ≤ 2 ^ (Nat.log2 x.significand + x.exponent) :=
        le_of_pow_le_pow_left₀ (by decide) (by positivity) hcube
    _ = 2 ^ (Nat.log2 x.significand : Int) * 2 ^ x.exponent := zpow_add₀ (by norm_num) _ _
    _ ≤ x.significand * 2 ^ x.exponent := by gcongr

/-- Zero is written without trailing zeros. -/
theorem Binary.shortest_of_zero (h : (x.shortest tie).significand = 0)
    (hexponent : x.exponent ≤ 971) (hsignificand : x.significand < 9007199254740992) :
    (x.shortest tie).exponent ≤ 0 := by
  rw [Binary.shortest] at h ⊢
  split_ifs at h ⊢ with hx
  · exact le_rfl
  · have hstrip := Digits.stripZeros_zero 20 h
    rw [hstrip] at h ⊢
    obtain ⟨hlast, hcoarse⟩ := Binary.search_zero hx h
    by_contra hpos
    rw [hlast, not_le] at hpos
    obtain ⟨j, hj⟩ := Int.eq_ofNat_of_zero_le hpos.le
    rw [hj] at hcoarse
    have hlog : Nat.log2 x.significand ≤ 52 := by
      have := (Nat.log2_lt hx).mpr (show x.significand < 2 ^ 53 by omega)
      omega
    have hbound : 10 * (j : Int) ≤ 3 * (Nat.log2 x.significand + x.exponent) := by
      rw [← hj, Binary.decimalBound, Int.fdiv_eq_ediv_of_nonneg _ (by decide)]
      omega
    exact absurd (Binary.lt_power_of_measure hcoarse) (not_lt.mpr (Binary.power_le hx hbound))

end Stencil.Decimal
