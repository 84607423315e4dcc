/-
Numbers in JSON texts.

What is written for a number is read as a number.  An integer that fits the word is read as itself.
A double is read from the digits that were written as far as they fit the word, and the only thing
that could go wrong is that what they stand for is out of range.
-/
import Mathlib
import Stencil.Json.NumberText
import Stencil.Json.Writer
import Stencil.Proofs.Decimal.Digits
import Stencil.Proofs.Decimal.Rounding
import Stencil.Proofs.Decimal.Shortest

namespace Stencil

/-- Whether a number is one that JSON values hold: an integer of at most 64 bits, or a double that
is finite. -/
def Number.Valid : Number → Prop
  | .int n => Number.leastInt ≤ n ∧ n < Number.natLimit
  | .float x => x.isFinite

namespace Json

open Stencil.Decimal (valueOf natDigits Digits Binary)

/-- What can stand behind a number: nothing that would go on with it. -/
def Ends (rest : List Char) : Prop :=
  ∀ c ∈ rest.head?, c.isDigit = false ∧ c ≠ '.' ∧ c ≠ 'e' ∧ c ≠ 'E'

variable {digits rest : List Char} {negative : Bool} {significand : Nat} {exponent : Int}
  {plain : Except Fault Number}

/-! ## Digits -/

/-- Digits that fit the word are all collected. -/
theorem collect_of_lt (h : valueOf digits significand < wordLimit) :
    collect significand digits = (valueOf digits significand, digits.length) := by
  induction digits generalizing significand with
  | nil => rfl
  | cons c cs ih =>
      have hcons : valueOf (c :: cs) significand = valueOf cs (10 * significand + digitValue c) :=
        Nat.ofDigitChars_cons
      rw [hcons] at h ⊢
      have hnext : 10 * significand + digitValue c < wordLimit := by
        have hge : 10 * significand + digitValue c ≤
            valueOf cs (10 * significand + digitValue c) := by
          rw [Decimal.valueOf_eq]
          exact le_add_right (Nat.le_mul_of_pos_left _ (Nat.pow_pos (by decide)))
        omega
      rw [collect, if_pos hnext, ih h]
      rfl

/-- Of digits that do not fit the word as many are collected as do, and the others count as
zeros. -/
theorem collect_le (digits : List Char) {significand : Nat} (h : significand < wordLimit) :
    (collect significand digits).2 ≤ digits.length ∧
      (collect significand digits).1 < wordLimit ∧
      significand ≤ (collect significand digits).1 ∧
      (collect significand digits).1 * 10 ^ (digits.length - (collect significand digits).2) ≤
        valueOf digits significand := by
  induction digits generalizing significand with
  | nil => exact ⟨le_rfl, h, le_rfl, by simp [collect]⟩
  | cons c cs ih =>
      have hcons : valueOf (c :: cs) significand = valueOf cs (10 * significand + digitValue c) :=
        Nat.ofDigitChars_cons
      rw [collect, hcons]
      split
      next hnext =>
        obtain ⟨hcount, hlt, hle, hvalue⟩ := ih hnext
        refine ⟨Nat.succ_le_succ hcount, hlt, by dsimp only; omega, ?_⟩
        dsimp only
        rw [List.length_cons, Nat.add_sub_add_right]
        exact hvalue
      next hnext =>
        refine ⟨Nat.zero_le _, h, le_rfl, ?_⟩
        dsimp only
        rw [Decimal.valueOf_eq cs (10 * significand + digitValue c), List.length_cons, Nat.sub_zero,
          Nat.pow_succ]
        nlinarith [Nat.zero_le (valueOf cs 0), Nat.zero_le (10 ^ cs.length * digitValue c)]

theorem takeWhile_isDigit (hdigits : ∀ c ∈ digits, c.isDigit)
    (hrest : ∀ c ∈ rest.head?, c.isDigit = false) :
    (digits ++ rest).takeWhile Char.isDigit = digits ∧
      (digits ++ rest).dropWhile Char.isDigit = rest := by
  rw [List.takeWhile_append_of_pos hdigits, List.dropWhile_append_of_pos hdigits]
  cases rest with
  | nil => simp
  | cons c cs =>
      have hc := hrest c rfl
      simp [hc]

/-! ## The parts of a number -/

theorem scanExponent_of_ends (h : Ends rest) :
    scanExponent negative significand exponent plain rest = .ok (plain, rest) := by
  cases rest with
  | nil => rfl
  | cons c cs =>
      obtain ⟨-, -, he, hE⟩ := h c rfl
      simp [scanExponent, he, hE]

theorem scanFraction_of_ends (h : Ends rest) :
    scanFraction negative significand exponent plain rest = .ok (plain, rest) := by
  rw [scanFraction]
  · exact scanExponent_of_ends h
  · intro cs hrest
    subst hrest
    exact (h '.' rfl).2.1 rfl

/-- An exponent that is written with its sign is read if it is not too large. -/
theorem scanExponent_of_digits (hdigits : ∀ c ∈ digits, c.isDigit) (hne : digits ≠ [])
    (hvalue : valueOf digits 0 < exponentLimit) (hrest : Ends rest) (below : Bool) :
    scanExponent negative significand exponent plain
        ('e' :: (if below then '-' else '+') :: digits ++ rest) =
      .ok (floatOfParts negative significand
        (if below then exponent - valueOf digits 0 else exponent + valueOf digits 0), rest) := by
  obtain ⟨htake, hdrop⟩ := takeWhile_isDigit hdigits fun c hc => (hrest c hc).1
  have hword : valueOf digits 0 < wordLimit := by
    rw [exponentLimit] at hvalue
    rw [wordLimit]
    omega
  have hlimit : ¬ (digits.length < digits.length ∨ exponentLimit ≤ valueOf digits 0) := by
    simpa using hvalue
  have hempty : digits.isEmpty = false := by simpa using hne
  cases below with
  | true =>
      simp only [if_true, List.cons_append, scanExponent, true_or, htake, hdrop, hempty,
        Bool.false_eq_true, if_false, withExponent, collect_of_lt hword, hlimit]
  | false =>
      simp only [if_true, List.cons_append, scanExponent, true_or, htake, hdrop, hempty,
        Bool.false_eq_true, if_false, withExponent, collect_of_lt hword, hlimit]

/-- A fraction is collected behind the whole part. -/
theorem scanFraction_of_digits (hdigits : ∀ c ∈ digits, c.isDigit) (hne : digits ≠ [])
    (hrest : ∀ c ∈ rest.head?, c.isDigit = false) :
    scanFraction negative significand exponent plain ('.' :: digits ++ rest) =
      scanExponent negative (collect significand digits).1
        (exponent - (collect significand digits).2)
        (floatOfParts negative (collect significand digits).1
          (exponent - (collect significand digits).2)) rest := by
  obtain ⟨htake, hdrop⟩ := takeWhile_isDigit hdigits hrest
  have hempty : digits.isEmpty = false := by simpa using hne
  simp only [List.cons_append, scanFraction, htake, hdrop, hempty, Bool.false_eq_true, if_false]

/-- A magnitude has no sign. -/
theorem scanNumber_of_scanMagnitude {text : List Char} {result : Except Fault Number × List Char}
    (h : scanMagnitude false text = .ok result) : scanNumber text = .ok result := by
  rw [scanNumber]
  · exact h
  · rintro cs rfl
    rw [scanMagnitude, if_neg (by decide), if_neg (by decide)] at h
    cases h

/-- A number starts with a sign or a digit. -/
theorem exists_of_scanNumber {text : List Char} {result : Except Fault Number × List Char}
    (h : scanNumber text = .ok result) :
    ∃ c cs, text = c :: cs ∧ (c = '-' ∨ c.isDigit) := by
  rw [scanNumber.eq_def] at h
  split at h
  next cs => exact ⟨'-', cs, rfl, .inl rfl⟩
  next hminus =>
    rw [scanMagnitude.eq_def] at h
    split at h
    next => cases h
    next _ c cs =>
      refine ⟨c, cs, rfl, .inr ?_⟩
      by_cases hzero : c = '0'
      · rw [hzero]
        rfl
      · by_contra hdigit
        rw [if_neg hzero, if_neg hdigit] at h
        cases h

/-- The whole part of a number: digits without a needless zero in front of them. -/
structure Whole (digits : List Char) : Prop where
  isDigit : ∀ c ∈ digits, c.isDigit
  head : digits = ['0'] ∨ ∃ d ds, digits = d :: ds ∧ d ≠ '0'

theorem whole_natDigits (n : Nat) : Whole (natDigits n) where
  isDigit _ hc := Decimal.isDigit_of_mem_natDigits hc
  head := by
    by_cases h : n = 0
    · exact .inl (by rw [h]; rfl)
    · exact .inr (Decimal.exists_natDigits_eq_cons h)

theorem Whole.ne_nil (h : Whole digits) : digits ≠ [] := by
  rcases h.head with hzero | ⟨d, ds, hds, -⟩
  · simp [hzero]
  · simp [hds]

/-- A whole part that fits the word is collected before the fraction is read. -/
theorem scanMagnitude_of_whole (negative : Bool) (h : Whole digits)
    (hlt : valueOf digits 0 < wordLimit)
    (hrest : ∀ c ∈ rest.head?, c.isDigit = false) :
    scanMagnitude negative (digits ++ rest) =
      scanFraction negative (valueOf digits 0) 0
        (.ok (numberOfDigits negative (valueOf digits 0))) rest := by
  rcases h.head with hzero | ⟨d, ds, hds, hd⟩
  · subst hzero
    have hhead : (rest.head?.map Char.isDigit).getD false = false := by
      cases rest with
      | nil => rfl
      | cons c cs => exact hrest c rfl
    rw [List.singleton_append, scanMagnitude, if_pos rfl, hhead]
    rfl
  · obtain ⟨htake, hdrop⟩ := takeWhile_isDigit h.isDigit hrest
    have hcollect := collect_of_lt hlt
    have hdigit : d.isDigit := h.isDigit d (by rw [hds]; exact List.mem_cons_self)
    rw [hds] at htake hdrop hcollect ⊢
    rw [List.cons_append] at htake hdrop ⊢
    rw [scanMagnitude, if_neg hd, if_pos hdigit, htake, hdrop]
    dsimp only
    rw [hcollect]
    simp

/-! ## Integers -/

/-- A written integer is read as that integer. -/
theorem scanNumber_intText {n : Int} (hleast : Number.leastInt ≤ n) (hlimit : n < Number.natLimit)
    (hrest : Ends rest) : scanNumber (intText n ++ rest) = .ok (.ok (.int n), rest) := by
  rw [Number.leastInt] at hleast
  rw [Number.natLimit] at hlimit
  have hdigit : ∀ c ∈ rest.head?, c.isDigit = false := fun c hc => (hrest c hc).1
  have hword : valueOf (natDigits n.natAbs) 0 < wordLimit := by
    rw [Decimal.valueOf_natDigits, wordLimit]
    omega
  have hmagnitude (negative : Bool) :=
    scanMagnitude_of_whole negative (whole_natDigits n.natAbs) hword hdigit
  simp only [Decimal.valueOf_natDigits] at hmagnitude
  rw [intText]
  split
  next hneg =>
    rw [List.cons_append, scanNumber, hmagnitude, scanFraction_of_ends hrest, numberOfDigits,
      if_pos rfl, if_pos]
    · congr 4
      simp only [Int.ofNat_eq_natCast]
      omega
    · rw [Number.leastInt]
      simp only [Int.ofNat_eq_natCast]
      omega
  next hpos =>
    have hscan := hmagnitude false
    rw [scanFraction_of_ends hrest] at hscan
    rw [scanNumber_of_scanMagnitude hscan, numberOfDigits, if_neg (by decide)]
    congr 4
    omega

/-! ## The range of doubles -/

theorem scaled?_of_neg (fuel : Nat) (x : Float) {exponent : Int} (h : exponent < 0) :
    (scaled? fuel x exponent).isSome := by
  induction fuel generalizing x exponent with
  | zero => rfl
  | succ fuel ih =>
      have hnot : ¬ 0 ≤ exponent := by omega
      rw [scaled?]
      simp only [hnot, if_false]
      split_ifs with hsmall hzero
      · rfl
      · rfl
      · exact ih _ (by omega)

theorem scaled?_of_lt {v : Nat} {exponent : Int} (hpos : 0 < v) (hword : v < wordLimit)
    (hexponent : 0 ≤ exponent)
    (hrange : (v : ℚ) * 10 ^ exponent * Decimal.drift ^ 4 < 2 ^ 1024) :
    (scaled? 4 (Float.ofNat v) exponent).isSome := by
  obtain ⟨k, rfl⟩ := Int.eq_ofNat_of_zero_le hexponent
  rw [zpow_natCast] at hrange
  have hk : k ≤ 308 := by
    by_contra hk
    have hlt : 2 ^ 1024 ≤ 10 ^ 309 := by
      rw [pow_mul 2 128 8, pow_mul 10 103 3]
      norm_num
    have hone : (1 : ℚ) ≤ v := by exact_mod_cast hpos
    have hdrift : 1 ≤ Decimal.drift ^ 4 := one_le_pow₀ Decimal.one_le_drift
    refine absurd hrange (not_lt.mpr ?_)
    calc (2 : ℚ) ^ 1024 ≤ 10 ^ 309 := by exact_mod_cast hlt
      _ ≤ 10 ^ k := pow_le_pow_right₀ (by norm_num) (by omega)
      _ = 1 * 10 ^ k * 1 := by ring
      _ ≤ v * 10 ^ k * Decimal.drift ^ 4 := by gcongr
  have hinf := Decimal.isInf_mul_power hpos hword hk hrange
  rw [scaled?, if_pos (by omega), if_pos hexponent, Int.natAbs_natCast]
  dsimp only
  rw [hinf]
  rfl

theorem scaled?_zero : (scaled? 4 (Float.ofNat 0) 0).isSome := by decide

/-- A word that is not multiplied can be held. -/
theorem scaled?_of_nonpos {v : Nat} {exponent : Int} (hword : v < wordLimit)
    (hexponent : exponent ≤ 0) : (scaled? 4 (Float.ofNat v) exponent).isSome := by
  rcases hexponent.lt_or_eq with h | rfl
  · exact scaled?_of_neg 4 _ h
  · rcases Nat.eq_zero_or_pos v with rfl | hpos
    · exact scaled?_zero
    · refine scaled?_of_lt hpos hword le_rfl ?_
      rw [zpow_zero, mul_one]
      exact Decimal.word_mul_lt hword le_rfl

/-- The greatest doubles are read exactly. -/
theorem scaled?_greatest : ∀ i < 16,
    let d := (Binary.ofMagnitudeBits (0x7FEFFFFFFFFFFFFF - i)).shortest .even
    d.significand < wordLimit ∧ (scaled? 4 (Float.ofNat d.significand) d.exponent).isSome := by
  decide +kernel

/-- What is read of the shortest decimal of a finite double can be held. -/
theorem scaled?_of_shortest {bits v : Nat} {exponent : Int} (hbits : bits < 0x7FF0000000000000)
    (hpos : 0 < v) (hword : v < wordLimit)
    (hle : (v : ℚ) * 10 ^ exponent ≤ ((Binary.ofMagnitudeBits bits).shortest .even).value)
    (hexact : ((Binary.ofMagnitudeBits bits).shortest .even).significand < wordLimit →
      (Binary.ofMagnitudeBits bits).shortest .even = ⟨v, exponent⟩) :
    (scaled? 4 (Float.ofNat v) exponent).isSome := by
  by_cases hgreat : bits ≤ 0x7FEFFFFFFFFFFFEF
  · rcases lt_or_ge exponent 0 with hneg | hnonneg
    · exact scaled?_of_neg 4 _ hneg
    · refine scaled?_of_lt hpos hword hnonneg ?_
      have hdrift := Decimal.drift_pow_le (n := 4) le_rfl
      have hdrift' := pow_nonneg Decimal.drift_nonneg 4
      calc (v : ℚ) * 10 ^ exponent * Decimal.drift ^ 4
          ≤ (Binary.ofMagnitudeBits bits).top * (1 + 1 / 2 ^ 49) := by
            gcongr
            · exact le_trans (by positivity) (hle.trans (Binary.shortest_le _ _))
            · exact hle.trans (Binary.shortest_le _ _)
        _ < 2 ^ 1024 := Binary.top_lt hgreat
  · obtain ⟨i, hi⟩ := Nat.exists_eq_add_of_le (show bits ≤ 0x7FEFFFFFFFFFFFFF by omega)
    have hbits' : bits = 0x7FEFFFFFFFFFFFFF - i := by omega
    obtain ⟨hlt, hsome⟩ := scaled?_greatest i (by omega)
    rw [← hbits'] at hlt hsome
    rw [hexact hlt] at hsome
    exact hsome

theorem floatOfParts_of_isSome (negative : Bool) {v : Nat} {exponent : Int}
    (h : (scaled? 4 (Float.ofNat v) exponent).isSome) :
    ∃ n, floatOfParts negative v exponent = .ok n := by
  obtain ⟨x, hx⟩ := Option.isSome_iff_exists.mp h
  exact ⟨.float (if negative then -x else x), by rw [floatOfParts, hx]⟩

/-! ## Doubles -/

/-- A number with a fraction is read. -/
theorem scanMagnitude_of_point (negative : Bool) {fraction : List Char} (hwhole : Whole digits)
    (hlt : valueOf digits 0 < wordLimit) (hfraction : ∀ c ∈ fraction, c.isDigit)
    (hne : fraction ≠ []) :
    ∃ n, ∀ rest, Ends rest →
      scanMagnitude negative (digits ++ ('.' :: fraction ++ rest)) = .ok (.ok n, rest) := by
  have hcollect := collect_le fraction hlt
  have hnonpos : 0 - ((collect (valueOf digits 0) fraction).2 : Int) ≤ 0 := by omega
  obtain ⟨n, hn⟩ := floatOfParts_of_isSome negative (scaled?_of_nonpos hcollect.2.1 hnonpos)
  refine ⟨n, fun rest hrest => ?_⟩
  rw [scanMagnitude_of_whole negative hwhole hlt (by simp), scanFraction_of_digits hfraction hne
    (fun c hc => (hrest c hc).1), scanExponent_of_ends hrest, hn]

theorem valueOf_lt_wordLimit (h : ∀ c ∈ digits, c.isDigit) (hlength : digits.length ≤ 16) :
    valueOf digits 0 < wordLimit := by
  have hlt := Decimal.valueOf_lt h 0
  have hpow : 10 ^ digits.length ≤ 10 ^ 16 := Nat.pow_le_pow_right (by decide) hlength
  rw [wordLimit]
  omega

/-- The front of a whole part. -/
theorem Whole.take (h : Whole digits) {n : Nat} (hn : 0 < n) : Whole (digits.take n) where
  isDigit _ hc := h.isDigit _ (List.mem_of_mem_take hc)
  head := by
    obtain ⟨k, rfl⟩ := Nat.exists_eq_add_of_le' hn
    rcases h.head with hzero | ⟨d, ds, hds, hd⟩
    · exact .inl (by rw [hzero]; simp)
    · exact .inr ⟨d, ds.take k, by rw [hds, List.take_succ_cons], hd⟩

/-- A whole part followed by zeros. -/
theorem Whole.append_zeros (h : Whole digits) {n : Nat} (hn : digits = ['0'] → n = 0) :
    Whole (digits ++ List.replicate n '0') where
  isDigit c hc := by
    rcases List.mem_append.mp hc with hc | hc
    · exact h.isDigit c hc
    · rw [List.eq_of_mem_replicate hc]
      rfl
  head := by
    rcases h.head with hzero | ⟨d, ds, hds, hd⟩
    · exact .inl (by rw [hn hzero, hzero]; rfl)
    · exact .inr ⟨d, ds ++ List.replicate n '0', by rw [hds, List.cons_append], hd⟩

/-- Positional notation is read. -/
theorem scanMagnitude_positionalText (negative : Bool) {d : Digits}
    (hzero : d.significand = 0 → d.exponent ≤ 0)
    (hlength : (natDigits d.significand).length + d.exponent ≤ 16) :
    ∃ n, ∀ rest, Ends rest →
      scanMagnitude negative (Decimal.positionalText true d ++ rest) = .ok (.ok n, rest) := by
  have hwhole := whole_natDigits d.significand
  have hpos := Decimal.length_natDigits_pos d.significand
  rw [Decimal.positionalText]
  dsimp only
  rw [if_pos rfl]
  split_ifs with hexponent hplaces
  · have hall : Whole (natDigits d.significand ++ List.replicate d.exponent.toNat '0') := by
      refine hwhole.append_zeros fun h => ?_
      have hsignificand : d.significand = 0 := by
        rw [← Decimal.valueOf_natDigits d.significand, h]
        rfl
      have := hzero hsignificand
      omega
    have hlt := valueOf_lt_wordLimit hall.isDigit (by
      rw [List.length_append, List.length_replicate]
      omega)
    have hpoint : ∀ c ∈ ['0'], c.isDigit := fun c hc => by
      rw [List.mem_singleton.mp hc]
      rfl
    have hscan := scanMagnitude_of_point negative hall hlt hpoint (by simp)
    simpa only [List.append_assoc, List.cons_append, List.nil_append] using hscan
  · have hall := hwhole.take (n := (natDigits d.significand).length - (-d.exponent).toNat)
      (by omega)
    have hlt := valueOf_lt_wordLimit hall.isDigit (by
      rw [List.length_take]
      omega)
    have hdrop : (natDigits d.significand).drop
        ((natDigits d.significand).length - (-d.exponent).toNat) ≠ [] := by
      rw [Ne, List.drop_eq_nil_iff]
      omega
    have hscan := scanMagnitude_of_point negative hall hlt
      (fun c hc => hwhole.isDigit c (List.mem_of_mem_drop hc)) hdrop
    simpa only [List.append_assoc, List.cons_append] using hscan
  · have hdigits : ∀ c ∈ List.replicate ((-d.exponent).toNat - (natDigits d.significand).length)
        '0' ++ natDigits d.significand, c.isDigit := by
      intro c hc
      rcases List.mem_append.mp hc with hc | hc
      · rw [List.eq_of_mem_replicate hc]
        rfl
      · exact hwhole.isDigit c hc
    have hscan := scanMagnitude_of_point negative (whole_natDigits 0) (by decide) hdigits
      (by simp [hwhole.ne_nil])
    have hnil : natDigits 0 = ['0'] := rfl
    simpa only [hnil, List.append_assoc, List.cons_append, List.nil_append] using hscan

/-- What is collected of the digits of a number behind the first of them. -/
theorem collect_natDigits {n : Nat} {first : Char} {tail : List Char}
    (h : natDigits n = first :: tail) (hfirst : first ≠ '0') :
    0 < (collect (valueOf [first] 0) tail).1 ∧ (collect (valueOf [first] 0) tail).1 < wordLimit ∧
      (collect (valueOf [first] 0) tail).2 ≤ tail.length ∧
      (collect (valueOf [first] 0) tail).1 *
        10 ^ (tail.length - (collect (valueOf [first] 0) tail).2) ≤ n ∧
      (n < wordLimit → collect (valueOf [first] 0) tail = (n, tail.length)) := by
  have hdigit : first.isDigit := Decimal.isDigit_of_mem_natDigits (n := n) (by rw [h]; simp)
  have hvalue : valueOf [first] 0 = first.toNat - '0'.toNat := by
    rw [valueOf, Nat.ofDigitChars_cons]
    simp
  have hsingle : ∀ c ∈ [first], c.isDigit := by simpa using hdigit
  have hle : valueOf [first] 0 < 10 := Decimal.valueOf_lt hsingle 0
  have hpos : 0 < valueOf [first] 0 := by
    rw [hvalue]
    have hlow := (Char.isDigit_iff_toNat.mp hdigit).1
    have hne : first.toNat ≠ '0'.toNat := fun h => hfirst (Char.toNat_inj.mp h)
    omega
  have hlimit : 10 < wordLimit := by decide
  have hn : valueOf tail (valueOf [first] 0) = n := by
    have happend : valueOf ([first] ++ tail) 0 = valueOf tail (valueOf [first] 0) :=
      Nat.ofDigitChars_append 0
    rw [← happend, List.singleton_append, ← h, Decimal.valueOf_natDigits]
  obtain ⟨hcount, hword, hmono, hprod⟩ := collect_le tail (hle.trans hlimit)
  rw [hn] at hprod
  refine ⟨by omega, hword, hcount, hprod, fun hlt => ?_⟩
  rw [← hn] at hlt ⊢
  exact collect_of_lt hlt

/-- Digits with a point behind the first of them, unless it is the only one. -/
def pointed : List Char → List Char
  | first :: second :: rest => first :: '.' :: second :: rest
  | short => short

theorem scientificText_eq (d : Digits) : Decimal.scientificText true d =
    pointed (natDigits d.significand) ++ ('e' ::
      (if d.exponent + ((natDigits d.significand).length - 1 : Nat) < 0 then '-' else '+') ::
        natDigits (d.exponent + ((natDigits d.significand).length - 1 : Nat)).natAbs) := by
  rw [Decimal.scientificText]
  rcases natDigits d.significand with _ | ⟨first, _ | ⟨second, rest⟩⟩ <;>
    split_ifs <;> simp_all [pointed]

/-- The digits of a mantissa are collected. -/
theorem scanMagnitude_pointed (negative : Bool) {first : Char} {tail : List Char}
    (hdigits : ∀ c ∈ first :: tail, c.isDigit) (hfirst : first ≠ '0') (exponentText : List Char) :
    ∃ plain, scanMagnitude negative (pointed (first :: tail) ++ 'e' :: exponentText) =
      scanExponent negative (collect (valueOf [first] 0) tail).1
        (0 - (collect (valueOf [first] 0) tail).2) plain ('e' :: exponentText) := by
  have hsingle : ∀ c ∈ [first], c.isDigit := by
    simpa using hdigits first List.mem_cons_self
  have hwhole : Whole [first] := ⟨hsingle, .inr ⟨first, [], rfl, hfirst⟩⟩
  have hlt := valueOf_lt_wordLimit hsingle (by simp)
  have he : ∀ c ∈ ('e' :: exponentText).head?, c.isDigit = false := by
    rintro c ⟨⟩
    rfl
  cases tail with
  | nil =>
      have hscan := scanMagnitude_of_whole negative hwhole hlt he
      rw [scanFraction] at hscan
      · exact ⟨_, hscan⟩
      · rintro cs ⟨⟩
  | cons second rest =>
      have hpoint : ∀ c ∈ ('.' :: (second :: rest) ++ 'e' :: exponentText).head?,
          c.isDigit = false := by
        rintro c ⟨⟩
        rfl
      have hscan := scanMagnitude_of_whole negative hwhole hlt hpoint
      rw [scanFraction_of_digits (fun c hc => hdigits c (List.mem_cons_of_mem _ hc)) (by simp) he]
        at hscan
      exact ⟨_, hscan⟩

theorem scaled?_of_collect {bits : Nat} {first : Char} {tail : List Char}
    (hbits : bits < 0x7FF0000000000000) (hfirst : first ≠ '0')
    (hds : natDigits ((Binary.ofMagnitudeBits bits).shortest .even).significand = first :: tail) :
    (scaled? 4 (Float.ofNat (collect (valueOf [first] 0) tail).1)
      (((Binary.ofMagnitudeBits bits).shortest .even).exponent + tail.length -
        (collect (valueOf [first] 0) tail).2)).isSome := by
  obtain ⟨hpos, hword, hcount, hprod, hexact⟩ := collect_natDigits hds hfirst
  obtain ⟨k, hk⟩ := Nat.exists_eq_add_of_le hcount
  refine scaled?_of_shortest hbits hpos hword ?_ fun hlt => ?_
  · generalize (Binary.ofMagnitudeBits bits).shortest .even = d at *
    have hexponent : d.exponent + tail.length - (collect (valueOf [first] 0) tail).2 =
        k + d.exponent := by omega
    have hcut : tail.length - (collect (valueOf [first] 0) tail).2 = k := by omega
    rw [hcut] at hprod
    have hcast : ((collect (valueOf [first] 0) tail).1 : ℚ) * 10 ^ k ≤ d.significand := by
      exact_mod_cast hprod
    rw [hexponent, zpow_add₀ (by norm_num), zpow_natCast, ← mul_assoc, Digits.value]
    gcongr
  · rw [hexact hlt, add_sub_cancel_right]

/-- The exponent of a double is far below the one that is not read any more. -/
theorem exponent_lt {bits : Nat} {first : Char} {tail : List Char}
    (hbits : bits < 0x7FF0000000000000)
    (hne : ((Binary.ofMagnitudeBits bits).shortest .even).significand ≠ 0)
    (hds : natDigits ((Binary.ofMagnitudeBits bits).shortest .even).significand = first :: tail) :
    valueOf (natDigits (((Binary.ofMagnitudeBits bits).shortest .even).exponent +
      tail.length).natAbs) 0 < exponentLimit := by
  obtain ⟨hsignificand, hleast, hgreatest⟩ := Binary.ofMagnitudeBits_bounds hbits
  have hbound := Binary.decimalBound_bounds hleast hgreatest hsignificand
  have hx : (Binary.ofMagnitudeBits bits).significand ≠ 0 := fun h =>
    hne (by rw [Binary.shortest, if_pos h])
  have hexponent := Binary.shortest_exponent hx .even
  have hlength := (Decimal.length_natDigits_le_iff (by decide)).mpr
    (Binary.shortest_significand_lt hbits .even)
  rw [hds, List.length_cons] at hlength
  rw [Decimal.valueOf_natDigits, exponentLimit]
  omega

/-- Scientific notation of the shortest decimal of a finite double is read. -/
theorem scanMagnitude_scientificText (negative : Bool) {bits : Nat}
    (hbits : bits < 0x7FF0000000000000)
    (hne : ((Binary.ofMagnitudeBits bits).shortest .even).significand ≠ 0) :
    ∃ n, ∀ rest, Ends rest → scanMagnitude negative (Decimal.scientificText true
      ((Binary.ofMagnitudeBits bits).shortest .even) ++ rest) = .ok (.ok n, rest) := by
  obtain ⟨first, tail, hds, hfirst⟩ := Decimal.exists_natDigits_eq_cons hne
  have hdigits : ∀ c ∈ first :: tail, c.isDigit := fun c hc =>
    Decimal.isDigit_of_mem_natDigits (hds ▸ hc)
  have hlimit := exponent_lt hbits hne hds
  obtain ⟨n, hn⟩ := floatOfParts_of_isSome negative (scaled?_of_collect hbits hfirst hds)
  refine ⟨n, fun rest hrest => ?_⟩
  rw [scientificText_eq, hds]
  generalize (Binary.ofMagnitudeBits bits).shortest .even = d at *
  have hz : d.exponent + ((first :: tail).length - 1 : Nat) = d.exponent + tail.length := rfl
  rw [hz]
  generalize d.exponent + tail.length = z at *
  obtain ⟨plain, hplain⟩ := scanMagnitude_pointed negative hdigits hfirst
    ((if z < 0 then '-' else '+') :: natDigits z.natAbs ++ rest)
  have hform : pointed (first :: tail) ++
      ('e' :: (if z < 0 then '-' else '+') :: natDigits z.natAbs) ++ rest =
        pointed (first :: tail) ++
          'e' :: ((if z < 0 then '-' else '+') :: natDigits z.natAbs ++ rest) := by
    simp
  rw [hform, hplain]
  have hscan := @scanExponent_of_digits (natDigits z.natAbs) rest negative
    (collect (valueOf [first] 0) tail).1 (0 - (collect (valueOf [first] 0) tail).2) plain
    (fun c hc => Decimal.isDigit_of_mem_natDigits hc) (Decimal.natDigits_ne_nil _) hlimit hrest
  rw [Decimal.valueOf_natDigits] at hscan
  rcases lt_or_ge z 0 with hneg | hpos
  · have hexponent : 0 - ((collect (valueOf [first] 0) tail).2 : Int) - z.natAbs =
        z - (collect (valueOf [first] 0) tail).2 := by omega
    rw [if_pos hneg]
    rw [← hn, ← hexponent]
    exact hscan true
  · have hexponent : 0 - ((collect (valueOf [first] 0) tail).2 : Int) + z.natAbs =
        z - (collect (valueOf [first] 0) tail).2 := by omega
    rw [if_neg (by omega), ← hn, ← hexponent]
    exact hscan false

/-- The text of the magnitude of a finite double is read. -/
theorem scanMagnitude_writeDigits (negative : Bool) {bits : Nat}
    (hbits : bits < 0x7FF0000000000000) :
    ∃ n, ∀ rest, Ends rest → scanMagnitude negative (floatLayout.writeDigits
      ((Binary.ofMagnitudeBits bits).shortest .even) ++ rest) = .ok (.ok n, rest) := by
  obtain ⟨hsignificand, -, hgreatest⟩ := Binary.ofMagnitudeBits_bounds hbits
  have hzero : ((Binary.ofMagnitudeBits bits).shortest .even).significand = 0 →
      ((Binary.ofMagnitudeBits bits).shortest .even).exponent ≤ 0 := fun h =>
    Binary.shortest_of_zero h hgreatest hsignificand
  have hpos := Decimal.length_natDigits_pos
    ((Binary.ofMagnitudeBits bits).shortest .even).significand
  rw [Decimal.Layout.writeDigits]
  split_ifs with hpositional
  · refine scanMagnitude_positionalText negative hzero ?_
    generalize (Binary.ofMagnitudeBits bits).shortest .even = d at *
    rcases Bool.or_eq_true_iff.mp hpositional with h | h
    · have hd : d.significand = 0 := of_decide_eq_true h
      have hlength : (natDigits d.significand).length = 1 := by
        rw [hd]
        rfl
      have := hzero hd
      omega
    · have hrange : -5 ≤ d.exponent + ((natDigits d.significand).length - 1 : Nat) ∧
          d.exponent + ((natDigits d.significand).length - 1 : Nat) ≤ 15 := by
        simpa [Decimal.Layout.isPositional, floatLayout] using h
      omega
  · refine scanMagnitude_scientificText negative hbits fun h => hpositional ?_
    simp [h]

/-- The text of a finite double is read as a number. -/
theorem scanNumber_floatText {x : Float} (hx : x.isFinite) :
    ∃ n, ∀ rest, Ends rest → scanNumber (floatLayout.write x ++ rest) = .ok (.ok n, rest) := by
  have hbits := Decimal.magnitude_lt hx
  rw [Decimal.Layout.write]
  rw [if_neg hbits.ne, if_neg (by omega)]
  have hread (negative : Bool) := scanMagnitude_writeDigits negative hbits
  split_ifs
  · obtain ⟨n, hn⟩ := hread true
    refine ⟨n, fun rest hrest => ?_⟩
    rw [List.singleton_append, List.cons_append, scanNumber]
    exact hn rest hrest
  · obtain ⟨n, hn⟩ := hread false
    refine ⟨n, fun rest hrest => ?_⟩
    rw [List.nil_append]
    exact scanNumber_of_scanMagnitude (hn rest hrest)

/-- The text of a number is read as a number. -/
theorem scanNumber_numberText {n : Number} (h : n.Valid) :
    ∃ m, ∀ rest, Ends rest → scanNumber (numberText n ++ rest) = .ok (.ok m, rest) := by
  cases n with
  | int n => exact ⟨_, fun rest => scanNumber_intText h.1 h.2⟩
  | float x => exact scanNumber_floatText h

end Json

end Stencil
