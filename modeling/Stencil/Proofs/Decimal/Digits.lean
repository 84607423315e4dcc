/-
Decimal digits.

The digits of a number are digits, do not start with a needless zero, and stand for the number.
-/
import Mathlib
import Stencil.Decimal.Layout

namespace Stencil.Decimal

/-- The number that digits stand for behind those of another number. -/
abbrev valueOf (digits : List Char) (front : Nat) : Nat := Nat.ofDigitChars 10 digits front

theorem isDigit_of_mem_natDigits {n : Nat} {c : Char} (h : c ∈ natDigits n) : c.isDigit :=
  Nat.isDigit_of_mem_toDigits (by decide) (by decide) h

theorem natDigits_ne_nil (n : Nat) : natDigits n ≠ [] := Nat.toDigits_ne_nil

theorem valueOf_natDigits (n : Nat) : valueOf (natDigits n) 0 = n := Nat.ofDigitChars_ten_toDigits

theorem valueOf_eq (digits : List Char) (front : Nat) :
    valueOf digits front = 10 ^ digits.length * front + valueOf digits 0 :=
  Nat.ofDigitChars_eq_ofDigitChars_zero

/-- Digits stand for less than their number allows. -/
theorem valueOf_lt {digits : List Char} (h : ∀ c ∈ digits, c.isDigit) (front : Nat) :
    valueOf digits front < (front + 1) * 10 ^ digits.length := by
  induction digits generalizing front with
  | nil => simp [valueOf]
  | cons c cs ih =>
      have hcons : valueOf (c :: cs) front = valueOf cs (10 * front + (c.toNat - '0'.toNat)) :=
        Nat.ofDigitChars_cons
      have hc : c.toNat - '0'.toNat ≤ 9 := by
        have hle := (Char.isDigit_iff_toNat.mp (h c List.mem_cons_self)).2
        have hzero : '0'.toNat = 48 := rfl
        have hnine : '9'.toNat = 57 := rfl
        omega
      have := ih (fun d hd => h d (List.mem_cons_of_mem _ hd)) (10 * front + (c.toNat - '0'.toNat))
      rw [hcons]
      calc _ < _ := this
        _ ≤ (front + 1) * 10 * 10 ^ cs.length := Nat.mul_le_mul_right _ (by omega)
        _ = _ := by rw [List.length_cons, pow_succ]; ring

theorem natDigits_of_lt {n : Nat} (h : n < 10) : natDigits n = [Nat.digitChar n] :=
  Nat.toDigits_of_lt_base h

/-- A number other than zero does not start with a zero. -/
theorem exists_natDigits_eq_cons {n : Nat} (hn : n ≠ 0) :
    ∃ d ds, natDigits n = d :: ds ∧ d ≠ '0' := by
  induction n using Nat.strong_induction_on with
  | _ n ih =>
      by_cases h : n < 10
      · exact ⟨_, [], natDigits_of_lt h, by simpa using hn⟩
      · have hlong : 10 ≤ n := by omega
        obtain ⟨d, ds, hds, hd⟩ := ih (n / 10) (by omega) (by omega)
        refine ⟨d, ds ++ [Nat.digitChar (n % 10)], ?_, hd⟩
        rw [natDigits, Nat.toDigits_of_base_le (by decide) hlong]
        rw [natDigits] at hds
        rw [hds, List.cons_append]

theorem length_natDigits_le_iff {n k : Nat} (hk : 0 < k) :
    (natDigits n).length ≤ k ↔ n < 10 ^ k := Nat.length_toDigits_le_iff (by decide) hk

theorem length_natDigits_pos (n : Nat) : 0 < (natDigits n).length := Nat.length_toDigits_pos

end Stencil.Decimal
