/-
Strings in JSON texts.

What is written for a string is read as that string: every character is written out or by an
escape of its own, and no escape of a written string is one half of a pair.
-/
import Mathlib
import Stencil.Json.StringText
import Stencil.Json.Writer

namespace Stencil.Json

variable {read rest : List Char} {c : Char}

/-! ## Characters -/

theorem scanString_short {e : Char} (h : shortEscape? e = some c) :
    scanString ⟨read, none, none⟩ ('\\' :: e :: rest) =
      scanString ⟨c :: read, none, none⟩ rest := by
  have hu : e ≠ 'u' := by
    rintro rfl
    cases h
  simp [scanString, h, hu, Partial.push, Partial.close]

theorem scanString_plain (hquote : c ≠ '"') (hslash : c ≠ '\\') (hlow : 0x20 ≤ c.toNat) :
    scanString ⟨read, none, none⟩ (c :: rest) = scanString ⟨c :: read, none, none⟩ rest := by
  have hnot : ¬ c.toNat < 0x20 := by omega
  simp [scanString, hslash, hnot, Partial.push, Partial.close]

theorem hexUnit?_hexDigit : ∀ n < 0x20,
    hexUnit? '0' '0' (hexDigit (n / 16)) (hexDigit (n % 16)) = some n := by decide

theorem scanString_unit (hlow : c.toNat < 0x20) :
    scanString ⟨read, none, none⟩
        ('\\' :: 'u' :: '0' :: '0' :: hexDigit (c.toNat / 16) :: hexDigit (c.toNat % 16) :: rest) =
      scanString ⟨c :: read, none, none⟩ rest := by
  have hunit := hexUnit?_hexDigit c.toNat hlow
  have hpush : Partial.pushUnit ⟨read, none, none⟩ c.toNat = ⟨c :: read, none, none⟩ := by
    have htrail : ¬ (0xDC00 ≤ c.toNat ∧ c.toNat ≤ 0xDFFF) := by omega
    have hlead : ¬ (0xD800 ≤ c.toNat ∧ c.toNat ≤ 0xDBFF) := by omega
    rw [Partial.pushUnit]
    dsimp only
    rw [if_neg htrail, if_neg hlead, Char.ofNat_toNat]
  rw [scanString, hunit]
  dsimp only
  rw [hpush]

/-- A written character is read as that character. -/
theorem scanString_escapeChar (read : List Char) (c : Char) (rest : List Char) :
    scanString ⟨read, none, none⟩ (escapeChar c ++ rest) =
      scanString ⟨c :: read, none, none⟩ rest := by
  rw [escapeChar]
  by_cases hquote : c = '"'
  · rw [if_pos hquote]
    exact scanString_short (by rw [hquote]; rfl)
  rw [if_neg hquote]
  by_cases hslash : c = '\\'
  · rw [if_pos hslash]
    exact scanString_short (by rw [hslash]; rfl)
  rw [if_neg hslash]
  by_cases hshown : 0x20 ≤ c.toNat
  · rw [if_pos hshown]
    exact scanString_plain hquote hslash hshown
  rw [if_neg hshown]
  by_cases hback : c = '\x08'
  · rw [if_pos hback]
    exact scanString_short (by rw [hback]; rfl)
  rw [if_neg hback]
  by_cases hfeed : c = '\x0c'
  · rw [if_pos hfeed]
    exact scanString_short (by rw [hfeed]; rfl)
  rw [if_neg hfeed]
  by_cases hline : c = '\n'
  · rw [if_pos hline]
    exact scanString_short (by rw [hline]; rfl)
  rw [if_neg hline]
  by_cases hreturn : c = '\r'
  · rw [if_pos hreturn]
    exact scanString_short (by rw [hreturn]; rfl)
  rw [if_neg hreturn]
  by_cases htab : c = '\t'
  · rw [if_pos htab]
    exact scanString_short (by rw [htab]; rfl)
  rw [if_neg htab]
  exact scanString_unit (by omega)

/-! ## Strings -/

theorem scanString_flatMap_escapeChar (read text rest : List Char) :
    scanString ⟨read, none, none⟩ (text.flatMap escapeChar ++ '"' :: rest) =
      .ok (.ok (String.ofList (read.reverse ++ text)), rest) := by
  induction text generalizing read with
  | nil =>
      rw [List.flatMap_nil, List.nil_append, scanString, List.append_nil]
      rfl
  | cons c text ih =>
      rw [List.flatMap_cons, List.append_assoc, scanString_escapeChar, ih]
      simp

/-- A written string is read as that string. -/
theorem scanString_stringText (s : String) (rest : List Char) :
    scanString ⟨[], none, none⟩ (s.toList.flatMap escapeChar ++ '"' :: rest) =
      .ok (.ok s, rest) := by
  rw [scanString_flatMap_escapeChar, List.reverse_nil, List.nil_append, String.ofList_toList]

end Stencil.Json
