/-
Laws of searches in a text.
-/
import Mathlib
import Stencil.Text.Search

namespace Stencil.Text

/-- Stripping finds exactly the texts that begin with the given start. -/
theorem strip?_eq_some_iff {start text rest : List Char} :
    strip? start text = some rest ↔ text = start ++ rest := by
  induction start generalizing text with
  | nil => simp [strip?, eq_comm]
  | cons p ps ih =>
      cases text with
      | nil => simp [strip?]
      | cons c cs =>
          rw [strip?]
          by_cases h : p = c
          · rw [if_pos h, ih, h]
            simp
          · have h' : ¬ c = p := fun hc => h hc.symm
            simp [h, h']

theorem strip?_append (start rest : List Char) : strip? start (start ++ rest) = some rest :=
  strip?_eq_some_iff.mpr rfl

/-- A text splits at the first separator. -/
theorem splitOnce?_append {sep : Char} {first : List Char} (h : sep ∉ first) (rest : List Char) :
    splitOnce? sep (first ++ sep :: rest) = some (first, rest) := by
  induction first with
  | nil => simp [splitOnce?]
  | cons c cs ih =>
      have hc : ¬ c = sep := fun hc => h (by simp [hc])
      have hcs : sep ∉ cs := fun hmem => h (List.mem_cons_of_mem _ hmem)
      rw [List.cons_append, splitOnce?, if_neg hc, ih hcs]
      rfl

theorem splitOnce?_of_not_mem {sep : Char} {text : List Char} (h : sep ∉ text) :
    splitOnce? sep text = none := by
  induction text with
  | nil => rfl
  | cons c cs ih =>
      obtain ⟨hc, hcs⟩ := List.ne_and_not_mem_of_not_mem_cons h
      rw [splitOnce?, if_neg hc.symm, ih hcs]
      rfl

end Stencil.Text
