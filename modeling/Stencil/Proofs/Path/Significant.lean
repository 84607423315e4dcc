/-
Segments that lead nowhere.

A segment that is empty or a dot leads from a directory to that directory.  Paths are compared
without such segments, except for a dot in front; the directory above a path has one of the other
segments less.
-/
import Mathlib
import Stencil.Files.Glob
import Stencil.Proofs.Path

namespace Stencil

namespace Path

variable {p : List Char} {all more : List Segment} {s : Segment}

/-- Whether a segment leads from a directory to that directory. -/
def Idle (s : Segment) : Prop := s = [] ∨ s = here

instance (s : Segment) : Decidable (Idle s) := inferInstanceAs (Decidable (_ ∨ _))

/-- Whether a path names the working directory by `.`; entries are named without it. -/
def AtHere (p : List Char) : Prop := significant p = [here]

theorem atHere_iff : AtHere p ↔ ∃ rest, segments p = here :: rest ∧ ∀ s ∈ rest, Idle s := by
  obtain ⟨first, rest, hsegments⟩ := List.exists_cons_of_ne_nil (segments_ne_nil p)
  rw [AtHere, significant, hsegments]
  dsimp only
  have hfilter : (rest.filter fun s => decide (s ≠ [] ∧ s ≠ here)) = [] ↔
      ∀ s ∈ rest, Idle s := by
    rw [List.filter_eq_nil_iff]
    simp only [decide_eq_true_eq, Idle, not_and_or, not_not]
  by_cases hfirst : first = []
  · subst hfirst
    rw [if_pos rfl, List.nil_append]
    constructor
    · intro h
      have hmem : here ∈ rest.filter fun s => decide (s ≠ [] ∧ s ≠ here) := by
        rw [h]
        exact List.mem_cons_self
      simp at hmem
    · rintro ⟨rest', h, -⟩
      cases h
  · rw [if_neg hfirst, List.singleton_append, List.cons.injEq, hfilter]
    constructor
    · rintro ⟨rfl, h⟩
      exact ⟨rest, rfl, h⟩
    · rintro ⟨rest', h, hidle⟩
      cases h
      exact ⟨rfl, hidle⟩

/-- The segments that lead further. -/
def moving (all : List Segment) : List Segment := all.filter fun s => s ≠ [] ∧ s ≠ here

theorem moving_cons_of_idle (h : Idle s) : moving (s :: all) = moving all :=
  List.filter_cons_of_neg (by rcases h with rfl | rfl <;> simp)

theorem moving_cons (h : ¬ Idle s) : moving (s :: all) = s :: moving all :=
  List.filter_cons_of_pos (by simpa [Idle, not_or] using h)

theorem moving_append : moving (all ++ more) = moving all ++ moving more := List.filter_append ..

theorem moving_eq_self (h : ∀ s ∈ all, ¬ Idle s) : moving all = all := by
  induction all with
  | nil => rfl
  | cons s all ih =>
      rw [moving_cons (h s List.mem_cons_self), ih fun s hs => h s (List.mem_cons_of_mem _ hs)]

theorem not_idle_of_mem_moving (h : s ∈ moving all) : ¬ Idle s := by
  have hkept := (List.mem_filter.mp h).2
  simpa [Idle, not_or] using hkept

/-- The segments that lead further; a dot in front of them stays. -/
def trim : List Segment → List Segment
  | [] => []
  | first :: rest => (if first = [] then [] else [first]) ++ moving rest

theorem significant_eq (p : List Char) : significant p = trim (segments p) := by
  rw [significant]
  cases segments p <;> rfl

theorem trim_eq_self (h : ∀ s ∈ all, ¬ Idle s) : trim all = all := by
  cases all with
  | nil => rfl
  | cons first rest =>
      have hfirst : first ≠ [] := fun hnil => h first List.mem_cons_self (.inl hnil)
      rw [trim, if_neg hfirst, moving_eq_self fun s hs => h s (List.mem_cons_of_mem _ hs)]
      rfl

theorem trim_append (h : ∀ s ∈ more, ¬ Idle s) : trim (all ++ more) = trim all ++ more := by
  cases all with
  | nil => exact trim_eq_self h
  | cons first rest =>
      rw [List.cons_append, trim, trim, moving_append, moving_eq_self h, List.append_assoc]

theorem moving_trim (all : List Segment) : moving (trim all) = moving all := by
  cases all with
  | nil => rfl
  | cons first rest =>
      have hrest : moving (moving rest) = moving rest :=
        moving_eq_self fun s hs => not_idle_of_mem_moving hs
      rw [trim]
      by_cases hfirst : first = []
      · rw [if_pos hfirst, moving_cons_of_idle (.inl hfirst), List.nil_append, hrest]
      · rw [if_neg hfirst, moving_append, hrest, ← moving_append]
        rfl

theorem mem_of_mem_trim (h : s ∈ trim all) : s ∈ all := by
  cases all with
  | nil => cases h
  | cons first rest =>
      rw [trim] at h
      rcases List.mem_append.mp h with h | h
      · split at h
        · cases h
        · rw [List.mem_singleton.mp h]
          exact List.mem_cons_self
      · exact List.mem_cons_of_mem _ (List.mem_filter.mp h).1

theorem trim_of_ne_nil {first : Segment} {rest : List Segment} (h : first ≠ []) :
    trim (first :: rest) = first :: moving rest := by
  rw [trim, if_neg h]
  rfl

theorem trim_nil_cons (rest : List Segment) : trim ([] :: rest) = moving rest := rfl

/-! ## The directory above a path -/

theorem significant_ofSegments_absolute (hslash : ∀ s ∈ all, '/' ∉ s) (h : ∀ s ∈ all, ¬ Idle s) :
    significant (ofSegments true all) = all := by
  rw [significant_eq, ofSegments, if_pos rfl, segments, if_pos rfl, trim_nil_cons]
  by_cases hnil : all = []
  · rw [hnil]
    rfl
  · rw [segments_joinSegments hnil hslash, moving_eq_self h]

theorem significant_ofSegments_relative {first : Segment} (hfirst : first ≠ [])
    (hslash : ∀ s ∈ first :: all, '/' ∉ s) (h : ∀ s ∈ all, ¬ Idle s) :
    significant (ofSegments false (first :: all)) = first :: all ∧
      isAbsolute (ofSegments false (first :: all)) = false := by
  have hjoin := segments_joinSegments (List.cons_ne_nil first all) hslash
  rw [ofSegments, if_neg Bool.false_ne_true]
  refine ⟨?_, isAbsolute_of_head hjoin hfirst⟩
  rw [significant_eq, hjoin, trim_of_ne_nil hfirst, moving_eq_self h]

/-- A relative path starts with a name unless it is empty. -/
theorem head_ne_nil_of_relative {first : Segment} {rest : List Segment} (hne : p ≠ [])
    (hrelative : isAbsolute p = false) (h : segments p = first :: rest) : first ≠ [] := by
  obtain ⟨c, cs, rfl⟩ := List.exists_cons_of_ne_nil hne
  have hc : ¬ c = '/' := by
    rintro rfl
    cases hrelative
  obtain ⟨second, more, hmore⟩ := List.exists_cons_of_ne_nil (segments_ne_nil cs)
  rw [segments, if_neg hc, hmore] at h
  cases h
  exact List.cons_ne_nil _ _

/-- The directory above a path has one segment less. -/
theorem significant_ofSegments_dropLast (p : List Char) (hne : significant p ≠ []) :
    significant (ofSegments (isAbsolute p) (significant p).dropLast) = (significant p).dropLast ∧
      isAbsolute (ofSegments (isAbsolute p) (significant p).dropLast) = isAbsolute p := by
  obtain ⟨first, rest, hsegments⟩ := List.exists_cons_of_ne_nil (segments_ne_nil p)
  have hslash : ∀ s ∈ first :: rest, '/' ∉ s := by
    rw [← hsegments]
    exact fun s hs => not_mem_of_mem_segments hs
  have hmoving : ∀ s ∈ (moving rest).dropLast, ¬ Idle s := fun s hs =>
    not_idle_of_mem_moving (List.mem_of_mem_dropLast hs)
  have hrest : ∀ s ∈ (moving rest).dropLast, '/' ∉ s := fun s hs =>
    hslash s (List.mem_cons_of_mem _ (List.mem_filter.mp (List.mem_of_mem_dropLast hs)).1)
  have hp : significant p = trim (first :: rest) := by rw [significant_eq, hsegments]
  rw [hp] at hne ⊢
  by_cases habs : isAbsolute p
  · obtain ⟨cs, rfl⟩ := exists_of_isAbsolute habs
    rw [segments, if_pos rfl, List.cons.injEq] at hsegments
    obtain ⟨rfl, -⟩ := hsegments
    rw [habs, trim_nil_cons]
    exact ⟨significant_ofSegments_absolute hrest hmoving, rfl⟩
  · rw [Bool.not_eq_true] at habs
    by_cases hempty : p = []
    · subst hempty
      cases hsegments
      exact absurd rfl hne
    · have hfirst := head_ne_nil_of_relative hempty habs hsegments
      rw [habs, trim_of_ne_nil hfirst]
      by_cases hnil : moving rest = []
      · rw [hnil]
        exact ⟨rfl, rfl⟩
      · rw [List.dropLast_cons_of_ne_nil hnil]
        refine significant_ofSegments_relative hfirst (fun s hs => ?_) hmoving
        rcases List.mem_cons.mp hs with rfl | hs
        · exact hslash _ List.mem_cons_self
        · exact hrest s hs

end Path

end Stencil
