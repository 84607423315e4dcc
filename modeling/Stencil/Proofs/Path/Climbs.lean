/-
Paths that lead up.

Where a path ends is given by how often it leads up from where it starts and by the names through
which it leads down from there.  The address of a fetch path is the root of the store, then as many
`..` segments as the path leads up, and then the names: slashes in front of a path are taken away
before it is placed below the root, but `..` segments are not.
-/
import Mathlib
import Stencil.Proofs.Path.Canonical
import Stencil.Proofs.Path.Significant

namespace Stencil.Path

variable {p : List Char} {s : Segment}

/-- How often a path leads up from where it starts. -/
def climbs (p : List Char) : Nat := (location (isAbsolute p) p).count parent

/-- The names through which a path then leads down. -/
def descent (p : List Char) : List Segment :=
  (location (isAbsolute p) p).reverse.filter (· ≠ parent)

/-- The stack of a path is its climbs and its descent. -/
theorem reverse_location (p : List Char) :
    (location (isAbsolute p) p).reverse = List.replicate (climbs p) parent ++ descent p := by
  obtain ⟨n, names, hstack, hnames, -⟩ := (standing_location (isAbsolute p) p).exists_climbs
  have hparent : parent ∉ names := fun hmem => (hnames parent hmem).2.2.2 rfl
  have hclimbs : climbs p = n := by
    rw [climbs, hstack, List.count_append, List.count_eq_zero.mpr hparent,
      List.count_replicate_self, Nat.zero_add]
  have hdescent : descent p = names.reverse := by
    rw [descent, hstack, List.reverse_append, List.filter_append, List.reverse_replicate]
    have hnone : (List.replicate n parent).filter (fun s => decide (s ≠ parent)) = [] := by
      simp
    have hall : names.reverse.filter (fun s => decide (s ≠ parent)) = names.reverse := by
      refine List.filter_eq_self.mpr fun s hs => ?_
      exact decide_eq_true (hnames s (List.mem_reverse.mp hs)).2.2.2
    rw [hnone, hall, List.nil_append]
  rw [hclimbs, hdescent, hstack, List.reverse_append, List.reverse_replicate]

theorem isName_of_mem_descent (h : s ∈ descent p) : IsName s := by
  rw [descent, List.mem_filter, List.mem_reverse] at h
  obtain ⟨hmem, hne⟩ := h
  obtain ⟨hempty, hhere, hslash⟩ := (standing_location (isAbsolute p) p).mem hmem
  exact ⟨hslash, hempty, hhere, of_decide_eq_true hne⟩

theorem isAbsolute_append (h : isAbsolute p) (q : List Char) : isAbsolute (p ++ q) := by
  obtain ⟨rest, rfl⟩ := exists_of_isAbsolute h
  rfl

theorem isAbsolute_normalize (path : String) :
    isAbsolute (normalize path).toList = isAbsolute path.toList := by
  rw [normalize, String.toList_ofList, normalizeChars_eq,
    isAbsolute_ofSegments (standing_location _ _)]

/-- An absolute path does not lead up, for the root has no parent. -/
theorem climbs_of_isAbsolute (h : isAbsolute p) : climbs p = 0 := by
  obtain ⟨n, names, hstack, hnames, habsolute⟩ :=
    (standing_location (isAbsolute p) p).exists_climbs
  rw [climbs, hstack, habsolute h, List.replicate_zero, List.append_nil, List.count_eq_zero]
  exact fun hmem => (hnames parent hmem).2.2.2 rfl

/-- A path leads as often up as it has climbs, and then down through its descent. -/
theorem follow_eq (dir : List Segment) (p : List Char) :
    follow dir p = (descent p).reverse ++ (if isAbsolute p then [] else dir).drop (climbs p) := by
  have hstack := congrArg List.reverse (reverse_location p)
  rw [List.reverse_reverse, List.reverse_append, List.reverse_replicate] at hstack
  rw [← foldl_enter_location, hstack, foldl_enter_append fun s hs =>
    isName_of_mem_descent (List.mem_reverse.mp hs)]

/-! ## Addresses -/

/-- The segments of a path in normal form without its slash are those of its stack; where there are
none, an idle one stands for them. -/
theorem moving_segments_relativeChars (p : List Char) :
    moving (segments (relativeChars (normalizeChars p))) =
      List.replicate (climbs p) parent ++ descent p := by
  have hstanding := standing_location (isAbsolute p) p
  rw [relativeChars_normalizeChars, ← reverse_location]
  by_cases hloc : location (isAbsolute p) p = []
  · rw [hloc]
    rfl
  · rw [segments_joinSegments (by simpa using hloc) fun s hs =>
      (hstanding.mem (List.mem_reverse.mp hs)).2.2]
    refine moving_eq_self fun s hs hidle => ?_
    obtain ⟨hempty, hhere, -⟩ := hstanding.mem (List.mem_reverse.mp hs)
    exact hidle.elim hempty hhere

theorem isAbsolute_relativeChars (p : List Char) :
    isAbsolute (relativeChars (normalizeChars p)) = false := by
  have hhead := head?_joinSegments (standing_location (isAbsolute p) p)
  rw [relativeChars_normalizeChars, isAbsolute, beq_eq_false_iff_ne]
  exact hhead

/-- The segments of an address are those of the root and, as far as they lead further, the climbs
and the descent of the fetch path. -/
theorem exists_segments_address (root path : String) :
    ∃ below, segments (Place.address (.directory root) path).toList =
        baseSegments root.toList ++ below ∧
      moving below = List.replicate (climbs path.toList) parent ++ descent path.toList := by
  refine ⟨_, ?_, moving_segments_relativeChars path.toList⟩
  rw [Place.address, String.toList_ofList,
    segments_joinChars _ (isAbsolute_relativeChars path.toList)]

theorem parent_mem_moving {all : List Segment} : parent ∈ moving all ↔ parent ∈ all := by
  rw [moving, List.mem_filter, and_iff_left (by decide)]

/-- The rest of an address leads up exactly if the fetch path does. -/
theorem parent_mem_iff {below : List Segment}
    (h : moving below = List.replicate (climbs p) parent ++ descent p) :
    parent ∈ below ↔ climbs p ≠ 0 := by
  rw [← parent_mem_moving, h, List.mem_append, List.mem_replicate]
  have hdescent : parent ∉ descent p := fun hmem => (isName_of_mem_descent hmem).2.2.2 rfl
  simp [hdescent]

end Stencil.Path
