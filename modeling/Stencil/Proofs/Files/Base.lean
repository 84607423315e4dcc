/-
Places below a directory.

A directory that is given by its path leads to a place, from which the paths below it are followed.
A path of names below it leads to a place behind that one.  What is made on the way along such a
path is on the way to the directory or behind it.
-/
import Mathlib
import Stencil.Proofs.Files.Fresh

namespace Stencil

namespace Path

variable {all idle : List Segment} {p : List Char}

theorem trim_append_idle (hne : all ≠ []) (hidle : ∀ s ∈ idle, Idle s) :
    trim (all ++ idle) = trim all := by
  obtain ⟨first, rest, rfl⟩ := List.exists_cons_of_ne_nil hne
  have hnil : moving idle = [] := by
    refine List.filter_eq_nil_iff.mpr fun s hs => ?_
    rcases hidle s hs with rfl | rfl <;> simp
  rw [List.cons_append, trim, trim, moving_append, hnil, List.append_nil]

/-- The slash at the end of a path does not count. -/
theorem trim_baseSegments (p : List Char) : trim (baseSegments p) = significant p := by
  by_cases hp : p = []
  · rw [hp]
    rfl
  · obtain ⟨hne, idle, hsplit, hidle⟩ := exists_segments_eq_baseSegments hp
    rw [significant_eq, hsplit, trim_append_idle hne fun s hs => .inl (hidle s hs)]

end Path

namespace FileSystem

open Stencil.Path (Plain Segment segments baseSegments moving trim Idle significant)

variable {fs fs' : FileSystem} {directory : String} {place place' base : List String}
  {all : List Segment} {p : List Char}

/-! ## Where a directory leads -/

/-- The place from which the paths below a directory are followed. -/
def baseOf (fs : FileSystem) (directory : String) : Except FileFault (List String) :=
  (baseSegments directory.toList).foldlM fs.follow (fs.startOf directory)

theorem baseOf_mono (h : Extends fs fs') (hbase : fs.baseOf directory = .ok base) :
    fs'.baseOf directory = .ok base := by
  rw [baseOf, startOf_congr h.workDir]
  exact foldlM_follow_mono h hbase

/-- Whether a place is behind the one that a directory leads to. -/
def Below (fs : FileSystem) (directory : String) (place : List String) : Prop :=
  ∃ base names, fs.baseOf directory = .ok base ∧ names ≠ [] ∧ place = base ++ names

theorem Below.mono (h : Below fs directory place) (hextends : Extends fs fs') :
    Below fs' directory place := by
  obtain ⟨base, names, hbase, hnames, rfl⟩ := h
  exact ⟨base, names, baseOf_mono hextends hbase, hnames, rfl⟩

theorem segments_map_ne_nil (p : List Char) : (segments p).map String.ofList ≠ [] := by
  rw [Ne, List.map_eq_nil_iff]
  exact Path.segments_ne_nil p

theorem below_of_locate (hp : Plain p) (h : fs.locate (pathBelow directory p) = .ok place) :
    Below fs directory place := by
  obtain ⟨base, hbase, rfl⟩ := exists_of_locate_join hp h
  exact ⟨base, _, hbase, segments_map_ne_nil p, rfl⟩

/-! ## The way there -/

theorem isDirectoryAt_of_foldlM (h : all.foldlM fs.follow place = .ok place')
    (hdir : fs.isDirectoryAt place') : fs.isDirectoryAt place := by
  cases all with
  | nil =>
      cases h
      exact hdir
  | cons s all =>
      rw [List.foldlM_cons] at h
      obtain ⟨between, hbetween, -⟩ := Activity.bind_eq_ok.mp h
      exact isDirectoryAt_of_follow hbetween

/-- A way to a directory leads there with its idle segments, too. -/
theorem foldlM_of_moving (h : (moving all).foldlM fs.follow place = .ok place')
    (hdir : fs.isDirectoryAt place') : all.foldlM fs.follow place = .ok place' := by
  induction all generalizing place with
  | nil => exact h
  | cons s all ih =>
      by_cases hs : Idle s
      · rw [Path.moving_cons_of_idle hs] at h
        rw [List.foldlM_cons, follow_idle (isDirectoryAt_of_foldlM h hdir) hs]
        exact ih h
      · rw [Path.moving_cons hs, List.foldlM_cons] at h
        obtain ⟨between, hbetween, hrest⟩ := Activity.bind_eq_ok.mp h
        rw [List.foldlM_cons, hbetween]
        exact ih hrest

theorem foldlM_of_trim (h : (trim all).foldlM fs.follow place = .ok place')
    (hdir : fs.isDirectoryAt place') : all.foldlM fs.follow place = .ok place' := by
  cases all with
  | nil => exact h
  | cons first rest =>
      rw [trim] at h
      split at h
      next hfirst =>
        rw [List.foldlM_cons, follow_idle (isDirectoryAt_of_foldlM h hdir) (.inl hfirst)]
        exact foldlM_of_moving h hdir
      next =>
        rw [List.singleton_append, List.foldlM_cons] at h
        obtain ⟨between, hbetween, hrest⟩ := Activity.bind_eq_ok.mp h
        rw [List.foldlM_cons, hbetween]
        exact foldlM_of_moving hrest hdir

/-- What is on the way along a path of names below a directory is on the way to the directory or
behind it. -/
theorem OnTheWay.of_pathBelow (hp : Plain p) (h : OnTheWay fs (pathBelow directory p) place) :
    OnTheWay fs directory place ∨ Below fs directory place := by
  obtain ⟨front, hfront, hfold⟩ := h
  rw [significant_pathBelow hp, Path.trim_baseSegments] at hfront
  rw [startOf_pathBelow hp] at hfold
  rcases List.prefix_or_prefix_of_prefix hfront (List.prefix_append _ _) with hshort | ⟨rest, hrest⟩
  · exact .inl ⟨front, hshort, hfold⟩
  · subst hrest
    rw [List.prefix_append_right_inj] at hfront
    rw [List.foldlM_append] at hfold
    obtain ⟨between, hbetween, hfold⟩ := Activity.bind_eq_ok.mp hfold
    by_cases hnil : rest = []
    · subst hnil
      cases hfold
      exact .inl ⟨_, List.prefix_refl _, hbetween⟩
    · -- The path goes on behind the directory, so that is one.
      have hdir : fs.isDirectoryAt between := by
        obtain ⟨s, rest, rfl⟩ := List.exists_cons_of_ne_nil hnil
        rw [List.foldlM_cons] at hfold
        obtain ⟨next, hnext, -⟩ := Activity.bind_eq_ok.mp hfold
        exact isDirectoryAt_of_follow hnext
      rw [← Path.trim_baseSegments] at hbetween
      refine .inr ⟨between, rest.map String.ofList, foldlM_of_trim hbetween hdir, ?_, ?_⟩
      · rwa [Ne, List.map_eq_nil_iff]
      · exact eq_of_foldlM_follow (fun s hs => hp s (hfront.subset hs)) hfold

/-! ## Ways from a base

Below a base, a way that never goes to a parent meets only what is there below the base. -/

/-- Where a way leads that first goes up and then down through names. -/
theorem eq_of_foldlM_climb {n : Nat} {names : List Segment}
    (hnames : ∀ s ∈ names, Path.IsName s)
    (h : (List.replicate n Path.parent ++ names).foldlM fs.follow base = .ok place) :
    place = base.take (base.length - n) ++ names.map String.ofList := by
  induction n generalizing base with
  | zero =>
      rw [List.replicate_zero, List.nil_append] at h
      rw [Nat.sub_zero, List.take_length]
      exact eq_of_foldlM_follow (fun s hs => (hnames s hs).2) h
  | succ n ih =>
      rw [List.replicate_succ, List.cons_append, List.foldlM_cons] at h
      obtain ⟨above, habove, h⟩ := Activity.bind_eq_ok.mp h
      have hup : fs.follow base Path.parent = .ok base.dropLast := by
        rw [follow, if_neg (by simp [isDirectoryAt_of_follow habove])]
        rfl
      rw [hup] at habove
      cases habove
      rw [ih h, List.dropLast_eq_take, List.take_take, List.length_take]
      congr 2
      omega

/-- Two file systems in which a directory leads to the same place, below which there is the same. -/
structure SameBelow (directory : String) (fs fs' : FileSystem) : Prop where
  base : fs.baseOf directory = fs'.baseOf directory
  tree : ∀ base, fs.baseOf directory = .ok base → fs.at? base = fs'.at? base

theorem SameBelow.symm (h : SameBelow directory fs fs') : SameBelow directory fs' fs where
  base := h.base.symm
  tree base hbase := (h.tree base (h.base.trans hbase)).symm

theorem at?_append_congr (h : fs.at? base = fs'.at? base) (names : List String) :
    fs.at? (base ++ names) = fs'.at? (base ++ names) := by
  rw [at?, at?, FileTree.at?_append, FileTree.at?_append]
  exact congrArg (·.bind fun t => t.at? names) h

/-- One segment that does not go to the parent leads to the same place below the base. -/
theorem follow_congr (h : fs.at? base = fs'.at? base) {s : Segment} (hs : s ≠ Path.parent)
    (names : List String) :
    fs.follow (base ++ names) s = fs'.follow (base ++ names) s ∧
      ∀ place, fs.follow (base ++ names) s = .ok place → base <+: place := by
  refine ⟨?_, ?_⟩
  · have hdir : fs.isDirectoryAt (base ++ names) = fs'.isDirectoryAt (base ++ names) := by
      rw [isDirectoryAt, isDirectoryAt, at?_append_congr h]
    have hbelow : ∀ name,
        fs.at? ((base ++ names) ++ [name]) = fs'.at? ((base ++ names) ++ [name]) := by
      intro name
      rw [List.append_assoc, at?_append_congr h]
    rw [follow, follow, hdir]
    simp only [hbelow]
  · intro place hplace
    by_cases hidle : Idle s
    · rw [eq_of_follow_idle hidle hplace]
      exact List.prefix_append _ _
    · rw [Idle, not_or] at hidle
      rw [eq_of_follow ⟨hidle.1, hidle.2, hs⟩ hplace, List.append_assoc]
      exact List.prefix_append _ _

theorem foldlM_follow_congr (h : fs.at? base = fs'.at? base) (hdown : Path.parent ∉ all)
    (names : List String) :
    all.foldlM fs.follow (base ++ names) = all.foldlM fs'.follow (base ++ names) ∧
      ∀ place, all.foldlM fs.follow (base ++ names) = .ok place → base <+: place := by
  induction all generalizing names with
  | nil =>
      refine ⟨rfl, ?_⟩
      intro place hplace
      cases hplace
      exact List.prefix_append _ _
  | cons s all ih =>
      have hs : s ≠ Path.parent := fun hs => hdown (hs ▸ List.mem_cons_self)
      have hdown' : Path.parent ∉ all := fun hmem => hdown (List.mem_cons_of_mem _ hmem)
      obtain ⟨hfirst, hbelow⟩ := follow_congr h hs names
      rw [List.foldlM_cons, List.foldlM_cons, ← hfirst]
      cases hplace : fs.follow (base ++ names) s with
      | error fault =>
          refine ⟨rfl, ?_⟩
          intro place hplace
          cases hplace
      | ok between =>
          obtain ⟨more, rfl⟩ := hbelow between hplace
          exact ih hdown' more

/-- A path below a directory that does not go to a parent leads to the same place, and to one where
there is the same. -/
theorem SameBelow.locate (h : SameBelow directory fs fs') (hp : Path.isAbsolute p = false)
    (hdown : Path.parent ∉ segments p) :
    fs.locate (pathBelow directory p) = fs'.locate (pathBelow directory p) ∧
      ∀ place, fs.locate (pathBelow directory p) = .ok place → fs.at? place = fs'.at? place := by
  have hbase := h.base
  rw [baseOf, baseOf] at hbase
  rw [pathBelow, locate_join hp, locate_join hp, ← hbase]
  cases checkPath (Path.join directory (String.ofList p)) with
  | error fault =>
      refine ⟨rfl, ?_⟩
      intro place hplace
      cases hplace
  | ok u =>
      cases hfrom : (baseSegments directory.toList).foldlM fs.follow (fs.startOf directory) with
      | error fault =>
          refine ⟨rfl, ?_⟩
          intro place hplace
          cases hplace
      | ok base =>
          have htree := h.tree base hfrom
          obtain ⟨hsame, hbelow⟩ := foldlM_follow_congr htree hdown []
          rw [List.append_nil] at hsame hbelow
          refine ⟨hsame, ?_⟩
          intro place hplace
          obtain ⟨more, rfl⟩ := hbelow place hplace
          exact at?_append_congr htree more

theorem find_congr {path : String} (hlocate : fs.locate path = fs'.locate path)
    (hat : ∀ place, fs.locate path = .ok place → fs.at? place = fs'.at? place) :
    fs.find path = fs'.find path := by
  rw [find, find, ← hlocate]
  cases hplace : fs.locate path with
  | error fault => rfl
  | ok place =>
      dsimp only [bind, Except.bind]
      rw [hat place hplace]

/-- A path below a directory that does not go to a parent is read the same. -/
theorem SameBelow.readText (h : SameBelow directory fs fs') (hp : Path.isAbsolute p = false)
    (hdown : Path.parent ∉ segments p) :
    fs.readText (pathBelow directory p) = fs'.readText (pathBelow directory p) := by
  obtain ⟨hlocate, hat⟩ := h.locate hp hdown
  rw [FileSystem.readText, FileSystem.readText, find_congr hlocate hat]

end FileSystem

end Stencil
