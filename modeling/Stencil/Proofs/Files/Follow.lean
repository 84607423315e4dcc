/-
Where paths lead.

A path is followed segment by segment.  Idle segments stay where they are, and names lead down, so
a path below a directory leads to its names behind the place of the directory.  Where a path leads,
it leads in every later file system.
-/
import Mathlib
import Stencil.Files.Tree
import Stencil.Proofs.Activity
import Stencil.Proofs.Files.Tree
import Stencil.Proofs.Path.Significant

namespace Stencil.FileSystem

open Stencil.Path (Segment segments baseSegments moving trim Idle)

variable {fs fs' : FileSystem} {path name : String} {place place' start : List String}
  {all : List Segment} {p : List Char} {s : Segment}

/-! ## One segment -/

theorem isDirectoryAt_of_follow (h : fs.follow place s = .ok place') : fs.isDirectoryAt place := by
  by_contra hnot
  rw [follow] at h
  simp only [hnot, Bool.not_false, if_true] at h
  cases h

theorem follow_idle (h : fs.isDirectoryAt place) (hs : Idle s) : fs.follow place s = .ok place := by
  rw [follow, if_neg (by simp [h])]
  exact if_pos hs

theorem eq_of_follow_idle (hs : Idle s) (h : fs.follow place s = .ok place') : place' = place := by
  rw [follow_idle (isDirectoryAt_of_follow h) hs] at h
  cases h
  rfl

/-- A segment leads somewhere. -/
theorem isSome_of_follow (h : fs.follow place s = .ok place') : (fs.at? place').isSome := by
  have hdir := isDirectoryAt_of_follow h
  rw [follow, if_neg (by simp [hdir])] at h
  split at h
  · cases h
    exact isSome_of_isDirectoryAt hdir
  · split at h
    · cases h
      rcases List.eq_nil_or_concat' place with rfl | ⟨front, last, rfl⟩
      · exact isSome_of_isDirectoryAt hdir
      · rw [List.dropLast_concat]
        exact isSome_of_isDirectoryAt (isDirectoryAt_of_append hdir)
    · obtain ⟨below, -, h⟩ := Activity.bind_eq_ok.mp h
      dsimp only at h
      split at h
      next hsome =>
        cases h
        exact hsome
      next => cases h

theorem checkName_eq_ok {segment : Segment} (h : checkName segment = .ok name) :
    name = String.ofList segment := by
  rw [checkName] at h
  split at h
  · cases h
  · cases h
    rfl

/-- A name leads to the entry of that name. -/
theorem eq_of_follow {segment : Segment} {place' : List String}
    (hname : segment ≠ [] ∧ segment ≠ Path.here ∧ segment ≠ Path.parent)
    (h : fs.follow place segment = .ok place') : place' = place ++ [String.ofList segment] := by
  obtain ⟨hempty, hhere, hup⟩ := hname
  rw [follow] at h
  by_cases hdir : fs.isDirectoryAt place
  · simp only [hdir, Bool.not_true, Bool.false_eq_true, hempty, hhere, hup, or_self,
      if_false] at h
    obtain ⟨name, hname, h⟩ := Activity.bind_eq_ok.mp h
    split at h
    · cases h
      rw [checkName_eq_ok hname]
    · cases h
  · simp only [hdir, Bool.not_false, if_true] at h
    cases h

/-- A name that is there is followed. -/
theorem follow_of_isSome {segment : Segment} (hplace : fs.isDirectoryAt place)
    (hne : segment ≠ []) (hhere : segment ≠ Path.here) (hup : segment ≠ Path.parent)
    (hname : checkName segment = .ok (String.ofList segment))
    (hsome : (fs.at? (place ++ [String.ofList segment])).isSome) :
    fs.follow place segment = .ok (place ++ [String.ofList segment]) := by
  rw [follow]
  simp only [hplace, Bool.not_true, Bool.false_eq_true, if_false, hne, hhere, hup, or_self, hname]
  show (if _ then _ else _) = _
  rw [if_pos hsome]
  rfl

theorem checkName_of_follow {s : Segment} (hs : ¬ Idle s) (hup : s ≠ Path.parent)
    (h : fs.follow place s = .ok place') : checkName s = .ok (String.ofList s) := by
  have hdir := isDirectoryAt_of_follow h
  rw [Idle] at hs
  rw [follow, if_neg (by simp [hdir]), if_neg hs, if_neg hup] at h
  obtain ⟨name, hname, -⟩ := Activity.bind_eq_ok.mp h
  rw [hname, checkName_eq_ok hname]

theorem follow_mono (h : Extends fs fs') {segment : Segment} {place' : List String}
    (hp : fs.follow place segment = .ok place') : fs'.follow place segment = .ok place' := by
  rw [follow] at hp ⊢
  by_cases hdir : fs.isDirectoryAt place
  · have hdir' := h.directory place hdir
    simp only [hdir, hdir', Bool.not_true, Bool.false_eq_true, if_false] at hp ⊢
    split at hp
    next hidle => rw [if_pos hidle, hp]
    next hidle =>
      rw [if_neg hidle]
      split at hp
      next hparent => rw [if_pos hparent, hp]
      next hparent =>
        rw [if_neg hparent]
        obtain ⟨below, hbelow, hp⟩ := Activity.bind_eq_ok.mp hp
        split at hp
        next hsome =>
          cases hp
          rw [hbelow]
          show (if _ then _ else _) = _
          rw [if_pos (h.holds _ hsome)]
          rfl
        next hnone => cases hp
  · simp only [hdir, Bool.not_false, if_true] at hp
    cases hp

/-! ## Several segments -/

theorem foldlM_follow_mono (h : Extends fs fs') {names : List Segment} {place' : List String}
    (hp : names.foldlM fs.follow place = .ok place') :
    names.foldlM fs'.follow place = .ok place' := by
  induction names generalizing place with
  | nil => exact hp
  | cons segment names ih =>
      rw [List.foldlM_cons] at hp ⊢
      obtain ⟨between, hbetween, hp⟩ := Activity.bind_eq_ok.mp hp
      rw [follow_mono h hbetween]
      exact ih hp

theorem isSome_of_foldlM_follow {all : List Segment} (hne : all ≠ [])
    (h : all.foldlM fs.follow place = .ok place') : (fs.at? place').isSome := by
  obtain ⟨front, last, rfl⟩ := List.eq_nil_or_concat' all |>.resolve_left hne
  rw [List.foldlM_append] at h
  obtain ⟨between, -, h⟩ := Activity.bind_eq_ok.mp h
  rw [List.foldlM_cons] at h
  obtain ⟨last', hlast, h⟩ := Activity.bind_eq_ok.mp h
  cases h
  exact isSome_of_follow hlast

/-- The names of a path are followed one after another. -/
theorem eq_of_foldlM_follow {names : List Segment} {place' : List String}
    (hnames : ∀ s ∈ names, s ≠ [] ∧ s ≠ Path.here ∧ s ≠ Path.parent)
    (h : names.foldlM fs.follow place = .ok place') :
    place' = place ++ names.map String.ofList := by
  induction names generalizing place with
  | nil =>
      cases h
      exact (List.append_nil _).symm
  | cons segment names ih =>
      rw [List.foldlM_cons] at h
      obtain ⟨between, hbetween, h⟩ := Activity.bind_eq_ok.mp h
      have hplace := eq_of_follow (hnames segment List.mem_cons_self) hbetween
      rw [ih (fun s hs => hnames s (List.mem_cons_of_mem _ hs)) h, hplace, List.append_assoc]
      rfl

theorem foldlM_idle (h : fs.isDirectoryAt place) (hall : ∀ s ∈ all, Idle s) :
    all.foldlM fs.follow place = .ok place := by
  induction all with
  | nil => rfl
  | cons s all ih =>
      rw [List.foldlM_cons, follow_idle h (hall s List.mem_cons_self)]
      exact ih fun s hs => hall s (List.mem_cons_of_mem _ hs)

/-- Idle segments stay where they are. -/
theorem eq_of_foldlM_idle {all : List Segment} (hall : ∀ s ∈ all, Idle s)
    (h : all.foldlM fs.follow place = .ok place') : place' = place := by
  induction all generalizing place with
  | nil =>
      cases h
      rfl
  | cons s all ih =>
      rw [List.foldlM_cons] at h
      obtain ⟨between, hbetween, h⟩ := Activity.bind_eq_ok.mp h
      rw [ih (fun s hs => hall s (List.mem_cons_of_mem _ hs)) h]
      exact eq_of_follow_idle (hall s List.mem_cons_self) hbetween

/-- A slash at the end of a path does not change where it leads. -/
theorem foldlM_baseSegments (hne : p ≠ [])
    (h : (segments p).foldlM fs.follow start = .ok place) :
    (baseSegments p).foldlM fs.follow start = .ok place := by
  obtain ⟨-, idle, hsplit, hidle⟩ := Path.exists_segments_eq_baseSegments hne
  rw [hsplit, List.foldlM_append] at h
  obtain ⟨between, hbetween, h⟩ := Activity.bind_eq_ok.mp h
  rw [eq_of_foldlM_idle (fun s hs => .inl (hidle s hs)) h]
  exact hbetween

/-- A slash at the end of a path leads to a directory. -/
theorem foldlM_segments (hne : p ≠ []) (hdir : fs.isDirectoryAt place)
    (h : (baseSegments p).foldlM fs.follow start = .ok place) :
    (segments p).foldlM fs.follow start = .ok place := by
  obtain ⟨-, idle, hsplit, hidle⟩ := Path.exists_segments_eq_baseSegments hne
  rw [hsplit, List.foldlM_append, h]
  exact foldlM_idle hdir fun s hs => .inl (hidle s hs)

theorem foldlM_moving (h : all.foldlM fs.follow place = .ok place') :
    (moving all).foldlM fs.follow place = .ok place' := by
  induction all generalizing place with
  | nil => exact h
  | cons s all ih =>
      rw [List.foldlM_cons] at h
      obtain ⟨between, hbetween, hrest⟩ := Activity.bind_eq_ok.mp h
      by_cases hs : Idle s
      · rw [eq_of_follow_idle hs hbetween] at hrest
        rw [Path.moving_cons_of_idle hs]
        exact ih hrest
      · rw [Path.moving_cons hs, List.foldlM_cons, hbetween]
        exact ih hrest

theorem foldlM_trim (h : all.foldlM fs.follow place = .ok place') :
    (trim all).foldlM fs.follow place = .ok place' := by
  cases all with
  | nil => exact h
  | cons first rest =>
      rw [List.foldlM_cons] at h
      obtain ⟨between, hbetween, hrest⟩ := Activity.bind_eq_ok.mp h
      rw [trim]
      split
      next hfirst =>
        rw [eq_of_follow_idle (.inl hfirst) hbetween] at hrest
        exact foldlM_moving hrest
      next =>
        rw [List.singleton_append, List.foldlM_cons, hbetween]
        exact foldlM_moving hrest

/-! ## Ways down

Without segments that go to the parent, a way leads down by the names on it. -/

theorem eq_of_foldlM_moving (hdown : Path.parent ∉ all)
    (h : all.foldlM fs.follow place = .ok place') :
    place' = place ++ (moving all).map String.ofList := by
  refine eq_of_foldlM_follow (fun s hs => ?_) (foldlM_moving h)
  have hidle := Path.not_idle_of_mem_moving hs
  rw [Idle, not_or] at hidle
  refine ⟨hidle.1, hidle.2, ?_⟩
  rintro rfl
  exact hdown (List.mem_filter.mp hs).1

/-- A way down to what was a directory before could be gone before. -/
theorem foldlM_of_isDirectoryAt (hdown : Path.parent ∉ all)
    (h : all.foldlM fs'.follow place = .ok place') (hdir : fs.isDirectoryAt place') :
    all.foldlM fs.follow place = .ok place' := by
  induction all generalizing place with
  | nil => exact h
  | cons s all ih =>
      rw [List.foldlM_cons] at h ⊢
      obtain ⟨between, hbetween, hrest⟩ := Activity.bind_eq_ok.mp h
      have hdown' : Path.parent ∉ all := fun hmem => hdown (List.mem_cons_of_mem _ hmem)
      have hup : s ≠ Path.parent := fun hs => hdown (hs ▸ List.mem_cons_self)
      have hdir' := hdir
      rw [eq_of_foldlM_moving hdown' hrest] at hdir'
      have hbetweenDir := isDirectoryAt_of_append hdir'
      have hfollow : fs.follow place s = .ok between := by
        by_cases hs : Idle s
        · obtain rfl := eq_of_follow_idle hs hbetween
          exact follow_idle hbetweenDir hs
        · have hname := checkName_of_follow hs hup hbetween
          rw [Idle, not_or] at hs
          obtain rfl := eq_of_follow ⟨hs.1, hs.2, hup⟩ hbetween
          exact follow_of_isSome (isDirectoryAt_of_append hbetweenDir) hs.1 hs.2 hup hname
            (isSome_of_isDirectoryAt hbetweenDir)
      rw [hfollow]
      exact ih hdown' hrest

/-! ## Paths -/

theorem startOf_congr (h : fs'.workDir = fs.workDir) (path : String) :
    fs'.startOf path = fs.startOf path := by
  rw [startOf, startOf, h]

theorem locate_eq (hcheck : checkPath path = .ok ()) :
    fs.locate path = (segments path.toList).foldlM fs.follow (fs.startOf path) := by
  rw [locate, hcheck]
  rfl

theorem ne_nil_of_checkPath (h : checkPath path = .ok ()) : path.toList ≠ [] := by
  intro hnil
  rw [String.toList_eq_nil_iff.mp hnil] at h
  cases h

theorem locate_mono (h : Extends fs fs') (hp : fs.locate path = .ok place) :
    fs'.locate path = .ok place := by
  rw [locate] at hp ⊢
  obtain ⟨⟨⟩, hcheck, hp⟩ := Activity.bind_eq_ok.mp hp
  rw [hcheck, startOf_congr h.workDir]
  exact foldlM_follow_mono h hp

/-- A path leads somewhere. -/
theorem isSome_of_locate (h : fs.locate path = .ok place) : (fs.at? place).isSome := by
  obtain ⟨⟨⟩, -, h⟩ := Activity.bind_eq_ok.mp h
  exact isSome_of_foldlM_follow (Path.segments_ne_nil _) h

theorem find_of_locate (h : fs.locate path = .ok place) {t : FileTree}
    (ht : fs.at? place = some t) : fs.find path = .ok t := by
  rw [find]
  refine Activity.bind_eq_ok.mpr ⟨place, h, ?_⟩
  rw [ht]
  rfl

theorem exists_of_find {t : FileTree} (h : fs.find path = .ok t) :
    ∃ place, fs.locate path = .ok place ∧ fs.at? place = some t := by
  obtain ⟨place, hplace, h⟩ := Activity.bind_eq_ok.mp h
  refine ⟨place, hplace, ?_⟩
  split at h
  next t' ht =>
    cases h
    exact ht
  next => cases h

theorem isDirectory_of_locate (h : fs.locate path = .ok place) :
    fs.isDirectory path = fs.isDirectoryAt place := by
  obtain ⟨t, ht⟩ := Option.isSome_iff_exists.mp (isSome_of_locate h)
  rw [isDirectory, find_of_locate h ht, isDirectoryAt, ht]
  rfl

theorem holds_iff : fs.holds path ↔ ∃ place, fs.locate path = .ok place := by
  rw [holds]
  constructor
  · intro h
    cases hlocate : fs.locate path with
    | ok place => exact ⟨place, rfl⟩
    | error fault =>
        rw [find, hlocate] at h
        cases h
  · rintro ⟨place, hplace⟩
    obtain ⟨t, ht⟩ := Option.isSome_iff_exists.mp (isSome_of_locate hplace)
    rw [find_of_locate hplace ht]
    rfl

/-- A file is read where its path leads. -/
theorem readText_of_bytes? {text : String} (h : fs.locate path = .ok place)
    (hbytes : fs.bytes? place = some text.toUTF8) : fs.readText path = .ok text := by
  rw [bytes?] at hbytes
  split at hbytes
  next content hfile =>
    cases hbytes
    have htext : String.fromUTF8? text.toUTF8 = some text := by
      simp only [String.fromUTF8?, Option.dite_none_right_eq_some]
      exact ⟨text.isValidUTF8, rfl⟩
    rw [readText]
    refine Activity.bind_eq_ok.mpr ⟨_, find_of_locate h hfile, ?_⟩
    dsimp only
    rw [htext]
    rfl
  next => cases hbytes

/-! ## Paths below a directory -/

/-- A path below a directory is followed from where the directory leads. -/
theorem locate_join {directory : String} {p : List Char} (hp : Path.isAbsolute p = false) :
    fs.locate (Path.join directory (String.ofList p)) = (do
      checkPath (Path.join directory (String.ofList p))
      let base ← (Path.baseSegments directory.toList).foldlM fs.follow (fs.startOf directory)
      (segments p).foldlM fs.follow base) := by
  rw [locate, startOf, startOf, Path.join, String.toList_ofList, String.toList_ofList,
    Path.isAbsolute_joinChars _ hp, Path.segments_joinChars _ hp, List.foldlM_append]

theorem exists_foldlM_of_locate_join {directory : String} {p : List Char}
    (hp : Path.isAbsolute p = false)
    (h : fs.locate (Path.join directory (String.ofList p)) = .ok place) :
    ∃ base, (Path.baseSegments directory.toList).foldlM fs.follow (fs.startOf directory) =
        .ok base ∧ (segments p).foldlM fs.follow base = .ok place := by
  rw [locate_join hp] at h
  obtain ⟨⟨⟩, -, h⟩ := Activity.bind_eq_ok.mp h
  exact Activity.bind_eq_ok.mp h

/-- Where a path below a directory leads: to its names, behind where the directory leads. -/
theorem exists_of_locate_join {directory : String} {p : List Char} (hp : Path.Plain p)
    (h : fs.locate (Path.join directory (String.ofList p)) = .ok place) :
    ∃ base, (Path.baseSegments directory.toList).foldlM fs.follow (fs.startOf directory) =
        .ok base ∧ place = base ++ (segments p).map String.ofList := by
  obtain ⟨base, hbase, hfold⟩ := exists_foldlM_of_locate_join hp.isAbsolute_eq h
  exact ⟨base, hbase, eq_of_foldlM_follow hp hfold⟩

/-- Two paths of names below a directory do not lead to the same place. -/
theorem eq_of_locate_join {directory : String} {p q : List Char} (hp : Path.Plain p)
    (hq : Path.Plain q) (h : fs.locate (Path.join directory (String.ofList p)) = .ok place)
    (h' : fs.locate (Path.join directory (String.ofList q)) = .ok place) : p = q := by
  obtain ⟨base, hbase, hplace⟩ := exists_of_locate_join hp h
  obtain ⟨base', hbase', hplace'⟩ := exists_of_locate_join hq h'
  rw [hbase] at hbase'
  cases hbase'
  have hnames := List.append_cancel_left (hplace.symm.trans hplace')
  have hsegments : segments p = segments q :=
    List.map_injective_iff.mpr (fun a b hab => by
      rw [← String.toList_ofList (l := a), hab, String.toList_ofList]) hnames
  rw [← Path.joinSegments_segments p, hsegments, Path.joinSegments_segments]

end Stencil.FileSystem
