/-
Fresh directories.

To save a file makes the directories on the way along its path, and nothing else.  Below a
directory that was empty, or was not there, nothing is therefore found afterwards but the files
that were saved there and the directories on the way to them.
-/
import Mathlib
import Stencil.Proofs.Files.Glob
import Stencil.Proofs.Files.Save

namespace Stencil.FileSystem

open Stencil.Path (Segment segments significant trim moving Idle)

variable {fs fs' : FileSystem} {path name directory : String} {place : List String}
  {files : List (List Char × String)}

/-! ## What is made on the way along a path -/

theorem parentPath?_spec {above : String} (h : parentPath? path = some above) :
    significant above.toList = (significant path.toList).dropLast ∧
      Path.isAbsolute above.toList = Path.isAbsolute path.toList := by
  unfold parentPath? at h
  extract_lets chars all isName kept at h
  have hkept : kept = significant path.toList := rfl
  clear_value kept
  subst hkept
  split at h
  · cases h
  next hne =>
    cases h
    rw [String.toList_ofList]
    exact Path.significant_ofSegments_dropLast path.toList fun hnil => hne hnil

/-- A place is on the way along a path if one of its first segments leads there. -/
def OnTheWay (fs : FileSystem) (path : String) (place : List String) : Prop :=
  ∃ front, front <+: significant path.toList ∧
    front.foldlM fs.follow (fs.startOf path) = .ok place

theorem OnTheWay.mono (h : OnTheWay fs path place) (hextends : Extends fs fs') :
    OnTheWay fs' path place := by
  obtain ⟨front, hfront, hfold⟩ := h
  rw [← startOf_congr hextends.workDir] at hfold
  exact ⟨front, hfront, foldlM_follow_mono hextends hfold⟩

theorem OnTheWay.of_parent {above : String} (hparent : parentPath? path = some above)
    (h : OnTheWay fs above place) : OnTheWay fs path place := by
  obtain ⟨front, hfront, hfold⟩ := h
  obtain ⟨hsegments, habsolute⟩ := parentPath?_spec hparent
  rw [hsegments] at hfront
  rw [startOf, habsolute] at hfold
  exact ⟨front, hfront.trans (List.dropLast_prefix _), hfold⟩

/-- The segments of a path are those up to its name and slashes behind it. -/
theorem exists_nameSegments (path : String) :
    ∃ idle, segments path.toList = nameSegments path ++ idle ∧ ∀ s ∈ idle, Idle s := by
  refine ⟨((segments path.toList).reverse.takeWhile (· = [])).reverse, ?_, fun s hs => ?_⟩
  · rw [nameSegments, ← List.reverse_append, List.takeWhile_append_dropWhile,
      List.reverse_reverse]
  · have hnil := List.mem_takeWhile_imp (List.mem_reverse.mp hs)
    exact .inl (by simpa using hnil)

/-- A directory that is made is all that is new, and its path leads there. -/
theorem makeDirectory_new (h : fs.makeDirectory path = .ok fs') (hplace : (fs'.at? place).isSome) :
    (fs.at? place).isSome ∨ OnTheWay fs' path place := by
  have hextends := (makeDirectory_spec h).1
  obtain ⟨above, segment, hputs, -, rfl⟩ := exists_of_makeDirectory h
  rcases isSome_withAt hputs.directory (fun _ _ => rfl) hplace with hold | rfl
  · exact .inl hold
  · right
    have hself := at?_withAt_append fs (above ++ [String.ofList segment]) [] (.directory [])
    rw [List.append_nil] at hself
    have hfold := hputs.foldlM_nameSegments hextends hplace
    obtain ⟨idle, hsegments, hidle⟩ := exists_nameSegments path
    refine ⟨_, List.prefix_refl _, ?_⟩
    rw [Path.significant_eq]
    refine foldlM_trim ?_
    rw [hsegments, List.foldlM_append, hfold]
    exact foldlM_idle (isDirectoryAt_iff.mpr ⟨[], hself⟩) hidle

/-- What is new after directories were made is on the way along the path of the last one. -/
theorem makeDirectoriesFrom_new {fuel : Nat}
    (hplace : ((makeDirectoriesFrom fuel fs path).2.at? place).isSome) :
    (fs.at? place).isSome ∨ OnTheWay (makeDirectoriesFrom fuel fs path).2 path place := by
  induction fuel generalizing path with
  | zero => exact .inl hplace
  | succ fuel ih =>
      revert hplace
      rw [makeDirectoriesFrom]
      split
      · exact .inl
      · split
        next hmade => exact makeDirectory_new hmade
        next hmissing =>
          split
          next => exact .inl
          next parent hparent =>
            have habove := @ih parent
            rcases hout : makeDirectoriesFrom fuel fs parent with ⟨fault | ⟨⟩, fs₁⟩
            · rw [hout] at habove
              intro hplace
              exact (habove hplace).imp_right fun hnew => hnew.of_parent hparent
            · rw [hout] at habove
              dsimp only at habove ⊢
              split
              next hmade =>
                intro hplace
                rcases makeDirectory_new hmade hplace with hold | hnew
                · rcases habove hold with hold | hnew
                  · exact .inl hold
                  · exact .inr ((hnew.of_parent hparent).mono (makeDirectory_spec hmade).1)
                · exact .inr hnew
              next =>
                intro hplace
                exact (habove hplace).imp_right fun hnew => hnew.of_parent hparent
        next => exact .inl

/-- What is new after the directories above a path were made is on the way along the path. -/
theorem makeParents_new (hplace : ((fs.makeParents path).2.at? place).isSome) :
    (fs.at? place).isSome ∨ OnTheWay (fs.makeParents path).2 path place := by
  revert hplace
  rw [makeParents]
  split
  next above hparent =>
    intro hplace
    exact (makeDirectoriesFrom_new hplace).imp_right fun hnew => hnew.of_parent hparent
  next => exact .inl

/-- What is new after a file was saved is on the way along its path. -/
theorem save_new {text : String} (h : fs.save path text = .ok fs')
    (hplace : (fs'.at? place).isSome) : (fs.at? place).isSome ∨ OnTheWay fs' path place := by
  obtain ⟨hextends, file, hfile, -, hnew⟩ := write_spec (save_eq_ok.mp h).2
  rcases hnew place hplace with hsome | rfl
  · exact (makeParents_new hsome).imp_right fun hnew => hnew.mono hextends
  · obtain ⟨⟨⟩, -, hfold⟩ := Activity.bind_eq_ok.mp hfile
    refine .inr ⟨_, List.prefix_refl _, ?_⟩
    rw [Path.significant_eq]
    exact foldlM_trim hfold

/-- What is new after files were saved is on the way to one of them. -/
theorem saveAll_new {directory : String} {files : List (List Char × String)}
    (h : saveAll directory files fs = .ok fs') (hplace : (fs'.at? place).isSome) :
    (fs.at? place).isSome ∨ ∃ file ∈ files, OnTheWay fs' (pathBelow directory file.1) place := by
  induction files generalizing fs with
  | nil =>
      cases h
      exact .inl hplace
  | cons file files ih =>
      obtain ⟨fs₁, hsave, hafter⟩ := saveAll_cons h
      rcases ih hafter with hold | ⟨other, hother, hnew⟩
      · rcases save_new hsave hold with hold | hnew
        · exact .inl hold
        · exact .inr ⟨file, List.mem_cons_self, hnew.mono (extends_saveAll hafter)⟩
      · exact .inr ⟨other, List.mem_cons_of_mem _ hother, hnew⟩

/-! ## Directories in order -/

/-- Whether the entries of all directories below a place are in order. -/
def OrderedBelow (fs : FileSystem) (place : List String) : Prop :=
  ∀ names entries, fs.at? (place ++ names) = some (.directory entries) → Dict.Ascending entries

theorem OrderedBelow.withAt {above : List String} {t : FileTree} (h : OrderedBelow fs place)
    (habove : fs.isDirectoryAt above)
    (hleaf : ∀ names entries, t.at? names = some (.directory entries) → entries = []) :
    OrderedBelow (fs.withAt (above ++ [name]) t) place := by
  intro names entries hentries
  rcases place_cases above name (place ++ names) with ⟨more, hmore⟩ | ⟨more, rfl⟩ | ⟨hnot, hnot'⟩
  · rw [hmore, at?_withAt_append] at hentries
    rw [hleaf more entries hentries]
    exact Dict.ascending_nil
  · obtain ⟨first, below, hplace⟩ := exists_at?_withAt fs (place ++ names) more name t
    obtain ⟨entries', hentries'⟩ := isDirectoryAt_iff.mp (isDirectoryAt_of_append habove)
    rw [hentries', hentries] at hplace
    cases hplace
    exact (h names entries' hentries').insert _ _
  · rw [at?_withAt_elsewhere fs t hnot hnot'] at hentries
    exact h names entries hentries

theorem OrderedBelow.makeDirectory (h : OrderedBelow fs place)
    (hmade : fs.makeDirectory path = .ok fs') : OrderedBelow fs' place := by
  obtain ⟨above, segment, hputs, -, rfl⟩ := exists_of_makeDirectory hmade
  refine h.withAt hputs.directory fun names entries hentries => ?_
  cases names with
  | nil =>
      cases hentries
      rfl
  | cons first rest => cases hentries

theorem OrderedBelow.save {text : String} (h : OrderedBelow fs place)
    (hsave : fs.save path text = .ok fs') : OrderedBelow fs' place := by
  have hmade : OrderedBelow (fs.makeParents path).2 place :=
    makeParents_induction (P := fun fs => OrderedBelow fs place)
      (fun _ _ _ hmade hfs => hfs.makeDirectory hmade) path h
  obtain ⟨above, segment, hputs, -, -, rfl⟩ := exists_of_write (save_eq_ok.mp hsave).2
  refine hmade.withAt hputs.directory fun names entries hentries => ?_
  cases names <;> cases hentries

theorem OrderedBelow.saveAll {directory : String} {files : List (List Char × String)}
    (h : OrderedBelow fs place) (hsave : saveAll directory files fs = .ok fs') :
    OrderedBelow fs' place := by
  induction files generalizing fs with
  | nil =>
      cases hsave
      exact h
  | cons file files ih =>
      obtain ⟨fs₁, hfile, hafter⟩ := saveAll_cons hsave
      exact ih (h.save hfile) hafter

/-! ## Fresh directories -/

/-- Whether a directory is empty, or not there and to be made.  A way that goes to a parent may lead
through directories that are made for it, so none goes to a directory that is not there. -/
def Fresh (fs : FileSystem) (directory : String) : Prop :=
  fs.find directory = .ok (.directory []) ∨
    fs.find directory = .error .notFound ∧ directory ≠ "" ∧
      Path.parent ∉ segments directory.toList

theorem Fresh.checkPath (h : Fresh fs directory) : checkPath directory = .ok () := by
  rcases h with h | ⟨h, hne, -⟩
  · obtain ⟨place, hplace, -⟩ := exists_of_find h
    obtain ⟨⟨⟩, hcheck, -⟩ := Activity.bind_eq_ok.mp hplace
    exact hcheck
  · cases hcheck : FileSystem.checkPath directory with
    | ok u => rfl
    | error fault =>
        have hfault : fault = .notFound := by
          rw [find, locate, hcheck] at h
          exact Except.error.inj h
        rw [FileSystem.checkPath, hfault] at hcheck
        split at hcheck
        · cases hcheck
        · split at hcheck
          next hempty => exact absurd (String.isEmpty_iff.mp hempty) hne
          next =>
            split at hcheck
            · cases hcheck
            · cases hcheck

theorem Fresh.isDirectoryAt_start (h : Fresh fs directory) :
    fs.isDirectoryAt (fs.startOf directory) := by
  have hcheck := h.checkPath
  obtain ⟨first, rest, hsegments⟩ :=
    List.exists_cons_of_ne_nil (Path.segments_ne_nil directory.toList)
  by_contra hnot
  have hfollow : fs.follow (fs.startOf directory) first = .error .notADirectory := by
    rw [follow, if_pos (by simpa using hnot)]
  have hfind : fs.find directory = .error .notADirectory := by
    rw [find, locate_eq hcheck, hsegments, List.foldlM_cons, hfollow]
    rfl
  rcases h with h | ⟨h, -⟩
  · rw [hfind] at h
    cases h
  · rw [hfind] at h
    cases h

/-- What a fresh directory is before files are saved in it: an empty directory, or none. -/
theorem Fresh.cases (h : Fresh fs directory) (hextends : Extends fs fs')
    (hbase : (Path.baseSegments directory.toList).foldlM fs'.follow (fs'.startOf directory) =
      .ok place) :
    ((Path.baseSegments directory.toList).foldlM fs.follow (fs.startOf directory) = .ok place ∧
      fs.at? place = some (.directory [])) ∨
    (¬ fs.isDirectoryAt place ∧ Path.parent ∉ segments directory.toList) := by
  have hcheck := h.checkPath
  have hne := ne_nil_of_checkPath hcheck
  rw [startOf_congr hextends.workDir] at hbase
  rcases h with h | ⟨h, hdirectory, hdown⟩
  · obtain ⟨place', hplace', hempty⟩ := exists_of_find h
    obtain ⟨⟨⟩, -, hfold⟩ := Activity.bind_eq_ok.mp hplace'
    have hbase' := foldlM_baseSegments hne hfold
    have hmono := foldlM_follow_mono hextends hbase'
    rw [hbase] at hmono
    cases hmono
    exact .inl ⟨hbase', hempty⟩
  · refine .inr ⟨fun hdir => ?_, hdown⟩
    have hfold :=
      foldlM_of_isDirectoryAt (fun hmem => hdown (Path.mem_baseSegments hmem)) hbase hdir
    have hlocate := (locate_eq hcheck).trans (foldlM_segments hne hdir hfold)
    obtain ⟨entries, hentries⟩ := isDirectoryAt_iff.mp hdir
    rw [find_of_locate hlocate hentries] at h
    cases h

/-- In a fresh directory there is nothing before files are saved in it. -/
theorem Fresh.nothing_below (h : Fresh fs directory) (hextends : Extends fs fs')
    (hbase : (Path.baseSegments directory.toList).foldlM fs'.follow (fs'.startOf directory) =
      .ok place) {names : List String} (hnames : names ≠ []) :
    ¬ (fs.at? (place ++ names)).isSome := by
  obtain ⟨name, rest, rfl⟩ := List.exists_cons_of_ne_nil hnames
  intro hsome
  rcases h.cases hextends hbase with ⟨-, hempty⟩ | ⟨hnot, -⟩
  · rw [at?_append_of_directory hempty] at hsome
    cases hsome
  · exact hnot (isDirectoryAt_of_isSome hsome)

theorem Fresh.orderedBelow (h : Fresh fs directory) (hextends : Extends fs fs')
    (hbase : (Path.baseSegments directory.toList).foldlM fs'.follow (fs'.startOf directory) =
      .ok place) : OrderedBelow fs place := by
  intro names entries hentries
  cases names with
  | nil =>
      rw [List.append_nil] at hentries
      rcases h.cases hextends hbase with ⟨-, hempty⟩ | ⟨hnot, -⟩
      · rw [hempty] at hentries
        cases hentries
        exact Dict.ascending_nil
      · exact absurd (isDirectoryAt_iff.mpr ⟨entries, hentries⟩) hnot
  | cons name names =>
      refine absurd ?_ (h.nothing_below hextends hbase (List.cons_ne_nil name names))
      rw [hentries]
      rfl

/-- The way to a fresh directory does not lead below it. -/
theorem Fresh.not_below (h : Fresh fs directory) (hextends : Extends fs fs')
    (hbase : (Path.baseSegments directory.toList).foldlM fs'.follow (fs'.startOf directory) =
      .ok place) {front : List Segment}
    (hfront : front <+: trim (Path.baseSegments directory.toList)) {names : List String}
    (hnames : names ≠ []) :
    front.foldlM fs'.follow (fs'.startOf directory) ≠ .ok (place ++ names) := by
  intro hfold
  rcases h.cases hextends hbase with ⟨hold, -⟩ | ⟨-, hdown⟩
  · -- The directory was there, so all of the way to it was.
    refine h.nothing_below hextends hbase hnames ?_
    obtain ⟨rest, hrest⟩ := hfront
    have htrim := foldlM_trim hold
    rw [← hrest, List.foldlM_append] at htrim
    obtain ⟨between, hbetween, -⟩ := Activity.bind_eq_ok.mp htrim
    have hmono := foldlM_follow_mono hextends hbetween
    rw [← startOf_congr hextends.workDir, hfold] at hmono
    rw [Except.ok.inj hmono]
    by_cases hnil : front = []
    · subst hnil
      cases hbetween
      exact isSome_of_isDirectoryAt h.isDirectoryAt_start
    · exact isSome_of_foldlM_follow hnil hbetween
  · -- The way leads down only, so it is nowhere longer than where it ends.
    have hmem : ∀ s ∈ front, s ∈ Path.baseSegments directory.toList := fun s hs =>
      Path.mem_of_mem_trim (hfront.subset hs)
    have hplace := eq_of_foldlM_moving (fun hup => hdown (Path.mem_baseSegments hup)) hbase
    have hlonger :=
      eq_of_foldlM_moving (fun hup => hdown (Path.mem_baseSegments (hmem _ hup))) hfold
    have hlength : (moving front).length ≤
        (moving (Path.baseSegments directory.toList)).length := by
      rw [← Path.moving_trim (Path.baseSegments directory.toList)]
      exact (hfront.filter _).length_le
    have hlengths := congrArg List.length (hplace ▸ hlonger)
    simp only [List.length_append, List.length_map] at hlengths
    have hpos := List.length_pos_iff.mpr hnames
    omega

theorem startOf_pathBelow {p : List Char} (hp : Path.Plain p) :
    fs.startOf (pathBelow directory p) = fs.startOf directory := by
  rw [startOf, startOf, pathBelow, Path.join, String.toList_ofList, String.toList_ofList,
    Path.isAbsolute_joinChars _ hp.isAbsolute_eq]

/-- Along a path of names below a directory, all of them count. -/
theorem significant_pathBelow {p : List Char} (hp : Path.Plain p) :
    significant (pathBelow directory p).toList =
      trim (Path.baseSegments directory.toList) ++ segments p := by
  have hnot : ∀ s ∈ segments p, ¬ Idle s := by
    intro s hs hidle
    obtain ⟨hempty, hhere, -⟩ := hp s hs
    exact hidle.elim hempty hhere
  rw [pathBelow, Path.join, String.toList_ofList, String.toList_ofList, Path.significant_eq,
    Path.segments_joinChars _ hp.isAbsolute_eq, Path.trim_append hnot]

/-- Below a fresh directory in which files were saved is nothing but the files and the directories
on the way to them. -/
theorem exists_of_saveAll (hfresh : Fresh fs directory) (hplain : ∀ file ∈ files, Path.Plain file.1)
    (h : saveAll directory files fs = .ok fs')
    (hbase : (Path.baseSegments directory.toList).foldlM fs'.follow (fs'.startOf directory) =
      .ok place) {names : List String} (hnames : names ≠ [])
    (hsome : (fs'.at? (place ++ names)).isSome) :
    ∃ file ∈ files, names.map String.toList <+: segments file.1 := by
  have hextends := extends_saveAll h
  rcases saveAll_new h hsome with hold | ⟨file, hfile, front, hfront, hfold⟩
  · exact absurd hold (hfresh.nothing_below hextends hbase hnames)
  · refine ⟨file, hfile, ?_⟩
    have hp := hplain file hfile
    rw [significant_pathBelow hp] at hfront
    rw [startOf_pathBelow hp] at hfold
    rcases List.prefix_or_prefix_of_prefix hfront (List.prefix_append _ _) with hshort | hlong
    · exact absurd hfold (hfresh.not_below hextends hbase hshort hnames)
    · obtain ⟨rest, rfl⟩ := hlong
      rw [List.prefix_append_right_inj] at hfront
      rw [List.foldlM_append, foldlM_trim hbase] at hfold
      have hplace := eq_of_foldlM_follow (fun s hs => hp s (hfront.subset hs)) hfold
      rw [List.append_cancel_left hplace, Path.map_toList_map_ofList]
      exact hfront

/-! ## What is found in a fresh directory -/

/-- Whether the last of some segments has an end. -/
def EndsWith (ending : List Char) (all : List Segment) : Prop :=
  ∃ last, all.getLast? = some last ∧ ending <:+ last

theorem endsIn_map_ofList {ending : List Char} :
    EndsIn ending (all.map String.ofList) ↔ EndsWith ending all := by
  rw [EndsIn, EndsWith, List.getLast?_map]
  constructor
  · rintro ⟨last, hlast, hends⟩
    obtain ⟨s, hs, rfl⟩ := Option.map_eq_some_iff.mp hlast
    exact ⟨s, hs, by rwa [String.toList_ofList] at hends⟩
  · rintro ⟨s, hs, hends⟩
    exact ⟨String.ofList s, by rw [hs]; rfl, by rwa [String.toList_ofList]⟩

/-- A file that was saved is at its names, behind where the directory leads. -/
theorem exists_locate_pathBelow (hplain : ∀ file ∈ files, Path.Plain file.1)
    (h : saveAll directory files fs = .ok fs') {file : List Char × String} (hfile : file ∈ files) :
    ∃ base, (Path.baseSegments directory.toList).foldlM fs'.follow (fs'.startOf directory) =
        .ok base ∧
      fs'.locate (pathBelow directory file.1) =
        .ok (base ++ (segments file.1).map String.ofList) := by
  obtain ⟨place, hplace⟩ := exists_locate_of_saveAll h hfile
  obtain ⟨base, hbase, rfl⟩ := exists_of_locate_join (hplain file hfile) hplace
  exact ⟨base, hbase, hplace⟩

theorem locate_pathBelow (hplain : ∀ file ∈ files, Path.Plain file.1)
    (h : saveAll directory files fs = .ok fs')
    (hbase : (Path.baseSegments directory.toList).foldlM fs'.follow (fs'.startOf directory) =
      .ok place) {file : List Char × String} (hfile : file ∈ files) :
    fs'.locate (pathBelow directory file.1) =
      .ok (place ++ (segments file.1).map String.ofList) := by
  obtain ⟨base, hbase', hlocate⟩ := exists_locate_pathBelow hplain h hfile
  rw [hbase] at hbase'
  cases hbase'
  exact hlocate

theorem listable_of_saveAll (hdirectory : Literal directory) (hfresh : Fresh fs directory)
    (hplain : ∀ file ∈ files, Path.Plain file.1) (h : saveAll directory files fs = .ok fs')
    (hbase : (Path.baseSegments directory.toList).foldlM fs'.follow (fs'.startOf directory) =
      .ok place) :
    Listable fs' (trail (startPath directory) (baseNames directory)) place := by
  have hordered := (hfresh.orderedBelow (extends_saveAll h) hbase).saveAll h
  refine listable_of_paths hdirectory hbase hordered fun names hnames hsome => ?_
  obtain ⟨file, hfile, hprefix⟩ := exists_of_saveAll hfresh hplain h hbase hnames hsome
  exact ⟨file.1, _, hplain file hfile, hprefix, locate_pathBelow hplain h hbase hfile⟩

/-- In a fresh directory in which files were saved, exactly the files and the directories on the way
to them are found whose names have the end, each of them once. -/
theorem exists_glob_of_saveAll {ending : List Char} (hdirectory : Literal directory)
    (hending : ∀ c ∈ ending, Pattern.IsPlain c) (hslash : '/' ∉ ending)
    (hfresh : Fresh fs directory) (hplain : ∀ file ∈ files, Path.Plain file.1)
    (h : saveAll directory files fs = .ok fs') :
    ∃ base paths, fs'.glob (patternBelow directory ending) = .ok paths ∧
      (paths.map fs'.locate).Nodup ∧
      (∀ found, found ∈ paths.map fs'.locate ↔ ∃ file ∈ files, ∃ front,
        front <+: segments file.1 ∧ EndsWith ending front ∧
          found = .ok (base ++ front.map String.ofList)) ∧
      ∀ file ∈ files, fs'.locate (pathBelow directory file.1) =
        .ok (base ++ (segments file.1).map String.ofList) := by
  have hextends := extends_saveAll h
  have hcheck := hfresh.checkPath
  have hstart : fs'.isDirectoryAt (fs'.startOf directory) := by
    rw [startOf_congr hextends.workDir]
    exact hextends.directory _ hfresh.isDirectoryAt_start
  cases hbase : (Path.baseSegments directory.toList).foldlM fs'.follow
      (fs'.startOf directory) with
  | error fault =>
      have hnone : files = [] := by
        rw [List.eq_nil_iff_forall_not_mem]
        intro file hfile
        obtain ⟨base, hbase', -⟩ := exists_locate_pathBelow hplain h hfile
        rw [hbase] at hbase'
        cases hbase'
      subst hnone
      have hglob : fs'.glob (patternBelow directory ending) =
          .ok (fs'.searched directory (below ending)) :=
        glob_patternBelow hdirectory.plain hending hslash
      rw [searched_eq hdirectory hcheck hstart (below_ne_nil ending), hbase] at hglob
      exact ⟨[], [], hglob, List.nodup_nil, by simp, by simp⟩
  | ok base =>
      have hfile (file : List Char × String) (hmem : file ∈ files) :=
        locate_pathBelow hplain h hbase hmem
      obtain ⟨paths, hglob, hfinds⟩ := exists_finds_patternBelow hdirectory hending hslash hcheck
        hstart hbase (listable_of_saveAll hdirectory hfresh hplain h hbase)
      refine ⟨base, paths, hglob, hfinds.distinct, fun found => ?_, hfile⟩
      rw [hfinds.mem_iff]
      constructor
      · rintro ⟨names, rfl, hsome, hends⟩
        obtain ⟨file, hmem, hprefix⟩ :=
          exists_of_saveAll hfresh hplain h hbase hends.ne_nil hsome
        rw [← Path.map_ofList_map_toList names] at hends ⊢
        exact ⟨file, hmem, _, hprefix, endsIn_map_ofList.mp hends, rfl⟩
      · rintro ⟨file, hmem, front, ⟨rest, hrest⟩, hends, rfl⟩
        refine ⟨_, rfl, ?_, endsIn_map_ofList.mpr hends⟩
        have hsome := isSome_of_locate (hfile file hmem)
        rw [← hrest, List.map_append, ← List.append_assoc] at hsome
        exact isSome_of_append hsome

end Stencil.FileSystem
