/-
Saving files.

A directory is made, or a file is written, under the last name of its path.  A file is saved by
making the directories above it and writing it there.  Files with different paths below one
directory come to different places, so after a row of them is saved each holds its own text, and
nothing else has changed but for the directories that were made.
-/
import Mathlib
import Stencil.Proofs.Files.Follow

namespace Stencil.FileSystem

open Stencil.Path (Plain Segment segments)

variable {fs fs' : FileSystem} {path directory text : String} {p : List Char}
  {place above : List String} {files : List (List Char × String)}

/-! ## Directories and files -/

/-- The segments of a path that does not end with a slash are its names. -/
theorem nameSegments_eq {front : List Segment} {last : Segment}
    (h : segments path.toList = front ++ [last]) (hne : last ≠ []) :
    nameSegments path = front ++ [last] := by
  rw [nameSegments, h, List.reverse_append, List.reverse_singleton, List.singleton_append,
    List.dropWhile_cons_of_neg (by simpa using hne), List.reverse_cons, List.reverse_reverse]

/-- The last of the segments up to the name of a path is that name. -/
theorem ne_nil_of_nameSegments {front : List Segment} {last : Segment}
    (h : nameSegments path = front ++ [last]) : last ≠ [] := by
  rintro rfl
  have hrev := congrArg List.reverse h
  rw [nameSegments, List.reverse_reverse, List.reverse_append] at hrev
  have hhead := List.head?_dropWhile_not (· = []) (segments path.toList).reverse
  rw [hrev] at hhead
  simp at hhead

/-- Where something can be put: a directory that is there, and the name that a path gives in it. -/
structure PutsAt (fs : FileSystem) (path : String) (above : List String) (segment : Segment) :
    Prop where
  parent : fs.locateParent path = .ok (above, segment)
  directory : fs.isDirectoryAt above
  name : checkName segment = .ok (String.ofList segment)
  ne_here : segment ≠ Path.here
  ne_parent : segment ≠ Path.parent

/-- Where something is put under the last name of a path, the segments up to the name lead there. -/
theorem PutsAt.foldlM_nameSegments {segment : Segment} (h : PutsAt fs path above segment)
    (hextends : Extends fs fs')
    (hsome : (fs'.at? (above ++ [String.ofList segment])).isSome) :
    (nameSegments path).foldlM fs'.follow (fs'.startOf path) =
      .ok (above ++ [String.ofList segment]) := by
  obtain ⟨h, habove, hname, hhere, hup⟩ := h
  rw [locateParent] at h
  obtain ⟨⟨⟩, -, h⟩ := Activity.bind_eq_ok.mp h
  obtain ⟨place, hfold, h⟩ := Activity.bind_eq_ok.mp h
  cases h
  rcases List.eq_nil_or_concat' (nameSegments path) with hnil | ⟨front, last, hnames⟩
  · rw [hnil] at hhere
    exact absurd rfl hhere
  · have hlast := ne_nil_of_nameSegments hnames
    rw [hnames, List.getLast?_concat, Option.getD_some] at hhere hup hname hsome ⊢
    rw [hnames, List.dropLast_concat] at hfold
    have hfollow := follow_of_isSome (hextends.directory _ habove) hlast hhere hup hname hsome
    rw [startOf_congr hextends.workDir, List.foldlM_append, foldlM_follow_mono hextends hfold]
    show [last].foldlM fs'.follow _ = _
    rw [List.foldlM_cons, hfollow]
    rfl

/-- A directory that is made is new, in a directory that is there, under the last name of its
path. -/
theorem exists_of_makeDirectory (h : fs.makeDirectory path = .ok fs') :
    ∃ above segment, PutsAt fs path above segment ∧
      fs.at? (above ++ [String.ofList segment]) = none ∧
      fs' = fs.withAt (above ++ [String.ofList segment]) (.directory []) := by
  rw [makeDirectory] at h
  obtain ⟨⟨above, segment⟩, hparent, h⟩ := Activity.bind_eq_ok.mp h
  dsimp only at h
  split at h
  · cases h
  next habove =>
    split at h
    · cases h
    next hdots =>
      obtain ⟨hhere, hup⟩ := not_or.mp hdots
      obtain ⟨name, hname, h⟩ := Activity.bind_eq_ok.mp h
      obtain rfl := checkName_eq_ok hname
      split at h
      · cases h
      next hnone =>
        cases h
        exact ⟨above, segment, ⟨hparent, by simpa using habove, hname, hhere, hup⟩,
          by simpa using hnone, rfl⟩

/-- Making a directory takes nothing away and changes no file. -/
theorem makeDirectory_spec (h : fs.makeDirectory path = .ok fs') :
    Extends fs fs' ∧ fs'.bytes? = fs.bytes? := by
  obtain ⟨above, segment, hputs, hnone, rfl⟩ := exists_of_makeDirectory h
  have habove := hputs.directory
  refine ⟨extends_withAt habove ?_ _, funext (bytes?_withAt_directory habove hnone)⟩
  rw [isDirectoryAt, hnone]
  exact Bool.false_ne_true

/-- What is kept whenever one directory is made, is kept when several are, whether or not all of them
can be. -/
theorem makeDirectoriesFrom_induction {P : FileSystem → Prop}
    (hP : ∀ fs fs' path, makeDirectory fs path = .ok fs' → P fs → P fs') (fuel : Nat)
    (path : String) (hfs : P fs) : P (makeDirectoriesFrom fuel fs path).2 := by
  induction fuel generalizing fs path with
  | zero => exact hfs
  | succ fuel ih =>
      rw [makeDirectoriesFrom]
      split
      · exact hfs
      · split
        next hmade => exact hP _ _ _ hmade hfs
        next hmissing =>
          split
          next => exact hfs
          next parent hparent =>
            have habove := ih parent hfs
            rcases hout : makeDirectoriesFrom fuel fs parent with ⟨fault | ⟨⟩, fs₁⟩
            · rw [hout] at habove
              exact habove
            · rw [hout] at habove
              dsimp only
              split
              next hmade => exact hP _ _ _ hmade habove
              next => exact habove
        next => exact hfs

/-- What is kept whenever one directory is made, is kept when those above a path are. -/
theorem makeParents_induction {P : FileSystem → Prop}
    (hP : ∀ fs fs' path, makeDirectory fs path = .ok fs' → P fs → P fs') (path : String)
    (hfs : P fs) : P (fs.makeParents path).2 := by
  rw [makeParents]
  split
  · exact makeDirectoriesFrom_induction hP _ _ hfs
  · exact hfs

/-- Making the directories above a path takes nothing away and changes no file. -/
theorem makeParents_spec (fs : FileSystem) (path : String) :
    Extends fs (fs.makeParents path).2 ∧ (fs.makeParents path).2.bytes? = fs.bytes? := by
  refine makeParents_induction (P := fun fs₁ => Extends fs fs₁ ∧ fs₁.bytes? = fs.bytes?)
    (fun fs₁ fs₂ path hmade hfs₁ => ?_) path ⟨.refl, rfl⟩
  obtain ⟨hextends, hbytes⟩ := makeDirectory_spec hmade
  exact ⟨hfs₁.1.trans hextends, hbytes.trans hfs₁.2⟩

/-- A file that is written stands in a directory that is there, under the last name of its path. -/
theorem exists_of_write {content : ByteArray} (h : fs.write path content = .ok fs') :
    ∃ above segment, PutsAt fs path above segment ∧
      ¬ fs.isDirectoryAt (above ++ [String.ofList segment]) ∧ path.toList.getLast? ≠ some '/' ∧
      fs' = fs.withAt (above ++ [String.ofList segment]) (.file content) := by
  rw [write] at h
  obtain ⟨⟨above, segment⟩, hparent, h⟩ := Activity.bind_eq_ok.mp h
  dsimp only at h
  split at h
  · cases h
  next habove =>
    split at h
    · cases h
    next hplain =>
      obtain ⟨hend, hdots⟩ := not_or.mp hplain
      obtain ⟨hhere, hup⟩ := not_or.mp hdots
      obtain ⟨name, hname, h⟩ := Activity.bind_eq_ok.mp h
      obtain rfl := checkName_eq_ok hname
      split at h
      · cases h
      next hnot =>
        cases h
        refine ⟨above, segment, ⟨hparent, by simpa using habove, hname, hhere, hup⟩,
          fun hdir => ?_, by simpa using hend, rfl⟩
        obtain ⟨entries, hentries⟩ := isDirectoryAt_iff.mp hdir
        exact hnot entries hentries

/-- Where a file is written, its path leads to it, and it is all that is new there and all that has
other bytes. -/
theorem write_spec {content : ByteArray} (h : fs.write path content = .ok fs') :
    Extends fs fs' ∧ ∃ place, fs'.locate path = .ok place ∧
      fs'.bytes? = Function.update fs.bytes? place (some content) ∧
      ∀ new, (fs'.at? new).isSome → (fs.at? new).isSome ∨ new = place := by
  obtain ⟨above, segment, hputs, hplace, hend, rfl⟩ := exists_of_write h
  have habove := hputs.directory
  have hextends := extends_withAt habove hplace (.file content)
  refine ⟨hextends, _, ?_, bytes?_withAt_file habove hplace content,
    fun new hnew => isSome_withAt habove (fun _ _ => rfl) hnew⟩
  have hself := at?_withAt_append fs (above ++ [String.ofList segment]) [] (.file content)
  rw [List.append_nil] at hself
  have hfold := hputs.foldlM_nameSegments hextends (by rw [hself]; rfl)
  obtain ⟨⟨⟩, hcheck, -⟩ := Activity.bind_eq_ok.mp hputs.parent
  have hne : path.toList ≠ [] := by
    intro hnil
    rw [String.toList_eq_nil_iff.mp hnil] at hcheck
    cases hcheck
  obtain ⟨front, last, hsegments, hlast⟩ := Path.exists_last_segment hend hne
  rw [nameSegments_eq hsegments hlast, ← hsegments] at hfold
  rw [locate, hcheck]
  exact hfold

/-! ## Saving -/

/-- Makes the directories above a file and writes it. -/
def save (fs : FileSystem) (path text : String) : Except FileFault FileSystem :=
  match fs.makeParents path with
  | (.ok (), fs) => fs.writeText path text
  | (.error fault, _) => .error fault

/-- A file is saved exactly if the directories above it can be made and it can be written there. -/
theorem save_eq_ok : fs.save path text = .ok fs' ↔
    (fs.makeParents path).1 = .ok () ∧ (fs.makeParents path).2.writeText path text = .ok fs' := by
  rw [save]
  rcases fs.makeParents path with ⟨fault | ⟨⟩, fs₁⟩
  · simp
  · simp

/-- The path of a file below a directory. -/
def pathBelow (directory : String) (p : List Char) : String := Path.join directory (String.ofList p)

/-- Saves files below a directory, one after another. -/
def saveAll (directory : String) : List (List Char × String) → FileSystem →
    Except FileFault FileSystem
  | [], fs => .ok fs
  | (p, text) :: files, fs => do
    saveAll directory files (← fs.save (pathBelow directory p) text)

theorem pathBelow_injective {p q : List Char} (hp : Plain p) (hq : Plain q)
    (h : pathBelow directory p = pathBelow directory q) : p = q := by
  have hchars := congrArg String.toList h
  rw [pathBelow, pathBelow, Path.join, Path.join, String.toList_ofList, String.toList_ofList,
    String.toList_ofList, String.toList_ofList] at hchars
  exact Path.joinChars_injective _ hp.isAbsolute_eq hq.isAbsolute_eq hchars

/-- Where a file is saved, its path leads to it, and the bytes there are all that changes. -/
theorem save_spec (h : fs.save path text = .ok fs') :
    Extends fs fs' ∧ ∃ place, fs'.locate path = .ok place ∧
      fs'.bytes? = Function.update fs.bytes? place (some text.toUTF8) := by
  obtain ⟨hextends, hbytes⟩ := makeParents_spec fs path
  obtain ⟨hextends', place, hplace, hbytes', -⟩ := write_spec (save_eq_ok.mp h).2
  exact ⟨hextends.trans hextends', place, hplace, hbytes ▸ hbytes'⟩

theorem saveAll_cons (h : saveAll directory ((p, text) :: files) fs = .ok fs') :
    ∃ fs₁, fs.save (pathBelow directory p) text = .ok fs₁ ∧
      saveAll directory files fs₁ = .ok fs' := Activity.bind_eq_ok.mp h

theorem extends_saveAll (h : saveAll directory files fs = .ok fs') : Extends fs fs' := by
  induction files generalizing fs with
  | nil =>
      cases h
      exact .refl
  | cons file files ih =>
      obtain ⟨fs₁, hsave, hafter⟩ := saveAll_cons h
      exact (save_spec hsave).1.trans (ih hafter)

/-- The path of every file leads to a place. -/
theorem exists_locate_of_saveAll (h : saveAll directory files fs = .ok fs')
    {file : List Char × String} (hfile : file ∈ files) :
    ∃ place, fs'.locate (pathBelow directory file.1) = .ok place := by
  induction files generalizing fs with
  | nil => cases hfile
  | cons first files ih =>
      obtain ⟨fs₁, hsave, hafter⟩ := saveAll_cons h
      rcases List.mem_cons.mp hfile with rfl | hfile
      · obtain ⟨-, place, hplace, -⟩ := save_spec hsave
        exact ⟨place, locate_mono (extends_saveAll hafter) hplace⟩
      · exact ih hafter hfile

/-- Where no path of a file leads, the bytes are as before. -/
theorem bytes?_saveAll_elsewhere (h : saveAll directory files fs = .ok fs')
    (hplace : ∀ file ∈ files, fs'.locate (pathBelow directory file.1) ≠ .ok place) :
    fs'.bytes? place = fs.bytes? place := by
  induction files generalizing fs with
  | nil =>
      cases h
      rfl
  | cons first files ih =>
      obtain ⟨fs₁, hsave, hafter⟩ := saveAll_cons h
      obtain ⟨-, place₁, hplace₁, hbytes⟩ := save_spec hsave
      have hne : place ≠ place₁ := by
        rintro rfl
        exact hplace first List.mem_cons_self (locate_mono (extends_saveAll hafter) hplace₁)
      rw [ih hafter fun file hfile => hplace file (List.mem_cons_of_mem _ hfile), hbytes,
        Function.update_of_ne hne]

/-- If no two files have one path, each holds its own text. -/
theorem bytes?_saveAll (h : saveAll directory files fs = .ok fs')
    (hplain : ∀ file ∈ files, Plain file.1) (hnodup : (files.map Prod.fst).Nodup)
    {file : List Char × String} (hfile : file ∈ files)
    (hplace : fs'.locate (pathBelow directory file.1) = .ok place) :
    fs'.bytes? place = some file.2.toUTF8 := by
  induction files generalizing fs with
  | nil => cases hfile
  | cons first files ih =>
      obtain ⟨fs₁, hsave, hafter⟩ := saveAll_cons h
      obtain ⟨hfirst, hnodup⟩ := List.nodup_cons.mp hnodup
      have hrest : ∀ file ∈ files, Plain file.1 := fun file hfile =>
        hplain file (List.mem_cons_of_mem _ hfile)
      rcases List.mem_cons.mp hfile with rfl | hfile
      · obtain ⟨-, place₁, hplace₁, hbytes⟩ := save_spec hsave
        rw [locate_mono (extends_saveAll hafter) hplace₁] at hplace
        cases hplace
        rw [bytes?_saveAll_elsewhere hafter fun other hother hlead => ?_, hbytes,
          Function.update_self]
        have heq := eq_of_locate_join (hrest other hother) (hplain file List.mem_cons_self) hlead
          (locate_mono (extends_saveAll hafter) hplace₁)
        exact hfirst (heq ▸ List.mem_map_of_mem hother)
      · exact ih hafter hrest hnodup hfile

end Stencil.FileSystem
