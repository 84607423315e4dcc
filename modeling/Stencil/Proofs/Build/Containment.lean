/-
Module files stay below the output directory.

The identifier of a module may be any text.  The part of it that names the template is brought into
normal form, and there are three cases: it names nothing below the output directory, it goes up from
there, or it is a row of names.  Only in the last case does the module have a file, and its path is
the directory and the names.  Whatever modules are written, in whatever order and with whatever
faults, files change below the directory only, directories are made only on the way there and below
it, and a path is noted for a file that holds the text of its module.
-/
import Mathlib
import Stencil.Proofs.Build.Directory
import Stencil.Proofs.Files.Base
import Stencil.Proofs.Path.Canonical

namespace Stencil

namespace Path

variable {p : List Char}

/-! ## Nothing, up, or names -/

/-- A normal form without its slash is empty if it was nothing but that slash. -/
theorem relativeChars_normalizeChars_eq_nil_iff :
    relativeChars (normalizeChars p) = [] ↔ normalizeChars p = [] ∨ normalizeChars p = ['/'] := by
  rw [relativeChars_normalizeChars, normalizeChars_eq]
  have hhead := head?_joinSegments (standing_location (isAbsolute p) p)
  generalize (location (isAbsolute p) p).reverse = segs at hhead
  cases isAbsolute p with
  | true => simp [ofSegments]
  | false =>
      have hslash : joinSegments segs ≠ ['/'] := by
        intro h
        rw [h] at hhead
        exact hhead rfl
      simp [ofSegments, hslash]

/-- A normal form goes up somewhere only if it starts by going up. -/
theorem parent_mem_segments_iff :
    parent ∈ segments (relativeChars (normalizeChars p)) ↔
      (segments (normalizeChars p)).head? = some parent := by
  have hstanding := standing_location (isAbsolute p) p
  have hsegments := segments_ofSegments hstanding
  rw [relativeChars_normalizeChars, normalizeChars_eq, hsegments]
  by_cases hloc : location (isAbsolute p) p = []
  · rw [hloc]
    cases isAbsolute p <;> decide
  · rw [if_neg hloc, segments_joinSegments (by simpa using hloc) fun s hs =>
      (hstanding.mem (List.mem_reverse.mp hs)).2.2]
    obtain ⟨climbs, names, hstack, hnames, hclimbs⟩ := hstanding.exists_climbs
    have hparent : parent ∉ names := fun hmem => (hnames parent hmem).2.2.2 rfl
    rw [hstack, List.reverse_append, List.reverse_replicate]
    cases climbs with
    | succ climbs =>
        have hrelative : isAbsolute p = false := by
          by_contra habsolute
          exact Nat.succ_ne_zero _ (hclimbs (by simpa using habsolute))
        simp [hrelative, List.replicate_succ]
    | zero =>
        have hhead : names.reverse.head? ≠ some parent := fun h =>
          hparent (List.mem_reverse.mp (List.mem_of_head? h))
        have hne : [] ≠ parent := by decide
        cases isAbsolute p with
        | true => simp [hparent, hne]
        | false => simpa [hparent] using hhead

end Path

namespace ModuleDirectory

open FileSystem (pathBelow baseOf Below Extends OnTheWay)
open Stencil.Path (Plain Segment IsName segments joinSegments baseSegments normalizeChars)

variable {d d' : ModuleDirectory} {files files' : FileSystem} {id path text : String}
  {rel : List Char}

/-- The part of an identifier that names the template: what stands behind the first separator, or
all of it where there is none. -/
def templatePart (id : String) : List Char :=
  ((Text.splitOnce? pluginSeparator id.toList).map (·.2)).getD id.toList

/-- Whether an identifier names no file below the output directory: its template is nothing there,
or leads up from there. -/
def Unplaced (id : String) : Prop :=
  normalizeChars (templatePart id) = [] ∨ normalizeChars (templatePart id) = ['/'] ∨
    (segments (normalizeChars (templatePart id))).head? = some Path.parent

theorem relativePath?_eq_none_iff : relativePath? id = none ↔ Unplaced id := by
  rw [relativePath?, ← templatePart, Unplaced, ← or_assoc,
    ← Path.relativeChars_normalizeChars_eq_nil_iff, ← Path.parent_mem_segments_iff]
  simp [or_iff_not_imp_left]

/-- The names on the way from the output directory to the file of a module. -/
structure FileNames (names : List Segment) : Prop where
  ne_nil : names ≠ []
  isName : ∀ s ∈ names, IsName s
  ending : ∃ last, names.getLast? = some last ∧ fileEnd.toList <:+ last

theorem fileNames_segments (h : relativePath? id = some rel) :
    FileNames (segments (filePath rel)) where
  ne_nil := Path.segments_ne_nil _
  isName s hs := ⟨Path.not_mem_of_mem_segments hs, plain_filePath h s hs⟩
  ending := by
    obtain ⟨front, last, hrel⟩ :=
      (List.eq_nil_or_concat' (segments rel)).resolve_left (Path.segments_ne_nil rel)
    have hend : '/' ∉ fileEnd.toList := by decide
    rw [filePath, Path.segments_append_of_not_mem hrel hend]
    exact ⟨_, List.getLast?_concat, List.suffix_append _ _⟩

/-- What the path of a module is: the root, and names behind it. -/
structure IsFilePath (root path : String) (names : List Segment) : Prop
    extends FileNames names where
  joined : path = pathBelow root (joinSegments names)
  segments : segments path.toList = baseSegments root.toList ++ names

theorem isFilePath_pathBelow (h : relativePath? id = some rel) (root : String) :
    IsFilePath root (pathBelow root (filePath rel)) (segments (filePath rel)) where
  toFileNames := fileNames_segments h
  joined := by rw [Path.joinSegments_segments]
  segments := by
    rw [pathBelow, Path.join, String.toList_ofList, String.toList_ofList,
      Path.segments_joinChars _ (plain_filePath h).isAbsolute_eq]

/-! ## One write -/

/-- What writing modules below a directory may do to the files. -/
structure Contained (root : String) (files files' : FileSystem) : Prop where
  kept : Extends files files'
  changed : ∀ place, files'.bytes? place ≠ files.bytes? place → Below files' root place
  made : ∀ place, (files'.at? place).isSome →
    (files.at? place).isSome ∨ OnTheWay files' root place ∨ Below files' root place

theorem Contained.refl (root : String) (files : FileSystem) : Contained root files files where
  kept := .refl
  changed _ h := absurd rfl h
  made _ h := .inl h

theorem Contained.trans {root : String} {files₁ files₂ files₃ : FileSystem}
    (h : Contained root files₁ files₂) (h' : Contained root files₂ files₃) :
    Contained root files₁ files₃ where
  kept := h.kept.trans h'.kept
  changed place hplace := by
    by_cases hlater : files₃.bytes? place = files₂.bytes? place
    · exact (h.changed place (hlater ▸ hplace)).mono h'.kept
    · exact h'.changed place hlater
  made place hplace := by
    rcases h'.made place hplace with hold | hnew
    · exact (h.made place hold).imp_right
        (Or.imp (fun hway => hway.mono h'.kept) (fun hbelow => hbelow.mono h'.kept))
    · exact .inr hnew

/-- The file of a module that is written holds its text, and its path is noted.  If it cannot be
written, nothing is noted and no file changes. -/
inductive Written (id text : String) (files : FileSystem) (d : ModuleDirectory) :
    Except Error Unit × FileSystem × ModuleDirectory → Prop
  | written {path : String} {place : List String} {files' : FileSystem}
      (hpath : d.modulePath id = .ok path) (hplace : files'.locate path = .ok place)
      (hbytes : files'.bytes? = Function.update files.bytes? place (some text.toUTF8)) :
      Written id text files d (.ok (), files', { d with written := d.written ++ [path] })
  | refused {files' : FileSystem} (reason : String) (hbytes : files'.bytes? = files.bytes?) :
      Written id text files d (.error (.write id reason), files', d)

theorem written_write (id text : String) (files : FileSystem) (d : ModuleDirectory) :
    Written id text files d ((write id text).run.run (files, d)) := by
  rw [run_write]
  cases hpath : d.modulePath id with
  | error e =>
      have he : ∃ reason, e = .write id reason := by
        rw [modulePath] at hpath
        split at hpath
        · cases hpath
        · cases hpath
          exact ⟨_, rfl⟩
      obtain ⟨reason, rfl⟩ := he
      exact .refused reason rfl
  | ok path =>
      obtain ⟨-, hmade⟩ := FileSystem.makeParents_spec files path
      dsimp only
      rcases hparents : files.makeParents path with ⟨fault | ⟨⟩, made⟩
      · rw [hparents] at hmade
        exact .refused _ hmade
      · rw [hparents] at hmade
        dsimp only at hmade ⊢
        cases hwrite : made.writeText path text with
        | error fault => exact .refused _ hmade
        | ok files' =>
            obtain ⟨-, place, hplace, hbytes, -⟩ := FileSystem.write_spec hwrite
            exact .written hpath hplace (hmade ▸ hbytes)

theorem contained_makeParents (hplain : Plain rel) (root : String) (files : FileSystem) :
    Contained root files (files.makeParents (pathBelow root rel)).2 where
  kept := (FileSystem.makeParents_spec files _).1
  changed place hplace := absurd (congrFun (FileSystem.makeParents_spec files _).2 place) hplace
  made _ hplace := (FileSystem.makeParents_new hplace).imp_right fun hway =>
    hway.of_pathBelow hplain

theorem contained_write (id text : String) (files : FileSystem) (d : ModuleDirectory) :
    Contained d.root files ((write id text).run.run (files, d)).2.1 := by
  rw [run_write]
  cases hpath : d.modulePath id with
  | error e => exact .refl _ _
  | ok path =>
      obtain ⟨rel, hrel, rfl⟩ := modulePath_eq_ok.mp hpath
      have hplain := plain_filePath hrel
      have hmade := contained_makeParents hplain d.root files
      dsimp only
      rcases hparents : files.makeParents (pathBelow d.root (filePath rel)) with ⟨above, made⟩
      rw [hparents] at hmade
      cases above with
      | error fault => exact hmade
      | ok u =>
          dsimp only
          cases hwrite : made.writeText (pathBelow d.root (filePath rel)) text with
          | error fault => exact hmade
          | ok files' =>
              obtain ⟨hextends', file, hfile, hbytes', hnew'⟩ := FileSystem.write_spec hwrite
              have hbelow := FileSystem.below_of_locate hplain hfile
              refine hmade.trans ⟨hextends', ?_, ?_⟩
              · intro place hplace
                rw [hbytes'] at hplace
                by_cases heq : place = file
                · rwa [heq]
                · exact absurd (Function.update_of_ne heq _ _) hplace
              · intro place hplace
                rcases hnew' place hplace with hold | rfl
                · exact .inl hold
                · exact .inr (.inr hbelow)

/-! ## Several writes -/

/-- What is left after modules were written, each as far as it could be. -/
def afterWrites (requests : List (String × String)) (files : FileSystem) (d : ModuleDirectory) :
    FileSystem × ModuleDirectory :=
  requests.foldl (fun s request => ((write request.1 request.2).run.run s).2) (files, d)

/-- A path leads to a place where the text of a request for it is. -/
def Holds (d : ModuleDirectory) (files : FileSystem) (requests : List (String × String))
    (path : String) (place : List String) : Prop :=
  ∃ request ∈ requests, d.modulePath request.1 = .ok path ∧ files.locate path = .ok place ∧
    files.bytes? place = some request.2.toUTF8

theorem Holds.cons {requests : List (String × String)} {place : List String}
    (h : Holds d files requests path place) (request : String × String) :
    Holds d files (request :: requests) path place := by
  obtain ⟨request', hmem, h⟩ := h
  exact ⟨request', List.mem_cons_of_mem _ hmem, h⟩

/-- Two modules whose paths lead to one place have one path. -/
theorem eq_of_locate_modulePath {id' path' : String} {place : List String}
    (hpath : d.modulePath id = .ok path) (hpath' : d.modulePath id' = .ok path')
    (h : files.locate path = .ok place) (h' : files.locate path' = .ok place) : path = path' := by
  obtain ⟨rel, hrel, rfl⟩ := modulePath_eq_ok.mp hpath
  obtain ⟨rel', hrel', rfl⟩ := modulePath_eq_ok.mp hpath'
  rw [FileSystem.eq_of_locate_join (plain_filePath hrel) (plain_filePath hrel') h h']

/-- After several writes the paths that were noted lead to all files that have changed, and each
holds the text of a module that has this path. -/
theorem afterWrites_spec (requests : List (String × String)) (files : FileSystem)
    (d : ModuleDirectory) :
    Contained d.root files (afterWrites requests files d).1 ∧
      ∃ new, (afterWrites requests files d).2 = { d with written := d.written ++ new } ∧
        (∀ path ∈ new, ∃ place, Holds d (afterWrites requests files d).1 requests path place) ∧
        ∀ place, (afterWrites requests files d).1.bytes? place ≠ files.bytes? place →
          ∃ path ∈ new, Holds d (afterWrites requests files d).1 requests path place := by
  induction requests generalizing files d with
  | nil =>
      exact ⟨.refl _ _, [], by simp [afterWrites], List.forall_mem_nil _,
        fun place h => absurd rfl h⟩
  | cons request requests ih =>
      obtain ⟨id, text⟩ := request
      have hfirst := contained_write id text files d
      have hwritten := written_write id text files d
      rw [afterWrites, List.foldl_cons]
      dsimp only
      rcases hrun : (write id text).run.run (files, d) with ⟨outcome, files₁, d₁⟩
      rw [hrun] at hfirst hwritten
      obtain ⟨hrest, new, hnew, hnoted, hchanged⟩ := ih files₁ d₁
      rw [afterWrites] at hrest hnew hnoted hchanged
      generalize requests.foldl
        (fun s request => ((write request.1 request.2).run.run s).2) (files₁, d₁) = last at *
      cases hwritten with
      | refused reason hbytes =>
          refine ⟨hfirst.trans hrest, new, hnew, ?_, ?_⟩
          · intro path hpath
            obtain ⟨place, hholds⟩ := hnoted path hpath
            exact ⟨place, hholds.cons _⟩
          · intro place hplace
            obtain ⟨path, hpath, hholds⟩ := hchanged place (hbytes ▸ hplace)
            exact ⟨path, hpath, hholds.cons _⟩
      | @written path place₁ _ hpath hplace hbytes =>
          have hlocate := FileSystem.locate_mono hrest.kept hplace
          -- A later write to the place is a write of a module with the same path.
          have hholds : Holds d last.1 ((id, text) :: requests) path place₁ := by
            by_cases hlater : last.1.bytes? place₁ = files₁.bytes? place₁
            · refine ⟨_, List.mem_cons_self, hpath, hlocate, ?_⟩
              rw [hlater, hbytes, Function.update_self]
            · obtain ⟨path', -, request', hrequest', hpath', hlocate', htext⟩ :=
                hchanged place₁ hlater
              obtain rfl := eq_of_locate_modulePath hpath hpath' hlocate hlocate'
              exact ⟨request', List.mem_cons_of_mem _ hrequest', hpath', hlocate, htext⟩
          refine ⟨hfirst.trans hrest, path :: new, ?_, ?_, ?_⟩
          · rw [hnew, List.append_assoc]
            rfl
          · rw [List.forall_mem_cons]
            refine ⟨⟨place₁, hholds⟩, ?_⟩
            intro path' hpath'
            obtain ⟨place, hholds'⟩ := hnoted path' hpath'
            exact ⟨place, hholds'.cons _⟩
          · intro place hchange
            by_cases hlater : last.1.bytes? place = files₁.bytes? place
            · rw [hlater, hbytes] at hchange
              obtain rfl : place = place₁ := by
                by_contra hne
                exact hchange (Function.update_of_ne hne _ _)
              exact ⟨path, List.mem_cons_self, hholds⟩
            · obtain ⟨path', hpath', hholds'⟩ := hchanged place hlater
              exact ⟨path', List.mem_cons_of_mem _ hpath', hholds'.cons _⟩

/-! ## Result -/

theorem modulePath_cases (d : ModuleDirectory) (id : String) :
    (Unplaced id ∧ d.modulePath id =
      .error (.write id "module id does not name a file under the output directory")) ∨
    (¬ Unplaced id ∧ ∃ path names, d.modulePath id = .ok path ∧ IsFilePath d.root path names) := by
  rw [← relativePath?_eq_none_iff]
  cases hrel : relativePath? id with
  | none => exact .inl ⟨rfl, by rw [modulePath, hrel]⟩
  | some rel =>
      exact .inr ⟨Option.some_ne_none rel, _, _, modulePath_eq_ok.mpr ⟨rel, hrel, rfl⟩,
        isFilePath_pathBelow hrel d.root⟩

/-- An identifier of a module has no path exactly if its template, in normal form, is nothing below
the root or starts by going up; otherwise its path is the root and names behind it, of which the
last has the end of a module file.  A module that is written is at its path and the path is noted;
if it cannot be written, no file changes and nothing is noted.  After any row of writes, files have
changed only below the root, what is new besides is on the way to the root or below it, all files
that have changed are at paths that were noted, and at each of these is the text of a module that
has this path. -/
theorem modules_stay_below_root (d : ModuleDirectory) (files : FileSystem) :
    (∀ plugin name, pluginSeparator ∉ plugin.toList →
      templatePart (moduleId plugin name) = name.toList) ∧
    (∀ id, pluginSeparator ∉ id.toList → templatePart id = id.toList) ∧
    (∀ id, (Unplaced id ∧ d.modulePath id =
        .error (.write id "module id does not name a file under the output directory")) ∨
      (¬ Unplaced id ∧ ∃ path names, d.modulePath id = .ok path ∧
        IsFilePath d.root path names)) ∧
    (∀ id text, Written id text files d ((write id text).run.run (files, d))) ∧
    ∀ requests, Contained d.root files (afterWrites requests files d).1 ∧
      ∃ new, (afterWrites requests files d).2 = { d with written := d.written ++ new } ∧
        (∀ path ∈ new, ∃ request ∈ requests, d.modulePath request.1 = .ok path ∧
          (afterWrites requests files d).1.readText path = .ok request.2) ∧
        ∀ place, (afterWrites requests files d).1.bytes? place ≠ files.bytes? place →
          ∃ path ∈ new, (afterWrites requests files d).1.locate path = .ok place := by
  refine ⟨?_, ?_, modulePath_cases d, fun id text => written_write id text files d, ?_⟩
  · intro plugin name h
    rw [templatePart, toList_moduleId, Text.splitOnce?_append h]
    rfl
  · intro id h
    rw [templatePart, Text.splitOnce?_of_not_mem h]
    rfl
  · intro requests
    obtain ⟨hcontained, new, hnew, hnoted, hchanged⟩ := afterWrites_spec requests files d
    refine ⟨hcontained, new, hnew, ?_, ?_⟩
    · intro path hpath
      obtain ⟨place, request, hrequest, hpath, hlocate, htext⟩ := hnoted path hpath
      exact ⟨request, hrequest, hpath, FileSystem.readText_of_bytes? hlocate htext⟩
    · intro place hplace
      obtain ⟨path, hpath, -, -, -, hlocate, -⟩ := hchanged place hplace
      exact ⟨path, hpath, hlocate⟩

/-- Two writes into an empty directory, of which the first one would lead out of it. -/
theorem modules_stay_below_root_up :
    (pluginSeparator ∉ "hgn".toList ∧ templatePart (moduleId "hgn" "../x") = "../x".toList) ∧
    (pluginSeparator ∉ "/a".toList ∧ templatePart "/a" = "/a".toList) ∧
    (Unplaced "hgn!../x" ∧ ¬ ∃ path, modulePath ⟨"out", []⟩ "hgn!../x" = .ok path) ∧
    (afterWrites [("hgn!../x", "A"), ("hgn!/a", "B")] .empty ⟨"out", []⟩).2.written =
      ["out/a.module.json"] ∧
    (afterWrites [("hgn!../x", "A"), ("hgn!/a", "B")] .empty ⟨"out", []⟩).1.readText
      "out/a.module.json" = .ok "B" := by
  obtain ⟨hmarked, hplain, hpath, -, hrun⟩ := modules_stay_below_root ⟨"out", []⟩ .empty
  have hplugin : pluginSeparator ∉ "hgn".toList := by decide
  have hname : pluginSeparator ∉ "/a".toList := by decide
  refine ⟨⟨hplugin, hmarked "hgn" "../x" hplugin⟩, ⟨hname, hplain "/a" hname⟩, ?_, ?_⟩
  · have hup : Unplaced "hgn!../x" := .inr (.inr (by decide))
    refine ⟨hup, ?_⟩
    rintro ⟨path, hok⟩
    rcases hpath "hgn!../x" with ⟨-, herror⟩ | ⟨hnot, -⟩
    · rw [herror] at hok
      cases hok
    · exact hnot hup
  · have hwritten : (afterWrites [("hgn!../x", "A"), ("hgn!/a", "B")] .empty
        ⟨"out", []⟩).2.written = ["out/a.module.json"] := by decide +kernel
    obtain ⟨-, new, hnew, hnoted, -⟩ := hrun [("hgn!../x", "A"), ("hgn!/a", "B")]
    rw [hnew] at hwritten
    obtain rfl : new = ["out/a.module.json"] := hwritten
    obtain ⟨request, hrequest, hpath, htext⟩ := hnoted _ (List.mem_singleton_self _)
    have hrequest' : request = ("hgn!../x", "A") ∨ request = ("hgn!/a", "B") := by
      simpa using hrequest
    rcases hrequest' with rfl | rfl
    · have herror : modulePath ⟨"out", []⟩ "hgn!../x" ≠ .ok "out/a.module.json" := by decide
      exact absurd hpath herror
    · rw [hnew]
      exact ⟨rfl, htext⟩

end ModuleDirectory

end Stencil
