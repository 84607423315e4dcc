/-
Bundles from builds.

A build that was written to a fresh directory is read back from there.  Nothing is lost exactly if
no two modules share a file, no directory is named like a module's file, and all texts are read.
Otherwise a module is overwritten, or the directory is not read at all.
-/
import Mathlib
import Stencil.Proofs.Build.Directory
import Stencil.Proofs.Bundle.Directory
import Stencil.Proofs.Files.Fresh

namespace Stencil

open Stencil.Path (Segment Plain segments)
open FileSystem (pathBelow saveAll EndsWith)
open ModuleDirectory (fileEnd filePath slashless)

namespace Bundle

/-- Whether the text that is written for a record is read as a definition with the identifier of its
module. -/
def Reads (plugin : String) (entry : String × BuildRecord) (d : ModuleDefinition) : Prop :=
  ModuleDefinition.ofText (ModuleText.write plugin entry.2) = .ok d ∧
    d.id = moduleId plugin entry.1

/-- The identifier of the module of a record in a bundle. -/
def key (plugin : String) (entry : String × BuildRecord) : String :=
  moduleId plugin (Path.normalize entry.1)

/-- Whether a bundle has the definitions that are written for some records, and no others. -/
structure HasExactly (plugin : String) (entries : List (String × BuildRecord)) (b : Bundle) :
    Prop where
  ids : ∀ id, id ∈ b.ids ↔ id ∈ entries.map (key plugin)
  definitions : ∀ entry ∈ entries, ∃ d, Reads plugin entry d ∧
    b.definitions.get? (key plugin entry) = some d

end Bundle

namespace ModuleDirectory

variable {rel : List Char} {front : List Segment}

/-- Whether a directory on the way to a module has the name of a module's file. -/
def Passes (rel : List Char) : Prop :=
  ∃ s ∈ (segments rel).dropLast, fileEnd.toList <:+ s

instance (rel : List Char) : Decidable (Passes rel) :=
  inferInstanceAs (Decidable (∃ s ∈ (segments rel).dropLast, fileEnd.toList <:+ s))

theorem exists_segments_filePath (rel : List Char) :
    ∃ last, segments (filePath rel) = (segments rel).dropLast ++ [last ++ fileEnd.toList] := by
  obtain ⟨front, last, hsegments⟩ : ∃ front last, segments rel = front ++ [last] := by
    rcases List.eq_nil_or_concat' (segments rel) with hnil | hconcat
    · exact absurd hnil (Path.segments_ne_nil rel)
    · exact hconcat
  refine ⟨last, ?_⟩
  rw [hsegments, List.dropLast_concat]
  exact Path.segments_append_of_not_mem hsegments (by decide)

theorem endsWith_filePath (rel : List Char) :
    EndsWith fileEnd.toList (segments (filePath rel)) := by
  obtain ⟨last, hlast⟩ := exists_segments_filePath rel
  exact ⟨_, by rw [hlast, List.getLast?_concat], List.suffix_append _ _⟩

/-- What has the name of a module's file on the way to a file is the file, or a directory. -/
theorem eq_or_passes (hfront : front <+: segments (filePath rel))
    (hends : EndsWith fileEnd.toList front) : front = segments (filePath rel) ∨ Passes rel := by
  obtain ⟨last, hlast⟩ := exists_segments_filePath rel
  rw [hlast] at hfront ⊢
  rcases List.prefix_concat_iff.mp hfront with heq | hshort
  · exact .inl heq
  · obtain ⟨s, hs, hend⟩ := hends
    exact .inr ⟨s, hshort.subset (List.mem_of_getLast? hs), hend⟩

theorem exists_of_passes (h : Passes rel) :
    ∃ front name rest, segments (filePath rel) = front ++ name :: rest ∧
      EndsWith fileEnd.toList front := by
  obtain ⟨s, hs, hend⟩ := h
  obtain ⟨last, hlast⟩ := exists_segments_filePath rel
  obtain ⟨before, after, hsplit⟩ := List.append_of_mem hs
  refine ⟨before ++ [s], ?_⟩
  cases after with
  | nil =>
      exact ⟨_, [], by rw [hlast, hsplit], s, List.getLast?_concat, hend⟩
  | cons name rest =>
      exact ⟨name, rest ++ [last ++ fileEnd.toList], by rw [hlast, hsplit]; simp, s,
        List.getLast?_concat, hend⟩

end ModuleDirectory

namespace Bundle

variable {plugin root : String} {entries : List (String × BuildRecord)} {files : FileSystem}
  {base : List String} {paths : List String} {b : Bundle} {ds : List ModuleDefinition}

/-- The segments of the path of a module's file. -/
def fileSegments (entry : String × BuildRecord) : List Segment :=
  segments (filePath (slashless entry.1))

/-- Whether some paths lead, each of them once, to what has the name of a module's file on the way
to the modules of some records, and the paths of the modules lead to their texts. -/
structure Stored (plugin : String) (entries : List (String × BuildRecord)) (files : FileSystem)
    (base : List String) (paths : List String) : Prop where
  distinct : (paths.map files.locate).Nodup
  mem_iff : ∀ found, found ∈ paths.map files.locate ↔ ∃ entry ∈ entries, ∃ front,
    front <+: fileSegments entry ∧ EndsWith fileEnd.toList front ∧
      found = .ok (base ++ front.map String.ofList)
  holds : ∀ entry ∈ entries, (files.at? (base ++ (fileSegments entry).map String.ofList)).isSome
  texts : (entries.map fun entry => slashless entry.1).Nodup → ∀ entry ∈ entries,
    files.bytes? (base ++ (fileSegments entry).map String.ofList) =
      some (ModuleText.write plugin entry.2).toUTF8

/-- The place of a module's file. -/
def place (base : List String) (entry : String × BuildRecord) :
    Except FileFault (List String) :=
  .ok (base ++ (fileSegments entry).map String.ofList)

theorem exists_file_of_readText {path text : String} (h : files.readText path = .ok text) :
    ∃ place content, files.locate path = .ok place ∧ files.at? place = some (.file content) := by
  obtain ⟨t, ht, h⟩ := Activity.bind_eq_ok.mp h
  obtain ⟨place, hplace, hat⟩ := FileSystem.exists_of_find ht
  cases t with
  | directory entries => cases h
  | file content => exact ⟨place, content, hplace, hat⟩

/-- What is on the way to a module's file, before the end, is a directory. -/
theorem Stored.isDirectoryAt (h : Stored plugin entries files base paths)
    {entry : String × BuildRecord} (hentry : entry ∈ entries) {front rest : List Segment}
    {name : Segment} (hsplit : fileSegments entry = front ++ name :: rest) :
    files.isDirectoryAt (base ++ front.map String.ofList) := by
  have hsome := h.holds entry hentry
  rw [hsplit, List.map_append, List.map_cons, ← List.append_assoc] at hsome
  exact FileSystem.isDirectoryAt_of_isSome hsome

/-- If every file that is found is read as a definition, none of them is a directory. -/
theorem Stored.not_passes (h : Stored plugin entries files base paths)
    (hread : ∀ path ∈ paths, ∃ d, definitionAt files path = .ok d)
    {entry : String × BuildRecord} (hentry : entry ∈ entries) :
    ¬ ModuleDirectory.Passes (slashless entry.1) := by
  intro hpasses
  obtain ⟨front, name, rest, hsplit, hends⟩ := ModuleDirectory.exists_of_passes hpasses
  have hfound := (h.mem_iff (.ok (base ++ front.map String.ofList))).mpr
    ⟨entry, hentry, front, ⟨_, hsplit.symm⟩, hends, rfl⟩
  obtain ⟨path, hpath, hlocate⟩ := List.mem_map.mp hfound
  obtain ⟨d, hd⟩ := hread path hpath
  obtain ⟨text, htext, -⟩ := definitionAt_eq_ok.mp hd
  obtain ⟨file, content, hfile, hat⟩ := exists_file_of_readText htext
  rw [hlocate] at hfile
  cases hfile
  obtain ⟨below, hbelow⟩ := FileSystem.isDirectoryAt_iff.mp (h.isDirectoryAt hentry hsplit)
  rw [hat] at hbelow
  cases hbelow

/-- If no directory on the way to a module has the name of a module's file, what is found are the
files of the modules. -/
theorem Stored.mem_places_iff (h : Stored plugin entries files base paths)
    (hpasses : ∀ entry ∈ entries, ¬ ModuleDirectory.Passes (slashless entry.1))
    (found : Except FileFault (List String)) :
    found ∈ paths.map files.locate ↔ found ∈ entries.map (place base) := by
  rw [h.mem_iff, List.mem_map]
  constructor
  · rintro ⟨entry, hentry, front, hfront, hends, rfl⟩
    rcases ModuleDirectory.eq_or_passes hfront hends with rfl | hpass
    · exact ⟨entry, hentry, rfl⟩
    · exact absurd hpass (hpasses entry hentry)
  · rintro ⟨entry, hentry, rfl⟩
    exact ⟨entry, hentry, _, List.prefix_refl _, ModuleDirectory.endsWith_filePath _, rfl⟩

theorem nodup_place_iff :
    (entries.map (place base)).Nodup ↔ (entries.map fun entry => slashless entry.1).Nodup := by
  have hinjective : Function.Injective fun rel : List Char =>
      (Except.ok (base ++ (segments (filePath rel)).map String.ofList) :
        Except FileFault (List String)) := by
    intro p q heq
    have hnames := List.append_cancel_left (Except.ok.inj heq)
    have hsegments : segments (filePath p) = segments (filePath q) :=
      List.map_injective_iff.mpr (fun a b hab => String.ofList_inj.mp hab) hnames
    refine ModuleDirectory.filePath_injective ?_
    rw [← Path.joinSegments_segments (filePath p), hsegments, Path.joinSegments_segments]
  have hplaces : entries.map (place base) = (entries.map fun entry => slashless entry.1).map
      fun rel => Except.ok (base ++ (segments (filePath rel)).map String.ofList) := by
    rw [List.map_map]
    rfl
  rw [hplaces, List.nodup_map_iff hinjective]

/-- If as many files are found as modules were written and all are read, no two modules share a
file. -/
theorem Stored.nodup (h : Stored plugin entries files base paths)
    (hpasses : ∀ entry ∈ entries, ¬ ModuleDirectory.Passes (slashless entry.1))
    (hlength : entries.length = paths.length) :
    (entries.map fun entry => slashless entry.1).Nodup := by
  have hsub : (paths.map files.locate).Subperm (entries.map (place base)) :=
    List.subperm_of_subset h.distinct fun found => (h.mem_places_iff hpasses found).mp
  have hperm := hsub.perm_of_length_le (by rw [List.length_map, List.length_map, hlength])
  exact nodup_place_iff.mp (hperm.nodup_iff.mp h.distinct)

theorem Stored.definitionAt_eq (h : Stored plugin entries files base paths)
    (hnodup : (entries.map fun entry => slashless entry.1).Nodup)
    {entry : String × BuildRecord} (hentry : entry ∈ entries) {d : ModuleDefinition}
    (hd : Reads plugin entry d) {path : String} (hpath : files.locate path = place base entry) :
    definitionAt files path = .ok d := by
  have htext := FileSystem.readText_of_bytes? hpath (h.texts hnodup entry hentry)
  exact definitionAt_eq_ok.mpr ⟨_, htext, hd.1⟩

theorem nodup_key (plugin : String) (h : (entries.map fun entry => slashless entry.1).Nodup) :
    (entries.map (key plugin)).Nodup := by
  refine h.of_map.map_on fun a ha b hb heq => List.inj_on_of_nodup_map h ha hb ?_
  have hnormal := moduleId_injective plugin heq
  have hchars := congrArg String.toList hnormal
  rw [Path.normalize, Path.normalize, String.toList_ofList, String.toList_ofList] at hchars
  exact congrArg Path.relativeChars hchars

theorem key_eq (hplugin : pluginSeparator ∉ plugin.toList) {entry : String × BuildRecord}
    {d : ModuleDefinition} (h : Reads plugin entry d) :
    canonicalModuleId d.id = key plugin entry := by
  rw [h.2, canonicalModuleId_moduleId hplugin, key]

/-- A bundle that was filled with as many definitions as records, among them one that is read for
each record, has exactly these. -/
theorem hasExactly_filled (hplugin : pluginSeparator ∉ plugin.toList)
    (hnodup : (entries.map fun entry => slashless entry.1).Nodup)
    (hlength : ds.length = entries.length)
    (hfound : ∀ entry ∈ entries, ∃ d ∈ ds, Reads plugin entry d) :
    HasExactly plugin entries (ds.foldl (fun b d => (insert d b).2) {}) := by
  have hkeys : (entries.map (key plugin)).Perm (Dict.keys (ds.map Bundle.entry)) := by
    have hsub : (entries.map (key plugin)).Subperm (Dict.keys (ds.map Bundle.entry)) := by
      refine List.subperm_of_subset (nodup_key plugin hnodup) fun id hmem => ?_
      obtain ⟨entry, hentry, rfl⟩ := List.mem_map.mp hmem
      obtain ⟨d, hd, hreads⟩ := hfound entry hentry
      rw [← key_eq hplugin hreads]
      exact List.mem_map_of_mem (List.mem_map_of_mem hd)
    refine hsub.perm_of_length_le ?_
    rw [Dict.keys, List.length_map, List.length_map, List.length_map, hlength]
  have hnodup' : (Dict.keys (ds.map Bundle.entry)).Nodup :=
    hkeys.nodup_iff.mp (nodup_key plugin hnodup)
  refine ⟨fun id => ?_, fun entry hentry => ?_⟩
  · rw [ids, definitions_filled, Dict.mem_keys_ofPairs hnodup', hkeys.mem_iff]
  · obtain ⟨d, hd, hreads⟩ := hfound entry hentry
    refine ⟨d, hreads, ?_⟩
    rw [definitions_filled, Dict.get?_ofPairs_of_nodup hnodup', Dict.get?_eq_some_iff_mem hnodup',
      ← key_eq hplugin hreads]
    exact List.mem_map_of_mem hd

/-- If no two modules share a file, no directory is taken for a file and every text is read, then a
bundle has all modules after every file that is found was added. -/
theorem Stored.exists_hasExactly (hplugin : pluginSeparator ∉ plugin.toList)
    (h : Stored plugin entries files base paths)
    (hnodup : (entries.map fun entry => slashless entry.1).Nodup)
    (hpasses : ∀ entry ∈ entries, ¬ ModuleDirectory.Passes (slashless entry.1))
    (hreads : ∀ entry ∈ entries, ∃ d, Reads plugin entry d) :
    entries.length = paths.length ∧
      ∃ ds, List.Forall₂ (fun path d => definitionAt files path = .ok d) paths ds ∧
        HasExactly plugin entries (ds.foldl (fun b d => (insert d b).2) {}) := by
  have hplaces : (paths.map files.locate).Perm (entries.map (place base)) :=
    (List.perm_ext_iff_of_nodup h.distinct (nodup_place_iff.mpr hnodup)).mpr
      (h.mem_places_iff hpasses)
  have hlength : entries.length = paths.length := by
    simpa using hplaces.length_eq.symm
  have hread : ∀ path ∈ paths, ∃ d, definitionAt files path = .ok d := by
    intro path hpath
    obtain ⟨entry, hentry, heq⟩ :=
      List.mem_map.mp (hplaces.subset (List.mem_map_of_mem hpath))
    obtain ⟨d, hd⟩ := hreads entry hentry
    exact ⟨d, h.definitionAt_eq hnodup hentry hd heq.symm⟩
  obtain ⟨ds, hds⟩ := Activity.exists_forall₂ hread
  refine ⟨hlength, ds, hds, hasExactly_filled hplugin hnodup (by rw [hlength, hds.length_eq])
    fun entry hentry => ?_⟩
  obtain ⟨path, hpath, heq⟩ := List.mem_map.mp
    (hplaces.symm.subset (List.mem_map_of_mem hentry))
  obtain ⟨d, hd⟩ := hreads entry hentry
  obtain ⟨d', hd', hdefinition⟩ := Activity.exists_of_forall₂ hds hpath
  rw [h.definitionAt_eq hnodup hentry hd heq] at hdefinition
  cases hdefinition
  exact ⟨d, hd', hd⟩

end Bundle

namespace BuildSession

open Stencil.Bundle (HasExactly Reads Stored)

variable {plugin root : String} {entries : List (String × BuildRecord)} {n : Nat}
  {files files' : FileSystem} {d' : ModuleDirectory}

theorem filePattern_eq (root : String) :
    Bundle.filePattern root = FileSystem.patternBelow root fileEnd.toList := rfl

theorem exists_stored (hroot : FileSystem.Literal root) (hfresh : files.Fresh root)
    (hplain : ∀ file ∈ entries.map (moduleFile plugin), Plain file.1)
    (h : saveAll root (entries.map (moduleFile plugin)) files = .ok files') :
    ∃ base paths, files'.glob (Bundle.filePattern root) = .ok paths ∧
      Stored plugin entries files' base paths := by
  have hend : ∀ c ∈ fileEnd.toList, Pattern.IsPlain c := by
    simp [fileEnd, Pattern.IsPlain]
  obtain ⟨base, paths, hglob, hdistinct, hmem, hlocate⟩ :=
    FileSystem.exists_glob_of_saveAll hroot hend (by decide) hfresh hplain h
  rw [filePattern_eq]
  refine ⟨base, paths, hglob, hdistinct, fun found => ?_, fun entry hentry => ?_,
    fun hnodup entry hentry => ?_⟩
  · rw [hmem]
    constructor
    · rintro ⟨file, hfile, hfront⟩
      obtain ⟨entry, hentry, rfl⟩ := List.mem_map.mp hfile
      exact ⟨entry, hentry, hfront⟩
    · rintro ⟨entry, hentry, hfront⟩
      exact ⟨_, List.mem_map_of_mem hentry, hfront⟩
  · exact FileSystem.isSome_of_locate (hlocate _ (List.mem_map_of_mem hentry))
  · exact FileSystem.bytes?_saveAll h hplain ((nodup_moduleFile_iff plugin entries).mpr hnodup)
      (List.mem_map_of_mem hentry) (hlocate _ (List.mem_map_of_mem hentry))

theorem addDirectory_iff (hplugin : pluginSeparator ∉ plugin.toList)
    (hroot : FileSystem.Literal root) (hfresh : files.Fresh root)
    (hplain : ∀ file ∈ entries.map (moduleFile plugin), Plain file.1)
    (h : saveAll root (entries.map (moduleFile plugin)) files = .ok files') :
    (∃ b, (Bundle.addDirectory files' root).run.run {} = (.ok entries.length, b) ∧
        HasExactly plugin entries b) ↔
      (entries.map fun entry => slashless entry.1).Nodup ∧
        (∀ entry ∈ entries, ¬ ModuleDirectory.Passes (slashless entry.1)) ∧
        ∀ entry ∈ entries, ∃ d, Reads plugin entry d := by
  obtain ⟨base, paths, hglob, hstored⟩ := exists_stored hroot hfresh hplain h
  simp only [Bundle.addDirectory_eq_ok hglob]
  constructor
  · rintro ⟨b, ⟨hlength, ds, hds, rfl⟩, hexactly⟩
    have hread : ∀ path ∈ paths, ∃ d, Bundle.definitionAt files' path = .ok d := by
      intro path hpath
      obtain ⟨d, -, hd⟩ := Activity.exists_of_forall₂ hds hpath
      exact ⟨d, hd⟩
    have hpasses : ∀ entry ∈ entries, ¬ ModuleDirectory.Passes (slashless entry.1) :=
      fun entry hentry => hstored.not_passes hread hentry
    refine ⟨hstored.nodup hpasses hlength, hpasses, fun entry hentry => ?_⟩
    obtain ⟨d, hd, -⟩ := hexactly.definitions entry hentry
    exact ⟨d, hd⟩
  · rintro ⟨hnodup, hpasses, hreads⟩
    obtain ⟨hlength, ds, hds, hexactly⟩ :=
      hstored.exists_hasExactly hplugin hnodup hpasses hreads
    exact ⟨_, ⟨hlength, ds, hds, rfl⟩, hexactly⟩

theorem mem_keys_of_mem_due {s : BuildSession} {ids : List String} {entry : String × BuildRecord}
    (h : entry ∈ due plugin s ids) : entry.1 ∈ Dict.keys s :=
  Dict.mem_keys_of_get?_eq_some (get?_of_mem_due h)

/-- What a build leaves in a fresh directory, and what a bundle finds there.  As many files are
written as modules are counted.  Among templates in normal form they are different files exactly if
no template is written twice, or both with a slash in front of it and without.  Then, if also no
directory is named like a module's file and every text is read, and only then, a bundle that is
filled from the directory counts as many modules, and has exactly those that were written.  All
records are written exactly if no template is named like a module of the plugin. -/
theorem writeAll_addDirectory_iff {records : List BuildRecord}
    (hplugin : pluginSeparator ∉ plugin.toList) (hroot : FileSystem.Literal root)
    (hfresh : files.Fresh root)
    (h : ((ofRecords records).writeAll plugin ModuleDirectory.sink).run.run (files, ⟨root, []⟩) =
      (.ok n, (files', d'))) :
    let s := ofRecords records
    let entries := due plugin s s.keys
    n = d'.written.length ∧
      (d'.written.Nodup ↔ (entries.map fun entry => slashless entry.1).Nodup) ∧
      ((∀ name ∈ s.keys, Path.normalize name = name) →
        (d'.written.Nodup ↔ Apart (entries.map Prod.fst))) ∧
      ((∃ b, (Bundle.addDirectory files' root).run.run {} = (.ok n, b) ∧
          HasExactly plugin entries b) ↔
        d'.written.Nodup ∧
          (∀ entry ∈ entries, ¬ ModuleDirectory.Passes (slashless entry.1)) ∧
          ∀ entry ∈ entries, ∃ d, Reads plugin entry d) ∧
      (entries = s ↔ ∀ id ∈ s.keys, ¬ Marked plugin id) := by
  intro s entries
  obtain ⟨rfl, hplain, hsave, rfl⟩ := of_run_writeEach hplugin h
  have hnodup : ((entries.map (moduleFile plugin)).map fun file => pathBelow root file.1).Nodup ↔
      (entries.map fun entry => slashless entry.1).Nodup := nodup_written_iff hplain
  dsimp only
  rw [List.nil_append, hnodup]
  refine ⟨?_, Iff.rfl, fun hnormal => ?_, addDirectory_iff hplugin hroot hfresh hplain hsave,
    due_eq_iff (ascending_ofRecords records) plugin⟩
  · rw [List.length_map, List.length_map]
  · rw [← nodup_slashless_iff, List.map_map]
    · rfl
    · intro name hname
      obtain ⟨entry, hentry, rfl⟩ := List.mem_map.mp hname
      exact hnormal _ (mem_keys_of_mem_due hentry)

/-- The modules of `a` and `b/c` are written to a new directory, and a bundle that is filled from
there has both. -/
theorem writeAll_addDirectory_iff_pages :
    let s := ofRecords [⟨"a", "A", {}, []⟩, ⟨"b/c", "B", {}, []⟩]
    ∃ files d b, (s.writeAll "hgn" ModuleDirectory.sink).run.run (.empty, ⟨"out", []⟩) =
        (.ok 2, (files, d)) ∧ d.written.Nodup ∧
      (Bundle.addDirectory files "out").run.run {} = (.ok 2, b) ∧
      HasExactly "hgn" (due "hgn" s s.keys) b := by
  intro s
  have hok : ((s.writeAll "hgn" ModuleDirectory.sink).run.run (.empty, ⟨"out", []⟩)).1.toOption =
      some 2 := by decide +kernel
  have hroot : FileSystem.Literal "out" :=
    ⟨by simp [Pattern.IsPlain], .inr (by unfold FileSystem.Direct; decide)⟩
  have hfresh : FileSystem.empty.Fresh "out" := .inr ⟨rfl, by decide, by decide⟩
  have hpasses : ∀ entry ∈ due "hgn" s s.keys, ¬ ModuleDirectory.Passes (slashless entry.1) := by
    decide +kernel
  have hreads : ∀ entry ∈ due "hgn" s s.keys, ∃ d, Reads "hgn" entry d := by
    have hread : ∀ entry ∈ due "hgn" s s.keys,
        (ModuleDefinition.ofText (ModuleText.write "hgn" entry.2)).toOption.map (·.id) =
          some (moduleId "hgn" entry.1) := by decide +kernel
    intro entry hentry
    have hid := hread entry hentry
    cases hd : ModuleDefinition.ofText (ModuleText.write "hgn" entry.2) with
    | error e =>
        rw [hd] at hid
        cases hid
    | ok d =>
        rw [hd] at hid
        exact ⟨d, hd, Option.some.inj hid⟩
  rcases hrun : (s.writeAll "hgn" ModuleDirectory.sink).run.run (.empty, ⟨"out", []⟩) with
    ⟨e | n, files, d⟩
  · rw [hrun] at hok
    cases hok
  · rw [hrun] at hok
    cases hok
    obtain ⟨-, -, hapart, hfilled, -⟩ :=
      writeAll_addDirectory_iff (by decide) hroot hfresh hrun
    have hnodup : d.written.Nodup := (hapart (by decide +kernel)).mpr (by
      unfold Apart
      decide +kernel)
    obtain ⟨b, hb, hexactly⟩ := hfilled.mpr ⟨hnodup, hpasses, hreads⟩
    exact ⟨files, d, b, rfl, hnodup, hb, hexactly⟩

/-- With the templates `/a` and `a` two modules are written, to one file, and a bundle that is
filled from the directory has only one of them. -/
theorem writeAll_overwrites :
    let s := ofRecords [⟨"/a", "A", {}, []⟩, ⟨"a", "B", {}, []⟩]
    let built := (s.writeAll "hgn" ModuleDirectory.sink).run.run (.empty, ⟨"out", []⟩)
    let filled := (Bundle.addDirectory built.2.1 "out").run.run {}
    built.1.toOption = some 2 ∧ built.2.2.written = ["out/a.module.json", "out/a.module.json"] ∧
      filled.1.toOption = some 1 ∧ filled.2.ids = ["hgn!a"] := by
  decide +kernel

end BuildSession

end Stencil
