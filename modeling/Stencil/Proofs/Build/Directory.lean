/-
Directories of modules.

The sink for a directory gives each module a file whose path spells the name behind the plugin in
normal form, without the slash in front of it.  A loader keeps an absolute name apart from the same
name without its slash, so a build can have records for both.  Their modules are written to one
file, and the later one is left.  Apart from such twins, and from names that are taken for the
identifiers of other modules, every record gets a file of its own, with its own text.
-/
import Mathlib
import Stencil.Proofs.Build.WriteAll
import Stencil.Proofs.Files.Save

namespace Stencil

open Stencil.Path (Plain)
open FileSystem (pathBelow saveAll)

namespace ModuleDirectory

variable {d d' : ModuleDirectory} {files files' : FileSystem} {id path text : String}
  {rel : List Char}

/-! ## Paths of modules -/

/-- The path of the file of a module below the root. -/
def filePath (rel : List Char) : List Char := rel ++ fileEnd.toList

theorem filePath_injective : Function.Injective filePath := fun _ _ h => List.append_cancel_right h

/-- The file of a module has a path of names. -/
theorem plain_filePath (h : relativePath? id = some rel) : Plain (filePath rel) := by
  rw [relativePath?] at h
  split at h
  · cases h
  next hrel =>
    cases h
    obtain ⟨hempty, hparent⟩ : ¬ _ ∧ ¬ _ := by simpa using hrel
    rw [Path.relativeChars_normalizeChars] at hempty hparent ⊢
    generalize hname :
      ((Text.splitOnce? pluginSeparator id.toList).map (·.2)).getD id.toList = name at *
    have hstanding := Path.standing_location (Path.isAbsolute name) name
    generalize Path.location (Path.isAbsolute name) name = loc at *
    have hloc : loc ≠ [] := by
      rintro rfl
      exact hempty rfl
    have hsegments : Path.segments (Path.joinSegments loc.reverse) = loc.reverse :=
      Path.segments_joinSegments (by simpa using hloc)
        fun s hs => (hstanding.mem (List.mem_reverse.mp hs)).2.2
    rw [hsegments] at hparent
    obtain ⟨last, front, rfl⟩ := List.exists_cons_of_ne_nil hloc
    rw [List.reverse_cons] at hsegments hparent
    have hend : '/' ∉ fileEnd.toList := by decide
    intro s hs
    rw [filePath, List.reverse_cons, Path.segments_append_of_not_mem hsegments hend] at hs
    rcases List.mem_append.mp hs with hs | hs
    · obtain ⟨hne, hhere, -⟩ := hstanding.mem (List.mem_cons_of_mem _ (List.mem_reverse.mp hs))
      refine ⟨hne, hhere, ?_⟩
      rintro rfl
      exact hparent (List.mem_append_left _ hs)
    · -- The end of a file name is longer than the segments that name nothing.
      have hlength : fileEnd.toList.length ≤ s.length := by
        rw [List.mem_singleton.mp hs, List.length_append]
        omega
      refine ⟨?_, ?_, ?_⟩ <;>
        · rintro rfl
          revert hlength
          decide

/-- What the path of a template's module spells: the template in normal form, without the slash in
front of it. -/
def slashless (name : String) : List Char := Path.relativeChars (Path.normalizeChars name.toList)

theorem relativePath?_moduleId {plugin name : String} (hplugin : pluginSeparator ∉ plugin.toList)
    (h : relativePath? (moduleId plugin name) = some rel) : rel = slashless name := by
  rw [relativePath?, toList_moduleId, Text.splitOnce?_append hplugin] at h
  simp only [Option.map_some, Option.getD_some] at h
  split at h
  · cases h
  · cases h
    rfl

theorem slashless_of_normalize {name : String} (h : Path.normalize name = name) :
    slashless name = Path.relativeChars name.toList := by
  rw [slashless, ← String.toList_ofList (l := Path.normalizeChars name.toList)]
  exact congrArg (fun name => Path.relativeChars name.toList) h

theorem toList_slash (name : String) : ("/" ++ name).toList = '/' :: name.toList := by
  rw [String.toList_append]
  rfl

/-- Two templates in normal form have one file only if they are the same but for a slash in front
of one of them. -/
theorem eq_or_twins {a b : String} (ha : Path.normalize a = a) (hb : Path.normalize b = b)
    (h : slashless a = slashless b) : a = b ∨ a = "/" ++ b ∨ b = "/" ++ a := by
  rw [slashless_of_normalize ha, slashless_of_normalize hb] at h
  have hslash (c d : String) (h : c.toList = '/' :: d.toList) : c = "/" ++ d := by
    apply String.toList_inj.mp
    rw [h, toList_slash]
  rcases Path.eq_or_eq_slash_of_normalize ha with ha' | ha' <;>
    rcases Path.eq_or_eq_slash_of_normalize hb with hb' | hb'
  · exact .inl (String.toList_inj.mp (by rw [ha', hb', h]))
  · exact .inr (.inr (hslash b a (by rw [hb', ← h, ← ha'])))
  · exact .inr (.inl (hslash a b (by rw [ha', h, ← hb'])))
  · exact .inl (String.toList_inj.mp (by rw [ha', hb', h]))

theorem slashless_slash {name : String} (h : Path.normalize name = name)
    (hslash : Path.normalize ("/" ++ name) = "/" ++ name) :
    slashless ("/" ++ name) = slashless name := by
  rw [slashless_of_normalize h, slashless_of_normalize hslash, toList_slash, Path.relativeChars,
    List.dropWhile_cons_of_pos (by simp)]
  rfl

/-! ## One module -/

theorem modulePath_eq_ok :
    d.modulePath id = .ok path ↔
      ∃ rel, relativePath? id = some rel ∧ path = pathBelow d.root (filePath rel) := by
  rw [modulePath]
  cases relativePath? id with
  | none => simp
  | some rel => simp [filePath, pathBelow, eq_comm]

/-- Writing a module makes the directories above its file and then writes it; whichever fails, what
was made before stays. -/
theorem run_write (id text : String) (files : FileSystem) (d : ModuleDirectory) :
    (write id text).run.run (files, d) =
      match d.modulePath id with
      | .error e => (.error e, (files, d))
      | .ok path =>
        match files.makeParents path with
        | (.error fault, made) => (.error (.write id (path ++ ": " ++ fault.message)), (made, d))
        | (.ok (), made) =>
          match made.writeText path text with
          | .error fault => (.error (.write id (path ++ ": " ++ fault.message)), (made, d))
          | .ok files' => (.ok (), (files', { d with written := d.written ++ [path] })) := by
  rw [write, Activity.run_bind_of_ok (Activity.run_get _)]
  dsimp only
  cases d.modulePath id with
  | error e => rfl
  | ok path =>
      dsimp only
      rw [Activity.run_bind_of_ok (Activity.run_set _ _)]
      rcases files.makeParents path with ⟨fault | ⟨⟩, made⟩
      · rfl
      · dsimp only
        cases made.writeText path text <;> rfl

/-- Writing a module saves a file. -/
theorem exists_of_run_write
    (h : (write id text).run.run (files, d) = (.ok (), (files', d'))) :
    ∃ path, d.modulePath id = .ok path ∧ files.save path text = .ok files' ∧
      d' = { d with written := d.written ++ [path] } := by
  rw [run_write] at h
  cases hpath : d.modulePath id with
  | error e =>
      rw [hpath] at h
      cases h
  | ok path =>
      rw [hpath] at h
      dsimp only at h
      rcases hmade : files.makeParents path with ⟨fault | ⟨⟩, made⟩
      · rw [hmade] at h
        cases h
      · rw [hmade] at h
        dsimp only at h
        cases hwrite : made.writeText path text with
        | error fault =>
            rw [hwrite] at h
            cases h
        | ok files₂ =>
            rw [hwrite] at h
            cases h
            refine ⟨path, rfl, ?_, rfl⟩
            rw [FileSystem.save, hmade]
            exact hwrite

end ModuleDirectory

namespace BuildSession

open ModuleDirectory (filePath filePath_injective slashless)

variable {plugin name : String} {s : BuildSession} {ids : List String} {n : Nat}
  {files files' : FileSystem} {d d' : ModuleDirectory}

/-! ## All modules -/

/-- The records whose modules are written for some names, in order. -/
def due (plugin : String) (s : BuildSession) (ids : List String) : List (String × BuildRecord) :=
  ids.filterMap fun id => (Dict.get? (target plugin id) s).map fun r => (target plugin id, r)

/-- The file of a module: its path below the root, and its text. -/
def moduleFile (plugin : String) (entry : String × BuildRecord) : List Char × String :=
  (filePath (slashless entry.1), ModuleText.write plugin entry.2)

theorem get?_of_mem_due {entry : String × BuildRecord} (h : entry ∈ due plugin s ids) :
    Dict.get? entry.1 s = some entry.2 := by
  obtain ⟨id, -, h⟩ := List.mem_filterMap.mp h
  obtain ⟨r, hr, rfl⟩ := Option.map_eq_some_iff.mp h
  exact hr

/-- Modules that are written are saved as files with plain paths, one for every record that
is due. -/
theorem of_run_writeEach (hplugin : pluginSeparator ∉ plugin.toList)
    (h : (s.writeEach plugin ModuleDirectory.sink ids).run.run (files, d) =
      (.ok n, (files', d'))) :
    n = (due plugin s ids).length ∧
      (∀ file ∈ (due plugin s ids).map (moduleFile plugin), Plain file.1) ∧
      saveAll d.root ((due plugin s ids).map (moduleFile plugin)) files = .ok files' ∧
      d' = ⟨d.root, d.written ++
        ((due plugin s ids).map (moduleFile plugin)).map fun file => pathBelow d.root file.1⟩ := by
  induction ids generalizing files d n with
  | nil =>
      cases h
      exact ⟨rfl, fun _ hfile => absurd hfile List.not_mem_nil, rfl, by simp [due]⟩
  | cons id ids ih =>
      rw [writeEach] at h
      obtain ⟨written, ⟨files₁, d₁⟩, hwrite, h⟩ := Activity.run_bind_eq_ok h
      obtain ⟨count, ⟨files₂, d₂⟩, hrest, h⟩ := Activity.run_bind_eq_ok h
      cases h
      obtain ⟨rfl, hplain, hsave, rfl⟩ := ih hrest
      cases htarget : Dict.get? (target plugin id) s with
      | none =>
          have hdue : due plugin s (id :: ids) = due plugin s ids := by
            rw [due, List.filterMap_cons, htarget]
            rfl
          rw [write_of_not_recorded htarget] at hwrite
          cases hwrite
          rw [hdue]
          exact ⟨Nat.zero_add _, hplain, hsave, rfl⟩
      | some r =>
          have hdue : due plugin s (id :: ids) = (target plugin id, r) :: due plugin s ids := by
            rw [due, List.filterMap_cons, htarget]
            rfl
          rw [write_of_recorded htarget] at hwrite
          obtain ⟨⟨⟩, t, hwrite, hdone⟩ := Activity.run_bind_eq_ok hwrite
          cases hdone
          obtain ⟨path, hpath, hfile, rfl⟩ := ModuleDirectory.exists_of_run_write hwrite
          obtain ⟨rel, hrel, rfl⟩ := ModuleDirectory.modulePath_eq_ok.mp hpath
          obtain rfl := ModuleDirectory.relativePath?_moduleId hplugin hrel
          rw [hdue, List.map_cons]
          refine ⟨?_, ?_, Activity.bind_eq_ok.mpr ⟨files₁, hfile, hsave⟩, ?_⟩
          · rw [List.length_cons, Nat.add_comm]
            rfl
          · intro file hmem
            rcases List.mem_cons.mp hmem with rfl | hmem
            · exact ModuleDirectory.plain_filePath hrel
            · exact hplain file hmem
          · rw [List.map_cons, List.append_assoc]
            rfl

/-! ## Modules that share a file -/

/-- Whether the modules of some templates come to different files: no template is there twice, and
none is there both with a slash in front of it and without. -/
def Apart (names : List String) : Prop := names.Nodup ∧ ∀ name ∈ names, "/" ++ name ∉ names

/-- Templates in normal form that are apart are those whose modules come to different files. -/
theorem nodup_slashless_iff {names : List String}
    (h : ∀ name ∈ names, Path.normalize name = name) :
    (names.map slashless).Nodup ↔ Apart names := by
  constructor
  · intro hnodup
    refine ⟨hnodup.of_map _, fun name hname hslash => ?_⟩
    have heq := List.inj_on_of_nodup_map hnodup hslash hname
      (ModuleDirectory.slashless_slash (h name hname) (h _ hslash))
    have hlength := congrArg List.length (congrArg String.toList heq)
    rw [ModuleDirectory.toList_slash, List.length_cons] at hlength
    omega
  · rintro ⟨hnodup, htwins⟩
    refine hnodup.map_on fun a ha b hb heq => ?_
    rcases ModuleDirectory.eq_or_twins (h a ha) (h b hb) heq with hab | rfl | rfl
    · exact hab
    · exact absurd ha (htwins b hb)
    · exact absurd hb (htwins a ha)

/-- Every record is due exactly if no template is named like a module of the plugin. -/
theorem due_eq_iff (hs : Dict.Ascending s) (plugin : String) :
    due plugin s (Dict.keys s) = s ↔ ∀ id ∈ Dict.keys s, ¬ Marked plugin id := by
  constructor
  · intro hdue
    refine not_marked_of_subset_targets fun id hid => ?_
    obtain ⟨r, hr⟩ := Dict.hasKey_iff_exists.mp (Dict.hasKey_iff_mem_keys.mpr hid)
    have hmem := Dict.mem_of_get?_eq_some hr
    rw [← hdue] at hmem
    obtain ⟨id', hid', hentry⟩ := List.mem_filterMap.mp hmem
    obtain ⟨r', -, hentry⟩ := Option.map_eq_some_iff.mp hentry
    exact List.mem_map.mpr ⟨id', hid', congrArg Prod.fst hentry⟩
  · intro hplain
    have hown : ∀ entry ∈ s, (Dict.get? (target plugin entry.1) s).map
        (fun r => (target plugin entry.1, r)) = some entry := by
      rintro ⟨id, r⟩ hentry
      have hget := (Dict.get?_eq_some_iff_mem hs.nodup).mpr hentry
      rw [target_of_not_marked (hplain id (List.mem_map_of_mem hentry)), hget]
      rfl
    rw [due, Dict.keys, List.filterMap_map]
    exact (List.filterMap_congr hown).trans List.filterMap_some

/-- The files of some modules are different exactly if the templates are, without the slashes in
front of them. -/
theorem nodup_moduleFile_iff (plugin : String) (entries : List (String × BuildRecord)) :
    ((entries.map (moduleFile plugin)).map Prod.fst).Nodup ↔
      (entries.map fun entry => slashless entry.1).Nodup := by
  have hnames : (entries.map (moduleFile plugin)).map Prod.fst =
      (entries.map fun entry => slashless entry.1).map filePath := by
    rw [List.map_map, List.map_map]
    rfl
  rw [hnames, List.nodup_map_iff filePath_injective]

theorem nodup_written_iff {root : String} {entries : List (String × BuildRecord)}
    (hplain : ∀ file ∈ entries.map (moduleFile plugin), Plain file.1) :
    ((entries.map (moduleFile plugin)).map fun file => pathBelow root file.1).Nodup ↔
      (entries.map fun entry => slashless entry.1).Nodup := by
  rw [← nodup_moduleFile_iff plugin, ← Function.comp_def (pathBelow root) Prod.fst,
    ← List.map_map]
  constructor
  · exact fun hpaths => hpaths.of_map _
  · intro hpaths
    refine hpaths.map_on fun p hp q hq heq => ?_
    obtain ⟨file, hfile, rfl⟩ := List.mem_map.mp hp
    obtain ⟨file', hfile', rfl⟩ := List.mem_map.mp hq
    exact FileSystem.pathBelow_injective (hplain file hfile) (hplain file' hfile') heq

end BuildSession

end Stencil
