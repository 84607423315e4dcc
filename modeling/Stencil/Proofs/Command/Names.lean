/-
The templates that a pattern stands for.

A pattern for template names is matched behind the path of the root, and what is found is named
relative to the root.  If the path of the root has no dot in front, the names are exactly those to
which the pattern leads from the place of the root, so they are the same for every spelling of it.
With a dot in front, what is found is never seen to be below the root, and the pattern stands for
nothing.
-/
import Mathlib
import Stencil.Command.Names
import Stencil.Proofs.Files.Bare
import Stencil.Proofs.Text.Search

namespace Stencil.Command

open FileSystem (ReadsAs Leads Searchable rowText rootPath)

variable {files : FileSystem} {root fileEnd pattern path below name : String}
  {place : List String} {segs : List Pattern}

/-! ## Names -/

/-- A path with slashes where it has backslashes. -/
def slashed (path : String) : List Char := path.toList.map fun c => if c = '\\' then '/' else c

theorem templateName?_eq_some_iff (h : Path.relativeTo? root path = some below) :
    templateName? root fileEnd path = some name ↔ slashed below = (name ++ fileEnd).toList := by
  have hstrip (rest : List Char) :
      Text.strip? fileEnd.toList.reverse (slashed below).reverse = some rest ↔
        slashed below = rest.reverse ++ fileEnd.toList := by
    rw [Text.strip?_eq_some_iff, List.reverse_eq_iff]
    simp
  rw [templateName?, h]
  show (Text.strip? fileEnd.toList.reverse (slashed below).reverse).bind
    (fun rest => some (String.ofList rest.reverse)) = some name ↔ _
  rw [Option.bind_eq_some_iff]
  constructor
  · rintro ⟨rest, hrest, hname⟩
    cases hname
    rw [String.toList_append, String.toList_ofList]
    exact (hstrip rest).mp hrest
  · intro hname
    refine ⟨name.toList.reverse, (hstrip _).mpr ?_, by simp⟩
    simpa using hname

theorem mem_dropRepeated {names : List String} : name ∈ dropRepeated names ↔ name ∈ names := by
  fun_induction dropRepeated names <;> simp_all

theorem dropRepeated_eq_nil {names : List String} : dropRepeated names = [] ↔ names = [] := by
  simp only [List.eq_nil_iff_forall_not_mem, mem_dropRepeated]

/-- A single pattern expands to what it matches. -/
theorem expandNames_singleton (hpattern : isPattern pattern) :
    expandNames files root fileEnd [pattern] =
      dropRepeated <$> matching files root fileEnd pattern := by
  rw [expandNames, List.mapM_cons, List.mapM_nil, if_pos hpattern]
  cases matching files root fileEnd pattern with
  | error failure => rfl
  | ok found =>
      show Except.ok (dropRepeated [found].flatten) = .ok (dropRepeated found)
      simp

/-- Whether a template below a place is one that a pattern stands for: the segments of the pattern
lead to it by names that spell its name and the end of its file. -/
def StandsFor (files : FileSystem) (place : List String) (fileEnd pattern name : String) : Prop :=
  ∃ segs row last, ReadsAs (pattern ++ fileEnd) segs ∧ Leads files segs place row last ∧
    ((pattern ++ fileEnd).toList.getLast? = some '/' → files.isDirectoryAt last) ∧
    slashed (rowText row) = (name ++ fileEnd).toList

/-! ## Patterns -/

theorem matching_eq_ok_iff {names : List String} :
    matching files root fileEnd pattern = .ok names ↔
      ∃ paths, files.glob (Path.join root (pattern ++ fileEnd)) = .ok paths ∧
        names = paths.filterMap (templateName? root fileEnd) ∧ names ≠ [] := by
  rw [matching]
  cases files.glob (Path.join root (pattern ++ fileEnd)) with
  | error fault => simp
  | ok paths =>
      dsimp only
      split
      next hnil => simp [hnil]
      next hne =>
        simp only [Except.ok.injEq, exists_eq_left']
        constructor
        · rintro rfl
          exact ⟨rfl, hne⟩
        · rintro ⟨rfl, -⟩
          rfl

/-- A pattern has a character that does not stand for itself. -/
theorem exists_of_isPattern (h : isPattern pattern) :
    ∃ c ∈ pattern.toList, c ≠ '/' ∧ ¬ Pattern.IsPlain c := by
  obtain ⟨c, hc, hspecial⟩ := List.any_eq_true.mp h
  refine ⟨c, hc, ?_⟩
  simp only [List.contains_cons, List.contains_nil, Bool.or_false, Bool.or_eq_true,
    beq_iff_eq] at hspecial
  rcases hspecial with rfl | rfl | rfl <;> simp [Pattern.IsPlain]

/-- So one of its segments has wildcards. -/
theorem exists_wild (hpattern : isPattern pattern) (hreads : ReadsAs (pattern ++ fileEnd) segs) :
    ∃ segment ∈ segs, segment.literal? = none := by
  obtain ⟨c, hc, hslash, hspecial⟩ := exists_of_isPattern hpattern
  have hmem : c ∈ (pattern ++ fileEnd).toList := by simp [hc]
  obtain ⟨s, hs, hcs⟩ := Path.exists_mem_segments hmem hslash
  obtain ⟨-, idle, hsplit, hidle⟩ :=
    Path.exists_segments_eq_baseSegments (List.ne_nil_of_mem hmem)
  have hbase : s ∈ FileSystem.patternSegments (pattern ++ fileEnd).toList := by
    rw [FileSystem.patternSegments_eq]
    rw [hsplit] at hs
    refine (List.mem_append.mp hs).resolve_right fun hs => ?_
    rw [hidle s hs] at hcs
    cases hcs
  obtain ⟨segment, hsegment, hread⟩ :=
    Activity.exists_of_forall₂ (Activity.mapM_eq_ok.mp hreads.parts) hbase
  refine ⟨segment, hsegment, ?_⟩
  cases hliteral : segment.literal? with
  | none => rfl
  | some plain =>
      have hplain := Pattern.plain_of_literal? (Path.not_mem_of_mem_segments hs) hread hliteral
      exact absurd (hplain c hcs) hspecial

theorem isAbsolute_append (hpattern : isPattern pattern)
    (hrelative : Path.isAbsolute pattern.toList = false) :
    Path.isAbsolute (pattern ++ fileEnd).toList = false := by
  obtain ⟨c, hc, -⟩ := exists_of_isPattern hpattern
  obtain ⟨first, rest, hfirst⟩ := List.exists_cons_of_ne_nil (List.ne_nil_of_mem hc)
  rw [hfirst] at hrelative
  rw [String.toList_append, hfirst]
  exact hrelative

/-- What a pattern matches below the root is named by the names that it stands for. -/
theorem exists_names (hregular : files.Regular) (hpattern : isPattern pattern)
    (hrelative : Path.isAbsolute pattern.toList = false)
    (hsearch : Searchable files root (pattern ++ fileEnd) place)
    (hreads : ReadsAs (pattern ++ fileEnd) segs) :
    ∃ paths, files.glob (Path.join root (pattern ++ fileEnd)) = .ok paths ∧
      ∀ name, name ∈ paths.filterMap (templateName? root fileEnd) ↔
        StandsFor files place fileEnd pattern name := by
  obtain ⟨c, hc, -⟩ := exists_of_isPattern hpattern
  have hne : (pattern ++ fileEnd).toList ≠ [] := List.ne_nil_of_mem (a := c) (by simp [hc])
  obtain ⟨paths, hglob, hpaths⟩ := FileSystem.exists_glob_join hregular hsearch
    (isAbsolute_append hpattern hrelative) hne hreads
  refine ⟨paths, hglob, fun name => ?_⟩
  have hname {row last : List String} (hleads : Leads files segs place row last) :
      templateName? root fileEnd (FileSystem.trail (rootPath root) row) = some name ↔
        slashed (rowText row) = (name ++ fileEnd).toList :=
    templateName?_eq_some_iff (FileSystem.relativeTo?_trail hsearch.undotted
      (FileSystem.ne_nil_of_checkPath hsearch.check) (hleads.ne_nil (hreads.ne_nil hne))
      (hleads.slash_notMem hreads.proper))
  rw [List.mem_filterMap]
  constructor
  · rintro ⟨out, hout, hnamed⟩
    obtain ⟨row, last, hleads, rfl, hdir⟩ := (hpaths out).mp hout
    exact ⟨segs, row, last, hreads, hleads, hdir, (hname hleads).mp hnamed⟩
  · rintro ⟨segs', row, last, hreads', hleads, hdir, hnamed⟩
    obtain rfl := hreads.unique hreads'
    exact ⟨_, (hpaths _).mpr ⟨row, last, hleads, rfl, hdir⟩, (hname hleads).mpr hnamed⟩

/-- With a dot in front of the root, nothing that a pattern matches is seen to be below it. -/
theorem expandNames_of_dot (hregular : files.Regular) (hpattern : isPattern pattern)
    (hrelative : Path.isAbsolute pattern.toList = false)
    (hroot : ∀ c ∈ root.toList, Pattern.IsPlain c)
    (hdot : (Path.segments root.toList).head? = some Path.here)
    (hreads : ReadsAs (pattern ++ fileEnd) segs)
    (hhidden : ∀ segment ∈ segs, segment.literal? = none → segment.head? ≠ some (.char '.')) :
    expandNames files root fileEnd [pattern] =
      .error ⟨.plain ("Pattern '" ++ pattern ++ "' matched no templates under " ++ root), []⟩ := by
  obtain ⟨c, hc, -⟩ := exists_of_isPattern hpattern
  have hne : (pattern ++ fileEnd).toList ≠ [] := List.ne_nil_of_mem (a := c) (by simp [hc])
  have hstart : FileSystem.startPath root = "." := by
    obtain ⟨rest, hrest⟩ := List.head?_eq_some_iff.mp hdot
    rw [FileSystem.startPath, Path.isAbsolute_of_head hrest (by decide)]
    rfl
  obtain ⟨wild, hwildMem, hwild⟩ := exists_wild hpattern hreads
  have hbare (fuel : Nat) (out : String) : out ∈ files.globIn fuel
      ((FileSystem.baseNames root).map (fun name => Pattern.ofPlain name.toList) ++ segs) "." →
      templateName? root fileEnd out = none := by
    intro hout
    have hbare := FileSystem.bare_of_globIn hregular ?_ ?_
      ⟨wild, List.mem_append_right _ hwildMem, hwild⟩ hout
    · rw [templateName?, FileSystem.relativeTo?_of_bare hdot hbare]
      rfl
    · intro segment hsegment
      rcases List.mem_append.mp hsegment with hsegment | hsegment
      · obtain ⟨name, hname, rfl⟩ := List.mem_map.mp hsegment
        exact Pattern.proper_ofPlain (FileSystem.slash_notMem_baseNames hname)
      · exact hreads.proper segment hsegment
    · intro segment hsegment hliteral
      rcases List.mem_append.mp hsegment with hsegment | hsegment
      · obtain ⟨name, -, rfl⟩ := List.mem_map.mp hsegment
        rw [Pattern.literal?_ofPlain] at hliteral
        cases hliteral
      · exact hhidden segment hsegment hliteral
  rw [expandNames_singleton hpattern, matching,
    FileSystem.glob_join hroot (isAbsolute_append hpattern hrelative) hne hreads,
    FileSystem.searched, hstart]
  dsimp only
  split
  next => rfl
  next names hsome =>
    obtain ⟨name, hname⟩ := List.exists_mem_of_ne_nil _ hsome
    obtain ⟨out, hout, hnamed⟩ := List.mem_filterMap.mp hname
    have hnone : templateName? root fileEnd out = none := by
      split at hout
      · exact hbare _ out (List.mem_filter.mp hout).1
      · exact hbare _ out hout
    rw [hnone] at hnamed
    cases hnamed

/-- A pattern below a root expands to exactly the names that it stands for, and fails only if there
are none. -/
theorem expandNames_searchable (hregular : files.Regular) (hpattern : isPattern pattern)
    (hrelative : Path.isAbsolute pattern.toList = false)
    (hsearch : Searchable files root (pattern ++ fileEnd) place) :
    (∀ names, expandNames files root fileEnd [pattern] = .ok names →
      ∀ name, name ∈ names ↔ StandsFor files place fileEnd pattern name) ∧
    ((∃ names, expandNames files root fileEnd [pattern] = .ok names) ↔
      ∃ name, StandsFor files place fileEnd pattern name) := by
  have hok {names : List String} (hnames : expandNames files root fileEnd [pattern] = .ok names) :
      names ≠ [] ∧ ∀ name, name ∈ names ↔ StandsFor files place fileEnd pattern name := by
    rw [expandNames_singleton hpattern] at hnames
    obtain ⟨found, hfound, rfl⟩ := Activity.map_eq_ok.mp hnames
    obtain ⟨paths, hpaths, rfl, hne⟩ := matching_eq_ok_iff.mp hfound
    obtain ⟨segs, hreads⟩ := FileSystem.exists_readsAs_of_glob_join hsearch.undotted.plain
      (isAbsolute_append hpattern hrelative) hpaths
    obtain ⟨paths', hpaths', hmem⟩ := exists_names hregular hpattern hrelative hsearch hreads
    rw [hpaths] at hpaths'
    cases hpaths'
    refine ⟨fun hnil => hne (dropRepeated_eq_nil.mp hnil), fun name => ?_⟩
    rw [mem_dropRepeated, hmem]
  refine ⟨fun names hnames => (hok hnames).2, ?_, ?_⟩
  · rintro ⟨names, hnames⟩
    obtain ⟨hne, hmem⟩ := hok hnames
    obtain ⟨name, hname⟩ := List.exists_mem_of_ne_nil names hne
    exact ⟨name, (hmem name).mp hname⟩
  · rintro ⟨name, hname⟩
    obtain ⟨segs, -, -, hreads, -⟩ := id hname
    obtain ⟨paths, hpaths, hmem⟩ := exists_names hregular hpattern hrelative hsearch hreads
    have hfound := matching_eq_ok_iff.mpr
      ⟨paths, hpaths, rfl, List.ne_nil_of_mem ((hmem name).mpr hname)⟩
    rw [expandNames_singleton hpattern, hfound]
    exact ⟨_, rfl⟩

/-- Whether the same names come from a pattern below two roots, if any come at all. -/
def SameNames (files : FileSystem) (root root' fileEnd pattern : String) : Prop :=
  ∀ name, (∃ names, expandNames files root fileEnd [pattern] = .ok names ∧ name ∈ names) ↔
    ∃ names, expandNames files root' fileEnd [pattern] = .ok names ∧ name ∈ names

/-- Below a root whose path has no dot in front, a pattern expands to exactly the names that it
stands for from the place of the root, and fails only if there are none; so it expands to the same
names however the path is spelled.  Below a root whose path has a dot in front, no pattern expands
to anything unless it has wildcards behind a dot itself. -/
theorem expandNames_finds_all (hregular : files.Regular) (hpattern : isPattern pattern)
    (hrelative : Path.isAbsolute pattern.toList = false) :
    (∀ root place, Searchable files root (pattern ++ fileEnd) place →
      (∀ names, expandNames files root fileEnd [pattern] = .ok names →
        ∀ name, name ∈ names ↔ StandsFor files place fileEnd pattern name) ∧
      ((∃ names, expandNames files root fileEnd [pattern] = .ok names) ↔
        ∃ name, StandsFor files place fileEnd pattern name)) ∧
    (∀ root root' place, Searchable files root (pattern ++ fileEnd) place →
      Searchable files root' (pattern ++ fileEnd) place →
      SameNames files root root' fileEnd pattern) ∧
    ∀ root segs, (∀ c ∈ root.toList, Pattern.IsPlain c) →
      (Path.segments root.toList).head? = some Path.here →
      ReadsAs (pattern ++ fileEnd) segs →
      (∀ segment ∈ segs, segment.literal? = none → segment.head? ≠ some (.char '.')) →
      expandNames files root fileEnd [pattern] = .error
        ⟨.plain ("Pattern '" ++ pattern ++ "' matched no templates under " ++ root), []⟩ := by
  have hall {root : String} {place : List String}
      (hsearch : Searchable files root (pattern ++ fileEnd) place) (name : String) :
      (∃ names, expandNames files root fileEnd [pattern] = .ok names ∧ name ∈ names) ↔
        StandsFor files place fileEnd pattern name := by
    obtain ⟨hmem, hok⟩ := expandNames_searchable hregular hpattern hrelative hsearch
    constructor
    · rintro ⟨names, hnames, hname⟩
      exact (hmem names hnames name).mp hname
    · intro hstands
      obtain ⟨names, hnames⟩ := hok.mpr ⟨name, hstands⟩
      exact ⟨names, hnames, (hmem names hnames name).mpr hstands⟩
  refine ⟨fun root place hsearch => expandNames_searchable hregular hpattern hrelative hsearch,
    fun root root' place hsearch hsearch' name => ?_, fun root segs hroot hdot hreads hhidden =>
      expandNames_of_dot hregular hpattern hrelative hroot hdot hreads hhidden⟩
  rw [hall hsearch, hall hsearch']

/-! ## A directory with one template -/

/-- A working directory with one template. -/
def folder : FileSystem where
  root := .directory [("tmp", .directory [("work", .directory
    [("a.mustache", .file "A".toUTF8)])])]
  workDir := ["tmp", "work"]

/-- The pattern of all templates in a directory. -/
def anyMustache : Pattern := Pattern.endingIn ".mustache".toList

theorem regular_folder : folder.Regular := ⟨by decide, by decide⟩

theorem readsAs_anyMustache : ReadsAs ("*" ++ ".mustache") [anyMustache] where
  whole := ⟨anyMustache, by decide⟩
  parts := by decide

/-- The template is the only entry that the pattern leads to. -/
theorem leads_folder {row last : List String}
    (h : Leads folder [anyMustache] ["tmp", "work"] row last) : row = ["a.mustache"] := by
  have hkind : anyMustache.isDirectories = false := Pattern.isDirectories_endingIn _
  cases h with
  | step htakes hstep h =>
      cases h
      obtain ⟨-, hliteral | ⟨hname, -⟩ | ⟨-, hhead⟩⟩ := htakes
      · cases hliteral
      · have hentries : folder.at? ["tmp", "work"] =
            some (.directory [("a.mustache", .file "A".toUTF8)]) := rfl
        have hsome := FileSystem.isSome_of_follow hstep
        rw [FileSystem.eq_of_follow hname.2 hstep, String.ofList_toList,
          FileSystem.at?_append_of_directory hentries] at hsome
        by_contra hne
        simp [Dict.get?, Ne.symm (fun heq => hne (congrArg (fun name => [name]) heq))] at hsome
      · cases hhead
  | enter hsegment => simp [hkind] at hsegment
  | leave hsegment => simp [hkind] at hsegment
  | stop hsegment => simp [hkind] at hsegment

theorem standsFor_folder : StandsFor folder ["tmp", "work"] ".mustache" "*" "a" := by
  refine ⟨[anyMustache], ["a.mustache"], ["tmp", "work", "a.mustache"], readsAs_anyMustache,
    .step ?_ (by decide) (.done _), by decide, by decide⟩
  exact ⟨by decide, .inr (.inl ⟨by simp [Path.IsName, Path.here, Path.parent], rfl⟩)⟩

theorem searchable_folder {root : String} (hundotted : FileSystem.Undotted root)
    (hcheck : FileSystem.checkPath root = .ok ()) (hbase : folder.baseOf root = .ok ["tmp", "work"])
    (hask : FileSystem.checkPath (rootPath root) = .ok ())
    (hask' : FileSystem.checkPath (FileSystem.entryPath (rootPath root) "a.mustache") = .ok ()) :
    Searchable folder root ("*" ++ ".mustache") ["tmp", "work"] where
  undotted := hundotted
  check := hcheck
  base := hbase
  asked segs hreads front row last hfront hleads := by
    obtain rfl := hreads.unique readsAs_anyMustache
    rcases List.prefix_cons_iff.mp hfront with rfl | ⟨more, rfl, hmore⟩
    · cases hleads
      exact hask
    · obtain rfl := List.prefix_nil.mp hmore
      rw [leads_folder hleads]
      exact hask'

/-- The template is found on either spelling of its directory without a dot in front. -/
theorem expandNames_finds_all_folder :
    (∃ names, expandNames folder "/tmp/work" ".mustache" ["*"] = .ok names ∧ "a" ∈ names) ∧
      SameNames folder "/tmp/work" "/tmp//work/" ".mustache" "*" ∧
      expandNames folder "./" ".mustache" ["*"] =
        .error ⟨.plain "Pattern '*' matched no templates under ./", []⟩ := by
  obtain ⟨hall, hsame, hdot⟩ := @expandNames_finds_all folder ".mustache" "*" regular_folder rfl rfl
  have hplain : Searchable folder "/tmp/work" ("*" ++ ".mustache") ["tmp", "work"] :=
    searchable_folder ⟨by simp [Pattern.IsPlain], by decide⟩ (by decide) (by decide)
      (by decide) (by decide)
  have hslashes : Searchable folder "/tmp//work/" ("*" ++ ".mustache") ["tmp", "work"] :=
    searchable_folder ⟨by simp [Pattern.IsPlain], by decide⟩ (by decide) (by decide)
      (by decide) (by decide)
  refine ⟨?_, hsame _ _ _ hplain hslashes, ?_⟩
  · obtain ⟨hmem, hok⟩ := hall _ _ hplain
    obtain ⟨names, hnames⟩ := hok.mpr ⟨"a", standsFor_folder⟩
    exact ⟨names, hnames, (hmem names hnames "a").mpr standsFor_folder⟩
  · exact hdot "./" _ (by simp [Pattern.IsPlain]) rfl readsAs_anyMustache (by decide)

/-- With `.` for the working directory its template is not found. -/
theorem expandNames_misses_folder :
    folder.baseOf "." = .ok ["tmp", "work"] ∧
      StandsFor folder ["tmp", "work"] ".mustache" "*" "a" ∧
      expandNames folder "." ".mustache" ["*"] =
        .error ⟨.plain "Pattern '*' matched no templates under .", []⟩ :=
  ⟨by decide, standsFor_folder, expandNames_of_dot regular_folder rfl rfl
    (by simp [Pattern.IsPlain]) rfl readsAs_anyMustache (by decide)⟩

end Stencil.Command
