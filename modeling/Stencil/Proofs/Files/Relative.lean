/-
Paths relative to a directory.

What is found below a directory is found on a path that starts with the names of the directory.
Without them it is spelled by the names that were followed from there: an empty one leaves no trace,
and a dot at either end does not count.  How the directory itself is spelled does not show, as long
as its path does not start with a dot.
-/
import Mathlib
import Stencil.Proofs.Files.Base
import Stencil.Proofs.Files.Search

namespace Stencil

namespace Path

variable {directory path : String} {all rest : List Segment} {p : List Char} {s : Segment}

/-! ## Segments -/

theorem exists_mem_segments {c : Char} {p : List Char} (hc : c ∈ p) (hne : c ≠ '/') :
    ∃ s ∈ segments p, c ∈ s := by
  induction p with
  | nil => cases hc
  | cons d p ih =>
      rw [segments]
      split
      next hd =>
        obtain ⟨s, hs, hcs⟩ := ih ((List.mem_cons.mp hc).resolve_left fun h => hne (h.trans hd))
        exact ⟨s, List.mem_cons_of_mem _ hs, hcs⟩
      next =>
        cases hp : segments p with
        | nil => exact absurd hp (segments_ne_nil p)
        | cons first rest =>
            rw [hp] at ih
            rcases List.mem_cons.mp hc with rfl | hc
            · exact ⟨_, List.mem_cons_self, List.mem_cons_self⟩
            · obtain ⟨s, hs, hcs⟩ := ih hc
              rcases List.mem_cons.mp hs with rfl | hs
              · exact ⟨_, List.mem_cons_self, List.mem_cons_of_mem _ hcs⟩
              · exact ⟨s, List.mem_cons_of_mem _ hs, hcs⟩

theorem getLast?_segments_eq_nil :
    (segments p).getLast? = some [] ↔ p = [] ∨ p.getLast? = some '/' := by
  constructor
  · intro h
    by_contra hnot
    obtain ⟨hne, hend⟩ := not_or.mp hnot
    obtain ⟨front, last, hsegments, hlast⟩ := exists_last_segment hend hne
    rw [hsegments, List.getLast?_concat] at h
    exact hlast (Option.some.inj h)
  · rintro (rfl | h)
    · rfl
    · obtain ⟨front, rfl⟩ := List.getLast?_eq_some_iff.mp h
      rw [segments_append_slash, segments, List.getLast?_concat]

/-- The segments that a path below a directory starts with are those of the directory, without an
empty one at the end. -/
theorem baseSegments_eq (p : List Char) :
    baseSegments p =
      if (segments p).getLast? = some [] then (segments p).dropLast else segments p := by
  simp only [getLast?_segments_eq_nil, baseSegments]
  by_cases hp : p = []
  · simp [hp, segments]
  · simp [hp]

/-! ## What is left behind a directory -/

theorem dropIdle_cons_of_idle (h : Idle s) : dropIdle (s :: all) = dropIdle all :=
  List.dropWhile_cons_of_pos (by simpa [Idle] using h)

theorem dropIdle_cons (h : ¬ Idle s) : dropIdle (s :: all) = s :: all :=
  List.dropWhile_cons_of_neg (by simpa [Idle] using h)

/-- Behind its own segments that lead further, the rest of a path is left, up to segments that lead
nowhere. -/
theorem exists_behind?_moving (all rest : List Segment) :
    ∃ left, behind? (moving all) (all ++ rest) = some left ∧ dropIdle left = dropIdle rest := by
  induction all with
  | nil => exact ⟨rest, rfl, rfl⟩
  | cons s all ih =>
      obtain ⟨left, hleft, hidle⟩ := ih
      by_cases hs : Idle s
      · rw [moving_cons_of_idle hs]
        cases hmoving : moving all with
        | nil =>
            rw [hmoving] at hleft
            cases hleft
            exact ⟨_, rfl, (dropIdle_cons_of_idle hs).trans hidle⟩
        | cons first more =>
            rw [hmoving] at hleft
            refine ⟨left, ?_, hidle⟩
            rw [behind?] at hleft ⊢
            rwa [List.cons_append, dropIdle_cons_of_idle hs]
      · refine ⟨left, ?_, hidle⟩
        rw [moving_cons hs, behind?, List.cons_append, dropIdle_cons hs]
        simpa using hleft

/-- Segments without those at both ends that lead nowhere. -/
def core (all : List Segment) : List Segment :=
  ((dropIdle all).reverse.dropWhile fun s => s = [] ∨ s = here).reverse

theorem core_congr (h : dropIdle all = dropIdle rest) : core all = core rest := by
  rw [core, core, h]

theorem core_append_nil (all : List Segment) : core (all ++ [[]]) = core all := by
  rw [core, core, dropIdle, dropIdle, List.dropWhile_append]
  split
  next hnil =>
    rw [List.isEmpty_iff.mp hnil]
    rfl
  next => simp

theorem trim_eq_moving (h : all.head? ≠ some here) : trim all = moving all := by
  cases all with
  | nil => rfl
  | cons first rest =>
      by_cases hfirst : first = []
      · rw [hfirst, trim_nil_cons, moving_cons_of_idle (.inl rfl)]
      · rw [trim_of_ne_nil hfirst, moving_cons (not_or.mpr ⟨hfirst, by simpa using h⟩)]

/-- A path that starts with the segments of a directory has what is behind them relative to it. -/
theorem relativeTo?_eq (hdirectory : (segments directory.toList).head? ≠ some here)
    (hne : directory.toList ≠ []) (hkind : isAbsolute directory.toList = isAbsolute path.toList)
    (hhead : (all ++ rest).head? ≠ some here)
    (hall : moving all = moving (segments directory.toList))
    (hpath : segments path.toList = all ++ rest) :
    relativeTo? directory path = some (String.ofList (joinSegments (core rest))) := by
  obtain ⟨left, hleft, hidle⟩ := exists_behind?_moving all rest
  have hbase : significant directory.toList = moving all := by
    rw [significant_eq, trim_eq_moving hdirectory, hall]
  have hnamed : ¬ (significant directory.toList = [] ∧ (!isAbsolute path.toList) = true) := by
    rintro ⟨hnil, hrelative⟩
    obtain ⟨first, more, hfirst⟩ := List.exists_cons_of_ne_nil (segments_ne_nil directory.toList)
    have hfirst' := head_ne_nil_of_relative hne (by simpa [hkind] using hrelative) hfirst
    rw [significant_eq, hfirst, trim_of_ne_nil hfirst'] at hnil
    cases hnil
  rw [relativeTo?]
  dsimp only
  rw [if_neg (not_not.mpr hkind), if_neg hnamed, hpath, hbase, ← core_congr hidle]
  cases hmoving : moving all with
  | nil =>
      rw [hmoving] at hleft
      simp only [hleft]
      rfl
  | cons first more =>
      have hfirst : first ≠ here := fun heq =>
        not_idle_of_mem_moving (hmoving ▸ List.mem_cons_self) (.inr heq)
      rw [hmoving] at hleft
      cases hsplit : all ++ rest with
      | nil =>
          rw [(List.append_eq_nil_iff.mp hsplit).1] at hmoving
          cases hmoving
      | cons head others =>
          rw [hsplit] at hhead hleft
          have hhead : head ≠ here := by simpa using hhead
          simp only [hfirst, hhead, if_false, hleft]
          rfl

end Path

namespace FileSystem

open Stencil.Path (Segment segments baseSegments moving core AtHere)

variable {path directory name : String} {names row : List String}

/-! ## The segments of what is found -/

/-- The segments that names leave in a path. -/
def traces (names : List String) : List Segment := (names.filter (· ≠ "")).map String.toList

theorem traces_append (names more : List String) :
    traces (names ++ more) = traces names ++ traces more := by
  simp [traces]

theorem moving_traces (names : List String) :
    moving (traces names) = moving (names.map String.toList) := by
  induction names with
  | nil => rfl
  | cons name names ih =>
      by_cases hname : name = ""
      · subst hname
        exact ih
      · have hcons : traces (name :: names) = name.toList :: traces names := by
          simp [traces, hname]
        rw [hcons, List.map_cons, moving, moving, List.filter_cons, List.filter_cons]
        simp only [moving] at ih
        rw [ih]

theorem segments_entryPath (haway : ¬ AtHere path.toList) (hname : '/' ∉ name.toList) :
    segments (entryPath path name).toList = baseSegments path.toList ++ [name.toList] := by
  rw [toList_entryPath haway, Path.segments_joinChars _ (Path.isAbsolute_of_not_mem hname),
    Path.segments_of_not_mem hname]

theorem baseSegments_entryPath (haway : ¬ AtHere path.toList) (hname : '/' ∉ name.toList) :
    baseSegments (entryPath path name).toList = baseSegments path.toList ++ traces [name] := by
  rw [Path.baseSegments_eq, segments_entryPath haway hname, List.getLast?_concat,
    List.dropLast_concat]
  by_cases hempty : name = ""
  · simp [hempty, traces]
  · simp [hempty, traces, String.toList_eq_nil_iff]

/-- Whether a path that is longer than another one by some names is spelled with them. -/
structure Spelled (path : String) (names : List String) (longer : String) : Prop where
  ne_nil : longer.toList ≠ []
  away : ¬ AtHere longer.toList
  absolute : Path.isAbsolute longer.toList = Path.isAbsolute path.toList
  segments : baseSegments longer.toList = baseSegments path.toList ++ traces names

theorem spelled_trail (hpath : path.toList ≠ []) (haway : ¬ AtHere path.toList)
    (hnames : ∀ name ∈ names, '/' ∉ name.toList) : Spelled path names (trail path names) := by
  induction names using List.reverseRecOn with
  | nil => exact ⟨hpath, haway, rfl, (List.append_nil _).symm⟩
  | append_singleton names name ih =>
      have hname := hnames name (by simp)
      obtain ⟨hne, haway, habsolute, hsegments⟩ :=
        ih fun name hmem => hnames name (List.mem_append_left _ hmem)
      rw [trail_concat]
      refine ⟨entryPath_ne_nil hne haway hname, not_atHere_entryPath hne haway hname, ?_, ?_⟩
      · rw [toList_entryPath haway, Path.isAbsolute_joinChars _ (Path.isAbsolute_of_not_mem hname),
          habsolute]
      · rw [baseSegments_entryPath haway hname, hsegments, traces_append, List.append_assoc]

/-! ## Directories without a dot in front -/

/-- Whether the path of a directory stands for itself in a pattern, and does not start with a
dot. -/
structure Undotted (directory : String) : Prop where
  plain : ∀ c ∈ directory.toList, Pattern.IsPlain c
  head : (segments directory.toList).head? ≠ some Path.here

/-- The path on which what is below a directory is found. -/
def rootPath (directory : String) : String := trail (startPath directory) (baseNames directory)

/-- A relative one starts with the name of something else than the working directory. -/
theorem Undotted.exists_first (h : Undotted directory) (hne : directory.toList ≠ [])
    (hrelative : Path.isAbsolute directory.toList = false) :
    ∃ first more, baseNames directory = first :: more ∧ first ≠ "" ∧ first ≠ "." := by
  have hbase := lead_append_baseNames directory
  rw [lead, if_neg (by simp [hrelative]), List.nil_append] at hbase
  obtain ⟨hbaseNe, idle, hsplit, -⟩ := Path.exists_segments_eq_baseSegments hne
  rw [← hbase] at hbaseNe hsplit
  cases hnames : baseNames directory with
  | nil => simp [hnames] at hbaseNe
  | cons first more =>
      rw [hnames] at hsplit
      have hhead := h.head
      have hempty := Path.head_ne_nil_of_relative hne hrelative hsplit
      refine ⟨first, more, rfl, ?_, ?_⟩
      · rintro rfl
        exact hempty rfl
      · rintro rfl
        rw [hsplit] at hhead
        exact hhead rfl

theorem Undotted.literal (h : Undotted directory) (hne : directory.toList ≠ []) :
    Literal directory where
  plain := h.plain
  direct := by
    by_cases habs : Path.isAbsolute directory.toList
    · exact .inl habs
    · obtain ⟨first, more, hnames, hempty, hdot⟩ := h.exists_first hne (by simpa using habs)
      right
      rw [Direct, hnames, List.dropWhile_cons_of_neg (by simpa using hdot)]
      simpa using hempty

theorem moving_baseSegments (p : List Char) : moving (baseSegments p) = moving (segments p) := by
  rw [← Path.moving_trim (baseSegments p), Path.trim_baseSegments, Path.significant_eq,
    Path.moving_trim]

/-- Whether a path leads to a directory like its own path, but is not that of the working directory:
the segments that lead further are the same. -/
structure RootPath (directory path : String) : Prop where
  ne_nil : path.toList ≠ []
  away : ¬ AtHere path.toList
  absolute : Path.isAbsolute path.toList = Path.isAbsolute directory.toList
  head : ∃ first more, baseSegments path.toList = first :: more ∧ first ≠ Path.here
  moving : moving (baseSegments path.toList) = moving (segments directory.toList)

theorem Undotted.rootPath (h : Undotted directory) (hne : directory.toList ≠ []) :
    RootPath directory (rootPath directory) := by
  have hslash (name : String) (hname : name ∈ baseNames directory) : '/' ∉ name.toList :=
    slash_notMem_baseNames hname
  have hmoving : moving (lead directory ++ traces (baseNames directory)) =
      moving (segments directory.toList) := by
    rw [Path.moving_append, moving_traces, ← Path.moving_append, lead_append_baseNames,
      moving_baseSegments]
  by_cases habs : Path.isAbsolute directory.toList
  · rw [lead, if_pos habs] at hmoving
    rw [FileSystem.rootPath, startPath, if_pos habs]
    obtain ⟨hne, haway, habsolute, hsegments⟩ := spelled_trail (by decide) not_atHere_root hslash
    exact ⟨hne, haway, by rw [habsolute, habs]; rfl, ⟨_, _, hsegments, by decide⟩,
      by rw [hsegments]; exact hmoving⟩
  · -- The first name stands in the working directory, and is found without the dot.
    obtain ⟨first, more, hnames, hempty, hdot⟩ := h.exists_first hne (by simpa using habs)
    rw [lead, if_neg habs, List.nil_append, hnames] at hmoving
    rw [hnames] at hslash
    have hfirst : '/' ∉ first.toList := hslash first List.mem_cons_self
    have hfirstNe : first.toList ≠ [] := fun hnil => hempty (String.toList_eq_nil_iff.mp hnil)
    have hhere : first.toList ≠ Path.here := fun hhere => hdot (String.toList_inj.mp hhere)
    have haway : ¬ AtHere first.toList := by
      intro hat
      obtain ⟨rest, hrest, -⟩ := Path.atHere_iff.mp hat
      rw [Path.segments_of_not_mem hfirst] at hrest
      exact hhere (List.cons.inj hrest).1
    have hsingle : baseSegments first.toList = [first.toList] := by
      rw [Path.baseSegments_eq, Path.segments_of_not_mem hfirst]
      exact if_neg (by simpa using hfirstNe)
    have htraces : traces (first :: more) = [first.toList] ++ traces more := by
      simp [traces, hempty]
    have hroot : FileSystem.rootPath directory = trail first more := by
      rw [FileSystem.rootPath, startPath, if_neg habs, hnames, trail, List.foldl_cons,
        entryPath_dot]
      rfl
    obtain ⟨hne, haway, habsolute, hsegments⟩ := spelled_trail hfirstNe haway
      fun name hname => hslash name (List.mem_cons_of_mem _ hname)
    rw [hsingle, ← htraces] at hsegments
    rw [hroot]
    refine ⟨hne, haway, ?_, ⟨_, _, hsegments.trans htraces, hhere⟩, by rwa [hsegments]⟩
    rw [habsolute, Path.isAbsolute_of_not_mem hfirst]
    simpa using habs

/-- How a row of names is spelled. -/
def rowText (row : List String) : String :=
  String.ofList (Path.joinSegments (core (traces row)))

/-- What is found below a directory is spelled, relative to the directory, by the names that lead
there. -/
theorem relativeTo?_trail (h : Undotted directory) (hne : directory.toList ≠ [])
    (hrow : row ≠ []) (hslash : ∀ name ∈ row, '/' ∉ name.toList) :
    Path.relativeTo? directory (trail (rootPath directory) row) = some (rowText row) := by
  obtain ⟨hrootNe, haway, habsolute, ⟨first, more, hfirst, hhere⟩, hmoving⟩ := h.rootPath hne
  obtain ⟨front, last, rfl⟩ := List.eq_nil_or_concat' row |>.resolve_left hrow
  have hlast : '/' ∉ last.toList := hslash last (by simp)
  obtain ⟨hfrontNe, hfrontAway, hfrontAbsolute, hfront⟩ := spelled_trail hrootNe haway
    fun name hname => hslash name (List.mem_append_left [last] hname)
  rw [trail_concat]
  have hsegments := segments_entryPath hfrontAway hlast
  rw [hfront, List.append_assoc] at hsegments
  have hcore : core (traces front ++ [last.toList]) = core (traces (front ++ [last])) := by
    rw [traces_append]
    by_cases hempty : last = ""
    · rw [hempty]
      exact (Path.core_append_nil _).trans (by simp [traces])
    · simp [traces, hempty]
  rw [rowText, ← hcore]
  refine Path.relativeTo?_eq h.head hne ?_ ?_ hmoving hsegments
  · rw [toList_entryPath hfrontAway, Path.isAbsolute_joinChars _ (Path.isAbsolute_of_not_mem hlast),
      hfrontAbsolute, habsolute]
  · rw [hfirst]
    simpa using hhere

/-! ## What is found below a directory -/

variable {fs : FileSystem} {place : List String} {text out : String} {segs : List Pattern}

theorem patternSegments_eq (p : List Char) : patternSegments p = baseSegments p :=
  (Path.baseSegments_eq p).symm

theorem ReadsAs.proper (h : ReadsAs text segs) : ∀ segment ∈ segs, segment.Proper := by
  intro segment hsegment
  obtain ⟨s, hs, hread⟩ :=
    Activity.exists_of_forall₂ (Activity.mapM_eq_ok.mp h.parts).flip hsegment
  rw [patternSegments_eq] at hs
  exact Pattern.proper_of_ofText (Path.not_mem_of_mem_segments (Path.mem_baseSegments hs)) hread

theorem ReadsAs.unique {segs' : List Pattern} (h : ReadsAs text segs)
    (h' : ReadsAs text segs') : segs = segs' :=
  Except.ok.inj (h.parts.symm.trans h'.parts)

theorem ReadsAs.ne_nil (h : ReadsAs text segs) (hne : text.toList ≠ []) : segs ≠ [] := by
  rintro rfl
  have hparts := Activity.mapM_eq_ok.mp h.parts
  rw [List.forall₂_nil_right_iff, patternSegments_eq] at hparts
  exact (Path.exists_segments_eq_baseSegments hne).1 hparts

/-- Whether a pattern can be searched below a directory: its path stands for itself and leads to a
place, and the system can be asked about all paths on the way. -/
structure Searchable (fs : FileSystem) (directory text : String) (place : List String) :
    Prop where
  undotted : Undotted directory
  check : checkPath directory = .ok ()
  base : fs.baseOf directory = .ok place
  asked : ∀ segs, ReadsAs text segs → Asked fs (rootPath directory) segs place

theorem Regular.isDirectoryAt_startOf (h : fs.Regular) (directory : String) :
    fs.isDirectoryAt (fs.startOf directory) := by
  rw [startOf]
  split
  · have hroot : fs.isDirectoryAt ([] ++ fs.workDir) := h.workDir
    exact isDirectoryAt_of_append hroot
  · exact h.workDir

theorem Searchable.ready (h : Searchable fs directory text place) (hregular : fs.Regular)
    (hreads : ReadsAs text segs) : Ready fs segs place (rootPath directory) where
  locate := by
    have hstart := hregular.isDirectoryAt_startOf directory
    refine locate_trail (locate_startPath hstart) (fun name hname => slash_notMem_baseNames hname)
      (askable_baseNames (h.undotted.literal (ne_nil_of_checkPath h.check)) h.check) ?_
    rw [foldlM_baseNames hstart]
    exact h.base
  away := (h.undotted.rootPath (ne_nil_of_checkPath h.check)).away
  proper := hreads.proper
  asked := h.asked segs hreads

/-- The paths that match a pattern below a directory are those to which its segments lead. -/
theorem exists_glob_join (hregular : fs.Regular) (h : Searchable fs directory text place)
    (htext : Path.isAbsolute text.toList = false) (hne : text.toList ≠ [])
    (hreads : ReadsAs text segs) :
    ∃ paths, fs.glob (Path.join directory text) = .ok paths ∧ ∀ out, out ∈ paths ↔
      ∃ row last, Leads fs segs place row last ∧ out = trail (rootPath directory) row ∧
        (text.toList.getLast? = some '/' → fs.isDirectoryAt last) := by
  have hready := h.ready hregular hreads
  have hstart := hregular.isDirectoryAt_startOf directory
  have hsearched := searched_eq (h.undotted.literal (ne_nil_of_checkPath h.check)) h.check hstart
    (hreads.ne_nil hne)
  have hbase := h.base
  rw [baseOf] at hbase
  rw [hbase] at hsearched
  have hfound (out : String) : out ∈ fs.searched directory segs ↔
      Found fs segs place (rootPath directory) out := by
    rw [hsearched]
    exact exact_globIn hregular _ segs place (rootPath directory) out (hreads.ne_nil hne) hready
      (by rw [cost]; omega)
  rw [glob_join h.undotted.plain htext hne hreads]
  refine ⟨_, rfl, fun out => ?_⟩
  have hlocate {row last} (hleads : Leads fs segs place row last) :=
    isDirectory_of_locate (hready.locate_trail hleads)
  split
  next hslash =>
    rw [List.mem_filter, hfound, Found]
    constructor
    · rintro ⟨⟨row, last, hleads, rfl⟩, hdir⟩
      exact ⟨row, last, hleads, rfl, fun _ => by rwa [← hlocate hleads]⟩
    · rintro ⟨row, last, hleads, rfl, hdir⟩
      exact ⟨⟨row, last, hleads, rfl⟩, by rw [hlocate hleads]; exact hdir hslash⟩
  next hslash =>
    simp only [hslash, false_implies, and_true]
    exact hfound out

end FileSystem

end Stencil
