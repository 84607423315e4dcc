/-
Finding files.

A pattern is followed like a path: each plain segment leads from a path to the path of an entry,
which is found exactly if the file system leads there.  Below the directory that is reached in this
way everything is found, once, whose name ends as the pattern does.
-/
import Mathlib
import Stencil.Proofs.Files.Pattern
import Stencil.Proofs.Files.Trail

namespace Stencil.FileSystem

open Stencil.Path (Segment segments baseSegments)

variable {fs : FileSystem} {path name directory text : String} {place place' names : List String}
  {ending : List Char}

/-! ## Plain segments -/

/-- A plain segment that is found leads somewhere. -/
theorem exists_follow_of_found (hpath : fs.locate path = .ok place) (hname : '/' ∉ name.toList)
    (h : (if name.toList ∈ dots then fs.isDirectory path
      else fs.holds (entryPath path name)) = true) :
    ∃ place', fs.follow place name.toList = .ok place' := by
  split at h
  next hdots =>
    rw [isDirectory_of_locate hpath] at h
    rw [follow, if_neg (by simp [h])]
    rcases List.mem_cons.mp hdots with hdot | hdots
    · rw [if_pos (.inr hdot)]
      exact ⟨_, rfl⟩
    · rw [List.mem_singleton.mp hdots]
      exact ⟨_, rfl⟩
  next =>
    obtain ⟨place', hplace'⟩ := holds_iff.mp h
    obtain ⟨⟨⟩, hcheck, -⟩ := Activity.bind_eq_ok.mp hplace'
    rw [locate_entryPath hpath hname hcheck] at hplace'
    exact ⟨place', hplace'⟩

/-- A plain segment is found exactly if it leads somewhere. -/
theorem found_iff (hpath : fs.locate path = .ok place) (hname : '/' ∉ name.toList)
    (hask : checkPath (entryPath path name) = .ok ()) :
    (if name.toList ∈ dots then fs.isDirectory path else fs.holds (entryPath path name)) = true ↔
      ∃ place', fs.follow place name.toList = .ok place' := by
  refine ⟨exists_follow_of_found hpath hname, ?_⟩
  rintro ⟨place', hplace'⟩
  split
  next =>
    rw [isDirectory_of_locate hpath]
    exact isDirectoryAt_of_follow hplace'
  next =>
    rw [holds_iff, locate_entryPath hpath hname hask]
    exact ⟨place', hplace'⟩

/-- Plain segments are followed, and the rest of the pattern is matched where they lead; if they
lead nowhere nothing is found. -/
theorem globIn_plain {rest : List Pattern} (hrest : rest ≠ []) (fuel : Nat)
    (hpath : fs.locate path = .ok place) (hnames : ∀ name ∈ names, '/' ∉ name.toList)
    (hask : Askable path names) :
    fs.globIn (2 * names.length + fuel)
        (names.map (fun name => Pattern.ofPlain name.toList) ++ rest) path =
      match (names.map String.toList).foldlM fs.follow place with
      | .ok _ => fs.globIn fuel rest (trail path names)
      | .error _ => [] := by
  induction names generalizing path place with
  | nil =>
      rw [List.length_nil, Nat.mul_zero, Nat.zero_add]
      rfl
  | cons name names ih =>
      have hname := hnames name List.mem_cons_self
      have hentry := locate_entryPath hpath hname hask.head
      have hfuel : 2 * (name :: names).length + fuel = (2 * names.length + fuel) + 1 + 1 := by
        rw [List.length_cons]
        omega
      obtain ⟨first, more, hmore⟩ := List.exists_cons_of_ne_nil
        (show names.map (fun name => Pattern.ofPlain name.toList) ++ rest ≠ [] by simp [hrest])
      rw [hfuel, List.map_cons, List.map_cons, List.cons_append, List.foldlM_cons, globIn,
        Pattern.literal?_ofPlain]
      dsimp only
      rw [String.ofList_toList]
      by_cases hfound : ∃ place', fs.follow place name.toList = .ok place'
      · rw [if_pos ((found_iff hpath hname hask.head).mpr hfound)]
        obtain ⟨place', hplace'⟩ := hfound
        rw [hplace'] at hentry ⊢
        have hgo := ih hentry (fun name hname => hnames name (List.mem_cons_of_mem _ hname))
          hask.tail
        rw [hmore] at hgo ⊢
        exact hgo
      · rw [if_neg fun h => hfound ((found_iff hpath hname hask.head).mp h)]
        cases hfollow : fs.follow place name.toList with
        | ok place' => exact absurd ⟨place', hfollow⟩ hfound
        | error fault => rfl

/-! ## Everything below a directory -/

/-- Whether the last of some names has an end. -/
def EndsIn (ending : List Char) (names : List String) : Prop :=
  ∃ last, names.getLast? = some last ∧ ending <:+ last.toList

theorem EndsIn.ne_nil (h : EndsIn ending names) : names ≠ [] := by
  rintro rfl
  obtain ⟨last, hlast, -⟩ := h
  cases hlast

/-- Whether some paths lead, each of them once, to everything below a place whose name has an
end. -/
structure Finds (fs : FileSystem) (ending : List Char) (place : List String)
    (paths : List String) : Prop where
  distinct : (paths.map fs.locate).Nodup
  mem_iff : ∀ found, found ∈ paths.map fs.locate ↔
    ∃ names, found = .ok (place ++ names) ∧ (fs.at? (place ++ names)).isSome ∧ EndsIn ending names

/-- What is below a place can be listed: the entries of directories are in order, and their paths
lead to them. -/
structure Listable (fs : FileSystem) (path : String) (place : List String) : Prop where
  ascending : ∀ names entries, fs.at? (place ++ names) = some (.directory entries) →
    Dict.Ascending entries
  named : ∀ names name, (fs.at? (place ++ names ++ [name])).isSome → Path.IsName name.toList
  follows : ∀ names name, (fs.at? (place ++ names ++ [name])).isSome →
    fs.follow (place ++ names) name.toList = .ok (place ++ names ++ [name])
  askable : ∀ names name, (fs.at? (place ++ names ++ [name])).isSome →
    checkPath (entryPath (trail path names) name) = .ok ()

theorem Listable.below (h : Listable fs path place) (name : String) :
    Listable fs (entryPath path name) (place ++ [name]) where
  ascending names entries hentries := h.ascending (name :: names) entries (by simpa using hentries)
  named names last hlast := h.named (name :: names) last (by simpa using hlast)
  follows names last hlast := by
    simpa using h.follows (name :: names) last (by simpa using hlast)
  askable names last hlast := h.askable (name :: names) last (by simpa using hlast)

/-- The path of an entry leads to it. -/
theorem Listable.locate (h : Listable fs path place) (hpath : fs.locate path = .ok place)
    (hname : (fs.at? (place ++ [name])).isSome) :
    fs.locate (entryPath path name) = .ok (place ++ [name]) := by
  have hname' : (fs.at? (place ++ [] ++ [name])).isSome := by rwa [List.append_nil]
  have hfollow := h.follows [] name hname'
  rw [List.append_nil] at hfollow
  exact (locate_entryPath hpath (h.named [] name hname').1 (h.askable [] name hname')).trans hfollow

theorem finds_nil (h : ¬ fs.isDirectoryAt place) : Finds fs ending place [] where
  distinct := List.nodup_nil
  mem_iff found := by
    refine iff_of_false List.not_mem_nil ?_
    rintro ⟨names, -, hsome, hends⟩
    obtain ⟨name, names, rfl⟩ := List.exists_cons_of_ne_nil hends.ne_nil
    exact h (isDirectoryAt_of_isSome hsome)

/-- The pattern of everything below a directory whose name has an end. -/
def below (ending : List Char) : List Pattern := [[.anyDirectories], Pattern.endingIn ending]

theorem globIn_below (h : fs.isDirectory path) (fuel : Nat) :
    fs.globIn (fuel + 1) (below ending) path =
      (fs.namesIn path).flatMap fun name =>
        fs.globAt fuel (below ending) (entryPath path name) := by
  rw [below, globIn]
  show (if (!fs.isDirectory path) = true then _ else _) = _
  rw [h]
  rfl

theorem globIn_below_of_not (h : fs.isDirectory path = false) (fuel : Nat) :
    fs.globIn (fuel + 1) (below ending) path = [] := by
  rw [below, globIn]
  show (if (!fs.isDirectory path) = true then _ else _) = _
  rw [h]
  rfl

theorem globAt_below {last : List Char} (hlast : lastName? path = some last) (fuel : Nat) :
    fs.globAt (fuel + 3) (below ending) path =
      (if ending <:+ last then [path] else []) ++
        (if fs.isDirectory path then fs.globIn (fuel + 2) (below ending) path else []) := by
  have hrest : [Pattern.endingIn ending].dropWhile Pattern.isDirectories =
      [Pattern.endingIn ending] :=
    List.dropWhile_cons_of_neg (by simp [Pattern.isDirectories_endingIn])
  have hself : fs.globAt (fuel + 2) [Pattern.endingIn ending] path =
      if ending <:+ last then [path] else [] := by
    rw [globAt, Pattern.isDirectories_endingIn, if_neg Bool.false_ne_true, hlast]
    dsimp only
    simp only [Pattern.isMatch_endingIn]
    rfl
  rw [below, globAt, if_pos (show Pattern.isDirectories [.anyDirectories] = true by decide), hrest]
  dsimp only
  rw [hself]

/-- The places below a place whose first name is given. -/
def Through (fs : FileSystem) (ending : List Char) (place : List String) (name : String)
    (found : Except FileFault (List String)) : Prop :=
  ∃ names, found = .ok (place ++ name :: names) ∧ (fs.at? (place ++ name :: names)).isSome ∧
    EndsIn ending (name :: names)

/-- Through an entry, it is found itself if its name has the end, and what is below it. -/
theorem finds_entry {subs : List String}
    (hpath : fs.locate path = .ok (place ++ [name]))
    (hsubs : Finds fs ending (place ++ [name]) subs) :
    (((if ending <:+ name.toList then [path] else []) ++ subs).map fs.locate).Nodup ∧
      ∀ found, found ∈ ((if ending <:+ name.toList then [path] else []) ++ subs).map fs.locate ↔
        Through fs ending place name found := by
  have hself (found : Except FileFault (List String)) :
      found ∈ (if ending <:+ name.toList then [path] else []).map fs.locate ↔
        found = .ok (place ++ [name]) ∧ ending <:+ name.toList := by
    split
    next h => simp [hpath, h]
    next h => simp [h]
  rw [List.map_append]
  constructor
  · refine List.nodup_append.mpr ⟨?_, hsubs.distinct, fun a ha b hb hab => ?_⟩
    · split
      · exact List.nodup_singleton _
      · exact List.nodup_nil
    · obtain ⟨rfl, -⟩ := (hself a).mp ha
      obtain ⟨names, hnames, -, hends⟩ := (hsubs.mem_iff b).mp hb
      have heq := Except.ok.inj (hab.trans hnames)
      exact hends.ne_nil (List.append_right_eq_self.mp heq.symm)
  · intro found
    rw [List.mem_append, hself, hsubs.mem_iff]
    constructor
    · rintro (⟨rfl, hends⟩ | ⟨names, rfl, hsome, last, hlast, hends⟩)
      · exact ⟨[], rfl, isSome_of_locate hpath, name, rfl, hends⟩
      · refine ⟨names, by simp, by simpa using hsome, last, ?_, hends⟩
        rw [List.getLast?_cons, hlast]
        rfl
    · rintro ⟨names, rfl, hsome, last, hlast, hends⟩
      cases names with
      | nil =>
          cases hlast
          exact .inl ⟨rfl, hends⟩
      | cons first names =>
          rw [List.getLast?_cons_cons] at hlast
          exact .inr ⟨first :: names, by simp, by simpa using hsome, last, hlast, hends⟩

/-- Below a directory is what is found through its entries. -/
theorem finds_entries {keys : List String} (hkeys : keys.Nodup)
    {paths : String → List String}
    (h : ∀ name ∈ keys, ((paths name).map fs.locate).Nodup ∧
      ∀ found, found ∈ (paths name).map fs.locate ↔ Through fs ending place name found)
    (hentries : ∀ name names, (fs.at? (place ++ name :: names)).isSome → name ∈ keys) :
    Finds fs ending place (keys.flatMap paths) where
  distinct := by
    rw [List.map_flatMap, List.nodup_flatMap]
    refine ⟨fun name hname => (h name hname).1,
      hkeys.imp_of_mem fun ha hb hne found hfound hfound' => hne ?_⟩
    obtain ⟨names, hfound, -⟩ := ((h _ ha).2 found).mp hfound
    obtain ⟨names', hfound', -⟩ := ((h _ hb).2 found).mp hfound'
    have heq := List.append_cancel_left (Except.ok.inj (hfound.symm.trans hfound'))
    exact (List.cons.inj heq).1
  mem_iff found := by
    rw [List.map_flatMap, List.mem_flatMap]
    constructor
    · rintro ⟨name, hname, hfound⟩
      obtain ⟨names, hfound⟩ := ((h name hname).2 found).mp hfound
      exact ⟨name :: names, hfound⟩
    · rintro ⟨names, hfound, hsome, hends⟩
      obtain ⟨name, names, rfl⟩ := List.exists_cons_of_ne_nil hends.ne_nil
      have hname := hentries name names hsome
      exact ⟨name, hname, ((h name hname).2 found).mpr ⟨names, hfound, hsome, hends⟩⟩

/-- If everything is found below the directories among its entries, everything is found below a
directory. -/
theorem finds_level (ending : List Char) {fuel : Nat} (hpath : fs.locate path = .ok place)
    (hlist : Listable fs path place) (hdir : fs.isDirectoryAt place)
    (hbelow : ∀ name, (fs.at? (place ++ [name])).isSome → ∃ more, fuel = more + 3 ∧
      (fs.isDirectoryAt (place ++ [name]) → Finds fs ending (place ++ [name])
        (fs.globIn (more + 2) (below ending) (entryPath path name)))) :
    Finds fs ending place (fs.globIn (fuel + 1) (below ending) path) := by
  obtain ⟨entries, hentries⟩ := isDirectoryAt_iff.mp hdir
  have hnames : fs.namesIn path = Dict.keys entries := by
    rw [namesIn, find_of_locate hpath hentries]
    rfl
  have hascending : Dict.Ascending entries :=
    hlist.ascending [] entries (by rwa [List.append_nil])
  rw [globIn_below ((isDirectory_of_locate hpath).trans hdir), hnames]
  refine finds_entries hascending.nodup (fun name hname => ?_) fun name names hsome => ?_
  · obtain ⟨t, ht⟩ := Dict.hasKey_iff_exists.mp (Dict.hasKey_iff_mem_keys.mpr hname)
    have hsome : (fs.at? (place ++ [name])).isSome := by
      rw [at?_append_of_directory hentries, ht]
      rfl
    have hentry := hlist.locate hpath hsome
    have hlast : lastName? (entryPath path name) = some name.toList :=
      lastName?_entryPath (hlist.named [] name (by rwa [List.append_nil]))
    obtain ⟨more, rfl, hfinds⟩ := hbelow name hsome
    rw [globAt_below hlast, isDirectory_of_locate hentry]
    refine finds_entry hentry ?_
    split
    next h => exact hfinds h
    next h => exact finds_nil h
  · rw [at?_append_of_directory hentries] at hsome
    cases hget : Dict.get? name entries with
    | none =>
        rw [hget] at hsome
        cases hsome
    | some t => exact Dict.hasKey_iff_mem_keys.mp (Dict.hasKey_iff_exists.mpr ⟨t, hget⟩)

/-- Below a directory everything is found whose name has the end. -/
theorem finds_globIn (ending : List Char) {height : Nat} (hpath : fs.locate path = .ok place)
    (hlist : Listable fs path place) (hdir : fs.isDirectoryAt place)
    (hheight : ∀ names, (fs.at? (place ++ names)).isSome → names.length ≤ height)
    {fuel : Nat} (hfuel : 2 * height + 2 ≤ fuel) :
    Finds fs ending place (fs.globIn fuel (below ending) path) := by
  induction height generalizing path place fuel with
  | zero =>
      obtain ⟨fuel, rfl⟩ : ∃ f, fuel = f + 1 := ⟨fuel - 1, by omega⟩
      refine finds_level ending hpath hlist hdir fun name hsome => ?_
      have hlength := hheight [name] hsome
      simp at hlength
  | succ height ih =>
      obtain ⟨fuel, rfl⟩ : ∃ f, fuel = f + 4 := ⟨fuel - 4, by omega⟩
      refine finds_level ending hpath hlist hdir fun name hsome => ⟨fuel, rfl, fun hbelow => ?_⟩
      refine ih (hlist.locate hpath hsome) (hlist.below name) hbelow (fun names h => ?_) (by omega)
      have hlength := hheight (name :: names) (by simpa using h)
      rw [List.length_cons] at hlength
      omega

/-! ## The pattern of a directory -/

/-- Where the pattern of a directory is followed from. -/
def startPath (directory : String) : String :=
  if Path.isAbsolute directory.toList then "/" else "."

/-- The names that the pattern of a directory starts with. -/
def baseNames (directory : String) : List String :=
  (if Path.isAbsolute directory.toList then (baseSegments directory.toList).tail
    else baseSegments directory.toList).map String.ofList

theorem mem_baseNames {name : String} (h : name ∈ baseNames directory) :
    ∃ s ∈ segments directory.toList, name = String.ofList s := by
  obtain ⟨s, hs, rfl⟩ := List.mem_map.mp h
  refine ⟨s, Path.mem_baseSegments ?_, rfl⟩
  split at hs
  · exact List.mem_of_mem_tail hs
  · exact hs

theorem slash_notMem_baseNames {name : String} (h : name ∈ baseNames directory) :
    '/' ∉ name.toList := by
  obtain ⟨s, hs, rfl⟩ := mem_baseNames h
  rw [String.toList_ofList]
  exact Path.not_mem_of_mem_segments hs

/-- Whether a text is a pattern whose segments are read as some patterns. -/
structure ReadsAs (text : String) (segs : List Pattern) : Prop where
  whole : ∃ p, Pattern.ofText text = .ok p
  parts : (patternSegments text.toList).mapM (fun s => Pattern.ofText (String.ofList s)) = .ok segs

/-- A text is a pattern behind the path of a directory as well. -/
theorem exists_ofText_join (hdirectory : ∀ c ∈ directory.toList, Pattern.IsPlain c)
    (htext : Path.isAbsolute text.toList = false) :
    (∃ p, Pattern.ofText (Path.join directory text) = .ok p) ↔
      ∃ p, Pattern.ofText text = .ok p := by
  obtain ⟨front, hfront, hend, hmem⟩ := Path.exists_joinChars directory.toList htext
  have hplain : ∀ c ∈ front, Pattern.IsPlain c := by
    intro c hc
    rcases hmem c hc with hc | rfl
    · exact hdirectory c hc
    · exact ⟨by decide, by decide, by decide⟩
  have hblocks : Pattern.Blocks (front.getLast?.or none) ↔ Pattern.Blocks none := by
    rw [Option.or_none]
    rcases hend with rfl | hend
    · rfl
    · simp [Pattern.Blocks, hend]
  rw [Pattern.ofText, Pattern.ofText, Path.join, String.toList_ofList, hfront,
    Pattern.readFrom_plain hplain]
  exact Pattern.exists_readFrom_congr hblocks _ _ _ _ _

/-- The segments of a pattern behind the path of a directory. -/
theorem patternSegments_join (htext : Path.isAbsolute text.toList = false) :
    patternSegments (if Path.isAbsolute (Path.join directory text).toList
        then (Path.join directory text).toList.drop 1 else (Path.join directory text).toList) =
      (baseNames directory).map String.toList ++ patternSegments text.toList := by
  have hsegments := Path.segments_joinChars directory.toList htext
  have habsolute := Path.isAbsolute_joinChars directory.toList htext
  have hbody : segments (if Path.isAbsolute directory.toList
      then (Path.joinChars directory.toList text.toList).drop 1
      else Path.joinChars directory.toList text.toList) =
        (baseNames directory).map String.toList ++ segments text.toList := by
    rw [baseNames, Path.map_toList_map_ofList]
    by_cases habs : Path.isAbsolute directory.toList
    · rw [if_pos habs, if_pos habs]
      rw [habs] at habsolute
      obtain ⟨body, hbody⟩ := Path.exists_of_isAbsolute habsolute
      obtain ⟨rest, hrest⟩ := Path.baseSegments_of_isAbsolute habs
      rw [hbody, segments, if_pos rfl, hrest, List.cons_append, List.cons.injEq] at hsegments
      rw [hbody, List.drop_succ_cons, List.drop_zero]
      rw [hrest, hsegments.2]
      rfl
    · rw [if_neg habs, if_neg habs, hsegments]
  have hne := Path.segments_ne_nil text.toList
  rw [Path.join, String.toList_ofList, habsolute, patternSegments, hbody, patternSegments,
    List.getLast?_append_of_ne_nil _ hne, List.dropLast_append_of_ne_nil hne]
  split <;> rfl

/-- What the segments of a pattern lead to behind the names of a directory. -/
def searched (fs : FileSystem) (directory : String) (segs : List Pattern) : List String :=
  fs.globIn (4 * (fs.root.size + ((baseNames directory).length + segs.length) + 2))
    ((baseNames directory).map (fun name => Pattern.ofPlain name.toList) ++ segs)
    (startPath directory)

/-- A pattern behind the path of a directory starts with the names of the directory. -/
theorem glob_join {segs : List Pattern} (hdirectory : ∀ c ∈ directory.toList, Pattern.IsPlain c)
    (htext : Path.isAbsolute text.toList = false) (hne : text.toList ≠ [])
    (hreads : ReadsAs text segs) :
    fs.glob (Path.join directory text) = .ok
      (if text.toList.getLast? = some '/' then (fs.searched directory segs).filter fs.isDirectory
        else fs.searched directory segs) := by
  obtain ⟨p, hp⟩ := (exists_ofText_join hdirectory htext).mpr hreads.whole
  have hparts : (patternSegments (if Path.isAbsolute (Path.join directory text).toList
      then (Path.join directory text).toList.drop 1 else (Path.join directory text).toList)).mapM
        (fun s => Pattern.ofText (String.ofList s)) =
      .ok ((baseNames directory).map (fun name => Pattern.ofPlain name.toList) ++ segs) := by
    rw [patternSegments_join htext, Activity.mapM_eq_ok]
    refine List.rel_append ?_ (Activity.mapM_eq_ok.mp hreads.parts)
    rw [List.forall₂_map_left_iff, List.forall₂_map_right_iff, List.forall₂_same]
    intro name hname
    obtain ⟨s, hs, rfl⟩ := mem_baseNames hname
    rw [String.toList_ofList]
    exact Pattern.ofText_plain fun c hc => hdirectory c (Path.mem_of_mem_segments hs hc)
  have hlast : (Path.join directory text).toList.getLast? = text.toList.getLast? := by
    obtain ⟨front, hfront, -⟩ := Path.exists_joinChars directory.toList htext
    rw [Path.join, String.toList_ofList, hfront, List.getLast?_append_of_ne_nil _ hne]
  have habsolute : Path.isAbsolute (Path.join directory text).toList =
      Path.isAbsolute directory.toList := by
    rw [Path.join, String.toList_ofList]
    exact Path.isAbsolute_joinChars directory.toList htext
  rw [glob]
  refine Activity.bind_eq_ok.mpr ⟨p, hp, Activity.bind_eq_ok.mpr ⟨_, hparts, ?_⟩⟩
  dsimp only
  rw [hlast, habsolute, List.length_append, List.length_map]
  rfl

/-- What is no pattern is none behind the path of a directory either. -/
theorem exists_readsAs_of_glob_join {paths : List String}
    (hdirectory : ∀ c ∈ directory.toList, Pattern.IsPlain c)
    (htext : Path.isAbsolute text.toList = false)
    (h : fs.glob (Path.join directory text) = .ok paths) : ∃ segs, ReadsAs text segs := by
  obtain ⟨p, hp, h⟩ := Activity.bind_eq_ok.mp h
  obtain ⟨all, hparts, -⟩ := Activity.bind_eq_ok.mp h
  rw [patternSegments_join htext, List.mapM_append] at hparts
  obtain ⟨front, -, hparts⟩ := Activity.bind_eq_ok.mp hparts
  obtain ⟨segs, hsegs, -⟩ := Activity.bind_eq_ok.mp hparts
  exact ⟨segs, (exists_ofText_join hdirectory htext).mp ⟨p, hp⟩, hsegs⟩

/-- The pattern of the files below a directory whose names have an end. -/
def patternBelow (directory : String) (ending : List Char) : String :=
  Path.join directory (String.ofList ('*' :: '*' :: '/' :: '*' :: ending))

theorem readsAs_below (hending : ∀ c ∈ ending, Pattern.IsPlain c) (hslash : '/' ∉ ending) :
    ReadsAs (String.ofList ('*' :: '*' :: '/' :: '*' :: ending)) (below ending) where
  whole := by
    rw [Pattern.ofText, String.toList_ofList, Pattern.readFrom_stars (.inl rfl),
      Pattern.readFrom_star hending]
    exact ⟨_, rfl⟩
  parts := by
    have hlast : segments ('*' :: ending) = ['*' :: ending] :=
      Path.segments_of_not_mem (by simpa using hslash)
    have hsplit := Path.segments_append_slash ['*', '*'] ('*' :: ending)
    rw [hlast] at hsplit
    have hparts : patternSegments ('*' :: '*' :: '/' :: '*' :: ending) =
        [['*', '*'], '*' :: ending] := by
      have hsegments :
          segments ('*' :: '*' :: '/' :: '*' :: ending) = [['*', '*'], '*' :: ending] := hsplit
      rw [patternSegments, hsegments]
      exact if_neg (by simp)
    rw [String.toList_ofList, hparts, Activity.mapM_eq_ok]
    exact .cons Pattern.ofText_stars (.cons (Pattern.ofText_star hending) .nil)

theorem below_ne_nil (ending : List Char) : below ending ≠ [] := List.cons_ne_nil _ _

theorem glob_patternBelow (hdirectory : ∀ c ∈ directory.toList, Pattern.IsPlain c)
    (hending : ∀ c ∈ ending, Pattern.IsPlain c) (hslash : '/' ∉ ending) :
    fs.glob (patternBelow directory ending) = .ok (fs.searched directory (below ending)) := by
  have hlast : ('*' :: '*' :: '/' :: '*' :: ending).getLast? ≠ some '/' := by
    intro hlast
    have hmem := List.mem_of_getLast? (l := '*' :: ending) (by simpa using hlast)
    simp [hslash] at hmem
  refine (glob_join hdirectory (by simp [Path.isAbsolute]) (by simp)
    (readsAs_below hending hslash)).trans ?_
  rw [String.toList_ofList]
  exact congrArg Except.ok (if_neg hlast)

/-! ## Directories that are named literally -/

/-- The segments in front of the names that the pattern of a directory starts with. -/
def lead (directory : String) : List Segment :=
  if Path.isAbsolute directory.toList then [[]] else []

theorem lead_append_baseNames (directory : String) :
    lead directory ++ (baseNames directory).map String.toList = baseSegments directory.toList := by
  rw [lead, baseNames, Path.map_toList_map_ofList]
  split
  next habs =>
    obtain ⟨rest, hrest⟩ := Path.baseSegments_of_isAbsolute habs
    rw [hrest]
    rfl
  next => rfl

theorem not_atHere_root : ¬ Path.AtHere "/".toList := by
  rw [Path.AtHere]
  decide

theorem entryPath_sublist_root (name : String) :
    (entryPath "/" name).toList.Sublist ('/' :: name.toList) := by
  rw [toList_entryPath not_atHere_root, Path.joinChars]
  split
  · exact List.sublist_cons_self _ _
  · exact List.Sublist.refl _

theorem entryPath_startPath (directory name : String) :
    (entryPath (startPath directory) name).toList.Sublist
      (Path.joinSegments (lead directory ++ [name.toList])) := by
  rw [lead, startPath]
  split
  · exact entryPath_sublist_root name
  · rw [entryPath_dot]
    exact List.Sublist.refl _

/-- The system can be asked about the paths on the way along some names if it can be asked about a
path with their segments. -/
theorem askable_of_prefix {names : List String} {longer : String}
    (hlonger : checkPath longer = .ok ())
    (h : lead directory ++ names.map String.toList <+: segments longer.toList)
    (hpass : Passable (startPath directory) names) : Askable (startPath directory) names := by
  intro front name hprefix
  refine checkPath_of_sublist ?_ (hpass front name hprefix) hlonger
  obtain ⟨more, hmore⟩ := h
  obtain ⟨rest, rfl⟩ := hprefix
  have hsub := trail_sublist (entryPath_startPath directory) front name
  rw [← Path.joinSegments_segments longer.toList, ← hmore]
  refine hsub.trans ?_
  have hsplit := Path.joinSegments_sublist_append
    (lead directory ++ front.map String.toList ++ [name.toList]) (rest.map String.toList ++ more)
  simpa using hsplit

theorem passable_start {names : List String}
    (h : Path.isAbsolute directory.toList ∨ Direct (baseNames directory))
    (hnames : ∀ name ∈ names, Path.IsName name.toList) :
    Passable (startPath directory) (baseNames directory ++ names) := by
  have hslash : ∀ name ∈ baseNames directory ++ names, '/' ∉ name.toList := by
    intro name hname
    rcases List.mem_append.mp hname with hname | hname
    · exact slash_notMem_baseNames hname
    · exact (hnames name hname).1
  by_cases habs : Path.isAbsolute directory.toList
  · rw [startPath, if_pos habs]
    exact passable_away (by decide) not_atHere_root hslash
  · rw [startPath, if_neg habs]
    refine passable_here (fun hhead => ?_) hslash
    rw [List.dropWhile_append] at hhead
    split at hhead
    next =>
      have hmem := List.dropWhile_subset _ (List.mem_of_head? hhead)
      exact (hnames "" hmem).2.1 rfl
    next hne =>
      have hfirst := h.resolve_left habs
      cases hrest : (baseNames directory).dropWhile (· = ".") with
      | nil => simp [hrest] at hne
      | cons first rest =>
          rw [hrest] at hhead
          rw [Direct, hrest] at hfirst
          exact hfirst hhead

theorem locate_startPath (h : fs.isDirectoryAt (fs.startOf directory)) :
    fs.locate (startPath directory) = .ok (fs.startOf directory) := by
  rw [startOf] at h ⊢
  rw [startPath]
  split
  next habs =>
    rw [if_pos habs] at h
    show [[], []].foldlM fs.follow [] = _
    rw [List.foldlM_cons, follow_idle h (.inl rfl)]
    show [[]].foldlM fs.follow [] = _
    rw [List.foldlM_cons, follow_idle h (.inl rfl)]
    rfl
  next habs =>
    rw [if_neg habs] at h
    show [Path.here].foldlM fs.follow fs.workDir = _
    rw [List.foldlM_cons, follow_idle h (.inr rfl)]
    rfl

theorem foldlM_baseNames (h : fs.isDirectoryAt place) :
    ((baseNames directory).map String.toList).foldlM fs.follow place =
      (baseSegments directory.toList).foldlM fs.follow place := by
  rw [← lead_append_baseNames, lead]
  split
  · show _ = List.foldlM fs.follow place ([] :: _)
    rw [List.foldlM_cons, follow_idle h (.inl rfl)]
    rfl
  · rfl

/-- Whether the path of a directory stands for itself in a pattern: it has no special characters,
and it does not start with a dot and two slashes. -/
structure Literal (directory : String) : Prop where
  plain : ∀ c ∈ directory.toList, Pattern.IsPlain c
  direct : Path.isAbsolute directory.toList ∨ Direct (baseNames directory)

theorem askable_baseNames (hdirectory : Literal directory) (hcheck : checkPath directory = .ok ()) :
    Askable (startPath directory) (baseNames directory) := by
  refine askable_of_prefix hcheck ?_ ?_
  · obtain ⟨-, idle, hsplit, -⟩ :=
      Path.exists_segments_eq_baseSegments (ne_nil_of_checkPath hcheck)
    rw [lead_append_baseNames, hsplit]
    exact List.prefix_append _ _
  · have hpass : Passable (startPath directory) (baseNames directory ++ []) :=
      passable_start hdirectory.direct (by simp)
    rwa [List.append_nil] at hpass

/-- Behind the names of a directory, a pattern is matched where they lead. -/
theorem searched_eq {segs : List Pattern} (hdirectory : Literal directory)
    (hcheck : checkPath directory = .ok ()) (hstart : fs.isDirectoryAt (fs.startOf directory))
    (hne : segs ≠ []) :
    fs.searched directory segs =
      match (baseSegments directory.toList).foldlM fs.follow (fs.startOf directory) with
      | .ok _ => fs.globIn (4 * (fs.root.size + segs.length + 2) + 2 * (baseNames directory).length)
          segs (trail (startPath directory) (baseNames directory))
      | .error _ => [] := by
  have hfuel : 4 * (fs.root.size + ((baseNames directory).length + segs.length) + 2) =
      2 * (baseNames directory).length +
        (4 * (fs.root.size + segs.length + 2) + 2 * (baseNames directory).length) := by
    omega
  have hplain := globIn_plain hne
    (4 * (fs.root.size + segs.length + 2) + 2 * (baseNames directory).length)
    (locate_startPath hstart) (fun name hname => slash_notMem_baseNames hname)
    (askable_baseNames hdirectory hcheck)
  rw [searched, hfuel, hplain, foldlM_baseNames hstart]

/-- Where the path of a directory leads anywhere, everything is found below it whose name has the
end. -/
theorem exists_finds_patternBelow (hdirectory : Literal directory)
    (hending : ∀ c ∈ ending, Pattern.IsPlain c) (hslash : '/' ∉ ending)
    (hcheck : checkPath directory = .ok ()) (hstart : fs.isDirectoryAt (fs.startOf directory))
    (h : (baseSegments directory.toList).foldlM fs.follow (fs.startOf directory) = .ok place)
    (hlist : Listable fs (trail (startPath directory) (baseNames directory)) place) :
    ∃ paths, fs.glob (patternBelow directory ending) = .ok paths ∧ Finds fs ending place paths := by
  obtain ⟨fuel, hfuel, hsize⟩ : ∃ fuel, 4 * (fs.root.size + (below ending).length + 2) +
      2 * (baseNames directory).length = fuel + 1 ∧
        2 * fs.root.size + 2 ≤ fuel + 1 :=
    ⟨4 * (fs.root.size + (below ending).length + 1) + 2 * (baseNames directory).length + 3,
      by omega, by omega⟩
  rw [glob_patternBelow hdirectory.plain hending hslash,
    searched_eq hdirectory hcheck hstart (below_ne_nil ending), h, hfuel]
  refine ⟨_, rfl, ?_⟩
  have htrail : fs.locate (trail (startPath directory) (baseNames directory)) = .ok place := by
    refine locate_trail (locate_startPath hstart) (fun name hname => slash_notMem_baseNames hname)
      (askable_baseNames hdirectory hcheck) ?_
    rw [foldlM_baseNames hstart, h]
  have hheight : ∀ names, (fs.at? (place ++ names)).isSome → names.length ≤ fs.root.size := by
    intro names hsome
    have hlength := FileTree.length_lt_size hsome
    rw [List.length_append] at hlength
    omega
  by_cases hdir : fs.isDirectoryAt place
  · exact finds_globIn ending htrail hlist hdir hheight hsize
  · have hnone : fs.isDirectory (trail (startPath directory) (baseNames directory)) = false := by
      rw [isDirectory_of_locate htrail, Bool.eq_false_iff]
      exact hdir
    rw [globIn_below_of_not hnone]
    exact finds_nil hdir

theorem isName_of_prefix {p : List Char} (hplain : Path.Plain p)
    (h : names.map String.toList <+: segments p) (hname : name ∈ names) :
    Path.IsName name.toList := by
  have hmem : name.toList ∈ segments p := h.subset (List.mem_map_of_mem hname)
  exact ⟨Path.not_mem_of_mem_segments hmem, hplain _ hmem⟩

/-- On the way to a file below a directory every name is followed. -/
theorem follow_of_locate_join {p : List Char} {file : List String} (hplain : Path.Plain p)
    (h : (baseSegments directory.toList).foldlM fs.follow (fs.startOf directory) = .ok place)
    (hlocate : fs.locate (Path.join directory (String.ofList p)) = .ok file)
    (hnames : (names ++ [name]).map String.toList <+: segments p) :
    fs.follow (place ++ names) name.toList = .ok (place ++ names ++ [name]) := by
  obtain ⟨rest, hrest⟩ := hnames
  obtain ⟨base, hbase, hfold⟩ := exists_foldlM_of_locate_join hplain.isAbsolute_eq hlocate
  rw [h] at hbase
  cases hbase
  rw [← hrest, List.map_append, List.append_assoc, List.foldlM_append] at hfold
  obtain ⟨between, hbetween, hfold⟩ := Activity.bind_eq_ok.mp hfold
  have hsegments : ∀ s ∈ names.map String.toList ++ ([name].map String.toList ++ rest),
      s ≠ [] ∧ s ≠ Path.here ∧ s ≠ Path.parent := by
    intro s hs
    rw [← List.append_assoc, ← List.map_append, hrest] at hs
    exact hplain s hs
  obtain rfl := eq_of_foldlM_follow (fun s hs => hsegments s (List.mem_append_left _ hs)) hbetween
  rw [List.map_singleton, List.singleton_append, List.foldlM_cons] at hfold
  obtain ⟨last, hlast, -⟩ := Activity.bind_eq_ok.mp hfold
  have hlast' := eq_of_follow (hsegments _ List.mem_append_cons_self) hlast
  rw [hlast', Path.map_ofList_map_toList, String.ofList_toList] at hlast
  exact hlast

/-- What is below a directory can be listed if everything there is on the way to a file whose path
is a row of names. -/
theorem listable_of_paths (hdirectory : Literal directory)
    (h : (baseSegments directory.toList).foldlM fs.follow (fs.startOf directory) = .ok place)
    (hascending : ∀ names entries, fs.at? (place ++ names) = some (.directory entries) →
      Dict.Ascending entries)
    (hbelow : ∀ names, names ≠ [] → (fs.at? (place ++ names)).isSome → ∃ p file, Path.Plain p ∧
      names.map String.toList <+: segments p ∧
      fs.locate (Path.join directory (String.ofList p)) = .ok file) :
    Listable fs (trail (startPath directory) (baseNames directory)) place where
  ascending := hascending
  named names name hsome := by
    obtain ⟨p, file, hplain, hprefix, -⟩ :=
      hbelow (names ++ [name]) (by simp) (by simpa using hsome)
    exact isName_of_prefix hplain hprefix List.mem_append_cons_self
  follows names name hsome := by
    obtain ⟨p, file, hplain, hprefix, hlocate⟩ :=
      hbelow (names ++ [name]) (by simp) (by simpa using hsome)
    exact follow_of_locate_join hplain h hlocate hprefix
  askable names name hsome := by
    obtain ⟨p, file, hplain, hprefix, hlocate⟩ :=
      hbelow (names ++ [name]) (by simp) (by simpa using hsome)
    obtain ⟨⟨⟩, hcheck, -⟩ := Activity.bind_eq_ok.mp hlocate
    have hask : Askable (startPath directory) (baseNames directory ++ (names ++ [name])) := by
      refine askable_of_prefix hcheck ?_
        (passable_start hdirectory.direct fun _ hmem => isName_of_prefix hplain hprefix hmem)
      rw [List.map_append, ← List.append_assoc, lead_append_baseNames, Path.join,
        String.toList_ofList, String.toList_ofList, Path.segments_joinChars _ hplain.isAbsolute_eq]
      exact (List.prefix_append_right_inj _).mpr hprefix
    have hlast := hask (baseNames directory ++ names) name (by rw [List.append_assoc])
    rwa [trail, List.foldl_append] at hlast

end Stencil.FileSystem
