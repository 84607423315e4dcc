/-
What a pattern leads to.

A pattern of several segments is matched with a bound on the number of steps, and on paths that are
spelled out as it goes.  Neither shows in what it means: from a directory, a row of names leads on
if each segment takes the next name of it, or any number of names of directories where the segment
stands for any directories.  This relation speaks of places in the tree and not of paths, so it does
not matter how the path of the directory is spelled.

The bound is no limit.  A segment costs a few steps, and a level that is entered for any directories
costs two, which are won back when `..` leaves it; so the number of segments and the levels that
are left below a place pay for all steps.
-/
import Mathlib
import Stencil.Proofs.Files.Glob

namespace Stencil

open Stencil.Path (AtHere)

namespace FileTree

/-- Whether a name can be that of an entry. -/
def IsEntryName (name : String) : Prop :=
  Path.IsName name.toList ∧ name.utf8ByteSize ≤ FileSystem.maxName

instance (name : String) : Decidable (IsEntryName name) :=
  inferInstanceAs (Decidable (('/' ∉ name.toList ∧ name.toList ≠ [] ∧ name.toList ≠ Path.here ∧
    name.toList ≠ Path.parent) ∧ name.utf8ByteSize ≤ FileSystem.maxName))

mutual

/-- Whether all entries of a tree have such names. -/
def isRegular : FileTree → Bool
  | file _ => true
  | directory entries => areRegular entries

/-- Whether some entries and all below them have such names. -/
def areRegular : List (String × FileTree) → Bool
  | [] => true
  | (name, t) :: rest => decide (IsEntryName name) && t.isRegular && areRegular rest

end

theorem regular_of_get? {entries : Dict FileTree} {name : String} {t : FileTree}
    (h : areRegular entries) (ht : entries.get? name = some t) :
    IsEntryName name ∧ t.isRegular := by
  induction entries with
  | nil => cases ht
  | cons entry entries ih =>
      obtain ⟨key, below⟩ := entry
      simp only [areRegular, Bool.and_eq_true, decide_eq_true_eq] at h
      rw [Dict.get?] at ht
      split at ht
      next hkey =>
        cases ht
        exact hkey ▸ h.1
      next => exact ih h.2 ht

theorem isRegular_of_at? {t below : FileTree} {place : List String} (h : t.isRegular)
    (hbelow : t.at? place = some below) : below.isRegular := by
  induction place generalizing t with
  | nil =>
      cases hbelow
      exact h
  | cons name place ih =>
      rw [at?_cons, Option.bind_eq_some_iff] at hbelow
      obtain ⟨next, hnext, hbelow⟩ := hbelow
      cases t with
      | file content => cases hnext
      | directory entries => exact ih (regular_of_get? h hnext).2 hbelow

end FileTree

namespace FileSystem

variable {fs : FileSystem} {path out name : String} {place next last row : List String}
  {segment : Pattern} {rest segs : List Pattern} {fuel : Nat}

/-! ## Rows of names -/

/-- Whether a segment of a pattern takes a name.  With wildcards it takes those of entries, and a
dot or two only if it starts with a dot. -/
def Takes (segment : Pattern) (name : String) : Prop :=
  segment.isMatch name.toList ∧
    (segment.literal?.isSome ∨ (Path.IsName name.toList ∧ segment.isDirectories = false) ∨
      (name.toList ∈ dots ∧ segment.head? = some (.char '.')))

/-- The rows of names by which the segments of a pattern lead from one place to another. -/
inductive Leads (fs : FileSystem) :
    List Pattern → List String → List String → List String → Prop
  | done (place : List String) : Leads fs [] place [] place
  /-- A segment takes a name. -/
  | step {segment : Pattern} {rest : List Pattern} {name : String}
      {place next row last : List String} (htakes : Takes segment name)
      (hstep : fs.follow place name.toList = .ok next) (h : Leads fs rest next row last) :
      Leads fs (segment :: rest) place (name :: row) last
  /-- One for any directories takes a directory and stays. -/
  | enter {segment : Pattern} {rest : List Pattern} {name : String}
      {place next row last : List String} (hsegment : segment.isDirectories)
      (hname : Path.IsName name.toList) (hstep : fs.follow place name.toList = .ok next)
      (hdir : fs.isDirectoryAt next) (h : Leads fs (segment :: rest) next row last) :
      Leads fs (segment :: rest) place (name :: row) last
  /-- Or the next segment of another kind takes an entry. -/
  | leave {segment other : Pattern} {rest more : List Pattern} {name : String}
      {place next row last : List String} (hsegment : segment.isDirectories)
      (hrest : rest.dropWhile Pattern.isDirectories = other :: more)
      (hname : Path.IsName name.toList) (hmatch : other.isMatch name.toList)
      (hstep : fs.follow place name.toList = .ok next) (h : Leads fs more next row last) :
      Leads fs (segment :: rest) place (name :: row) last
  /-- At the end of the pattern the directories themselves are meant. -/
  | stop {segment : Pattern} {rest : List Pattern} {name : String} {place next : List String}
      (hsegment : segment.isDirectories) (hrest : rest.dropWhile Pattern.isDirectories = [])
      (hname : Path.IsName name.toList) (hstep : fs.follow place name.toList = .ok next)
      (hdir : fs.isDirectoryAt next) : Leads fs (segment :: rest) place [name] next

/-- Whether a path is that of a place to which a pattern leads. -/
def Found (fs : FileSystem) (segs : List Pattern) (place : List String) (path out : String) :
    Prop :=
  ∃ row last, Leads fs segs place row last ∧ out = trail path row

theorem found_nil : Found fs [] place path out ↔ out = path := by
  constructor
  · rintro ⟨row, last, hleads, rfl⟩
    cases hleads
    rfl
  · rintro rfl
    exact ⟨[], place, .done place, rfl⟩

theorem not_takes_of_isDirectories (h : segment.isDirectories) (hproper : segment.Proper) :
    ¬ Takes segment name := by
  rintro ⟨-, hliteral | ⟨-, hnot⟩ | ⟨-, hhead⟩⟩
  · simp [Pattern.literal?_of_isDirectories h] at hliteral
  · simp [h] at hnot
  · simp [hproper.stars h] at hhead

/-- One segment of another kind takes one name. -/
theorem found_cons (h : segment.isDirectories = false) :
    Found fs (segment :: rest) place path out ↔ ∃ name next, Takes segment name ∧
      fs.follow place name.toList = .ok next ∧ Found fs rest next (entryPath path name) out := by
  constructor
  · rintro ⟨row, last, hleads, rfl⟩
    cases hleads with
    | step htakes hstep hleads => exact ⟨_, _, htakes, hstep, _, _, hleads, rfl⟩
    | enter hsegment => simp [h] at hsegment
    | leave hsegment => simp [h] at hsegment
    | stop hsegment => simp [h] at hsegment
  · rintro ⟨name, next, htakes, hstep, row, last, hleads, rfl⟩
    exact ⟨_, _, .step htakes hstep hleads, rfl⟩

/-- What a segment for any directories leads to through an entry. -/
def FoundAt (fs : FileSystem) (segment : Pattern) (rest : List Pattern) (name : String)
    (next : List String) (path out : String) : Prop :=
  (fs.isDirectoryAt next ∧ Found fs (segment :: rest) next path out) ∨
    match rest.dropWhile Pattern.isDirectories with
    | [] => fs.isDirectoryAt next ∧ out = path
    | other :: more => other.isMatch name.toList ∧ Found fs more next path out

theorem found_directories (h : segment.isDirectories) (hproper : segment.Proper) :
    Found fs (segment :: rest) place path out ↔ ∃ name next, Path.IsName name.toList ∧
      fs.follow place name.toList = .ok next ∧
        FoundAt fs segment rest name next (entryPath path name) out := by
  constructor
  · rintro ⟨row, last, hleads, rfl⟩
    cases hleads with
    | step htakes => exact absurd htakes (not_takes_of_isDirectories h hproper)
    | enter _ hname hstep hdir hleads =>
        exact ⟨_, _, hname, hstep, .inl ⟨hdir, _, _, hleads, rfl⟩⟩
    | leave _ hrest hname hmatch hstep hleads =>
        refine ⟨_, _, hname, hstep, .inr ?_⟩
        simp only [hrest]
        exact ⟨hmatch, _, _, hleads, rfl⟩
    | stop _ hrest hname hstep hdir =>
        refine ⟨_, _, hname, hstep, .inr ?_⟩
        simp only [hrest]
        exact ⟨hdir, rfl⟩
  · rintro ⟨name, next, hname, hstep, ⟨hdir, row, last, hleads, rfl⟩ | hat⟩
    · exact ⟨_, _, .enter h hname hstep hdir hleads, rfl⟩
    · split at hat
      next hrest => exact ⟨_, _, .stop h hrest hname hstep hat.1, hat.2⟩
      next hrest =>
        obtain ⟨hmatch, row, last, hleads, rfl⟩ := hat
        exact ⟨_, _, .leave h hrest hname hmatch hstep hleads, rfl⟩

/-- Several segments for any directories are one. -/
theorem Leads.congr {rest' : List Pattern} (hsegment : segment.isDirectories)
    (hproper : segment.Proper)
    (hrest : rest.dropWhile Pattern.isDirectories = rest'.dropWhile Pattern.isDirectories)
    (h : Leads fs (segment :: rest) place row last) :
    Leads fs (segment :: rest') place row last := by
  generalize hsegs : segment :: rest = segs at h
  induction h with
  | done => cases hsegs
  | step htakes =>
      cases hsegs
      exact absurd htakes (not_takes_of_isDirectories hsegment hproper)
  | enter _ hname hstep hdir _ ih =>
      cases hsegs
      exact .enter hsegment hname hstep hdir (ih rfl)
  | leave _ hother hname hmatch hstep h =>
      cases hsegs
      exact .leave hsegment (hrest ▸ hother) hname hmatch hstep h
  | stop _ hnil hname hstep hdir =>
      cases hsegs
      exact .stop hsegment (hrest ▸ hnil) hname hstep hdir

theorem found_congr {rest' : List Pattern} (hsegment : segment.isDirectories)
    (hproper : segment.Proper)
    (hrest : rest.dropWhile Pattern.isDirectories = rest'.dropWhile Pattern.isDirectories) :
    Found fs (segment :: rest) place path out ↔ Found fs (segment :: rest') place path out := by
  constructor
  · rintro ⟨row, last, hleads, rfl⟩
    exact ⟨row, last, hleads.congr hsegment hproper hrest, rfl⟩
  · rintro ⟨row, last, hleads, rfl⟩
    exact ⟨row, last, hleads.congr hsegment hproper hrest.symm, rfl⟩

/-! ## Where a search stands -/

/-- Whether the working directory is there, and all entries have names that a system allows. -/
structure Regular (fs : FileSystem) : Prop where
  workDir : fs.isDirectoryAt fs.workDir
  root : fs.root.isRegular

theorem Regular.isEntryName (h : fs.Regular) (hname : (fs.at? (place ++ [name])).isSome) :
    FileTree.IsEntryName name := by
  obtain ⟨entries, hentries⟩ := isDirectoryAt_iff.mp (isDirectoryAt_of_isSome hname)
  rw [at?_append_of_directory hentries, Option.isSome_bind, Option.any_eq_true] at hname
  obtain ⟨t, ht, -⟩ := hname
  exact (FileTree.regular_of_get? (FileTree.isRegular_of_at? h.root hentries) ht).1

/-- Whether the system can be asked about every path on the way along a pattern. -/
def Asked (fs : FileSystem) (path : String) (segs : List Pattern) (place : List String) : Prop :=
  ∀ front row last, front <+: segs → Leads fs front place row last →
    checkPath (trail path row) = .ok ()

/-- Whether the segments of a pattern can be matched from a place that is reached on a path, which
is not that of the working directory. -/
structure Ready (fs : FileSystem) (segs : List Pattern) (place : List String) (path : String) :
    Prop where
  locate : fs.locate path = .ok place
  away : ¬ AtHere path.toList
  proper : ∀ segment ∈ segs, segment.Proper
  asked : Asked fs path segs place

theorem slash_notMem_of_dots (h : name.toList ∈ dots) : '/' ∉ name.toList := by
  rcases List.mem_cons.mp h with h | h
  · simp [h, Path.here]
  · simp [List.mem_singleton.mp h, Path.parent]

theorem slash_notMem_of_takes (hproper : segment.Proper) (h : Takes segment name) :
    '/' ∉ name.toList := by
  obtain ⟨hmatch, hliteral | ⟨hname, -⟩ | ⟨hdots, -⟩⟩ := h
  · obtain ⟨text, htext⟩ := Option.isSome_iff_exists.mp hliteral
    rw [Pattern.eq_ofPlain_of_literal? htext, Pattern.isMatch_ofPlain] at hmatch
    rw [hmatch]
    exact hproper.slash_notMem htext
  · exact hname.1
  · exact slash_notMem_of_dots hdots

/-- A search goes on from an entry, for what the way through it leads to. -/
theorem Ready.through {segs' : List Pattern} (h : Ready fs segs place path)
    (hname : '/' ∉ name.toList) (hstep : fs.follow place name.toList = .ok next)
    (hproper : ∀ segment ∈ segs', segment.Proper)
    (hleads : ∀ front row last, front <+: segs' → Leads fs front next row last →
      checkPath (trail (entryPath path name) row) = .ok ()) :
    Ready fs segs' next (entryPath path name) where
  locate := by
    rw [locate_entryPath h.locate hname (hleads [] [] next (List.nil_prefix) (.done next)), hstep]
  away := by
    refine not_atHere_entryPath ?_ h.away hname
    obtain ⟨⟨⟩, hcheck, -⟩ := Activity.bind_eq_ok.mp h.locate
    exact ne_nil_of_checkPath hcheck
  proper := hproper
  asked := hleads

theorem Ready.step (h : Ready fs (segment :: rest) place path) (htakes : Takes segment name)
    (hstep : fs.follow place name.toList = .ok next) :
    Ready fs rest next (entryPath path name) := by
  have hproper := h.proper segment List.mem_cons_self
  refine h.through (slash_notMem_of_takes hproper htakes) hstep
    (fun segment hmem => h.proper segment (List.mem_cons_of_mem _ hmem)) ?_
  intro front row last hfront hleads
  exact h.asked (segment :: front) (name :: row) last (List.cons_prefix_cons.mpr ⟨rfl, hfront⟩)
    (.step htakes hstep hleads)

theorem Ready.enter (h : Ready fs (segment :: rest) place path) (hsegment : segment.isDirectories)
    (hname : Path.IsName name.toList) (hstep : fs.follow place name.toList = .ok next)
    (hdir : fs.isDirectoryAt next) : Ready fs (segment :: rest) next (entryPath path name) := by
  refine h.through hname.1 hstep h.proper ?_
  intro front row last hfront hleads
  cases front with
  | nil =>
      cases hleads
      exact h.asked [segment] [name] next (by simp) (.stop hsegment rfl hname hstep hdir)
  | cons first front =>
      obtain ⟨rfl, -⟩ := List.cons_prefix_cons.mp hfront
      exact h.asked (first :: front) (name :: row) last hfront
        (.enter hsegment hname hstep hdir hleads)

theorem Ready.leave {other : Pattern} {more : List Pattern}
    (h : Ready fs (segment :: rest) place path) (hsegment : segment.isDirectories)
    (hrest : rest.dropWhile Pattern.isDirectories = other :: more)
    (hname : Path.IsName name.toList) (hmatch : other.isMatch name.toList)
    (hstep : fs.follow place name.toList = .ok next) :
    Ready fs more next (entryPath path name) := by
  have hsplit : rest = rest.takeWhile Pattern.isDirectories ++ other :: more := by
    rw [← hrest, List.takeWhile_append_dropWhile]
  refine h.through hname.1 hstep (fun segment hmem => h.proper segment ?_) ?_
  · rw [hsplit]
    simp [hmem]
  · intro front row last hfront hleads
    refine h.asked (segment :: (rest.takeWhile Pattern.isDirectories ++ other :: front))
      (name :: row) last ?_ (.leave hsegment ?_ hname hmatch hstep hleads)
    · obtain ⟨back, rfl⟩ := hfront
      refine ⟨back, ?_⟩
      rw [List.cons_append, List.append_assoc, List.cons_append, ← hsplit]
    · have hother := List.head?_dropWhile_not Pattern.isDirectories rest
      simp only [hrest, List.head?_cons] at hother
      rw [List.dropWhile_append_of_pos (by simpa using fun s hs => List.mem_takeWhile_imp hs),
        List.dropWhile_cons_of_neg (by simpa using hother)]

/-- A row of names leads where its path does. -/
theorem Ready.locate_trail (h : Ready fs segs place path) (hleads : Leads fs segs place row last) :
    fs.locate (trail path row) = .ok last := by
  induction hleads generalizing path with
  | done => exact h.locate
  | step htakes hstep _ ih => exact ih (h.step htakes hstep)
  | enter hsegment hname hstep hdir _ ih => exact ih (h.enter hsegment hname hstep hdir)
  | leave hsegment hrest hname hmatch hstep _ ih =>
      exact ih (h.leave hsegment hrest hname hmatch hstep)
  | stop hsegment _ hname hstep hdir => exact (h.enter hsegment hname hstep hdir).locate

theorem Leads.slash_notMem (h : Leads fs segs place row last)
    (hproper : ∀ segment ∈ segs, segment.Proper) : ∀ name ∈ row, '/' ∉ name.toList := by
  induction h with
  | done => simp
  | step htakes _ _ ih =>
      rw [List.forall_mem_cons] at hproper ⊢
      exact ⟨slash_notMem_of_takes hproper.1 htakes, ih hproper.2⟩
  | enter _ hname _ _ _ ih => exact List.forall_mem_cons.mpr ⟨hname.1, ih hproper⟩
  | leave _ hrest hname _ _ _ ih =>
      refine List.forall_mem_cons.mpr ⟨hname.1, ih fun segment hmem => hproper segment ?_⟩
      refine List.mem_cons_of_mem _ ((List.dropWhile_suffix Pattern.isDirectories).subset ?_)
      rw [hrest]
      exact List.mem_cons_of_mem _ hmem
  | stop _ _ hname => simpa using hname.1

theorem Leads.ne_nil (h : Leads fs segs place row last) (hne : segs ≠ []) : row ≠ [] := by
  cases h with
  | done => exact absurd rfl hne
  | _ => exact List.cons_ne_nil _ _

/-- A directory is entered on its path. -/
theorem Ready.isDirectory_iff (h : Ready fs (segment :: rest) place path)
    (hsegment : segment.isDirectories) (hname : Path.IsName name.toList)
    (hstep : fs.follow place name.toList = .ok next) :
    fs.isDirectory (entryPath path name) ↔ fs.isDirectoryAt next := by
  constructor
  · intro hdir
    rw [isDirectory] at hdir
    split at hdir
    next t ht =>
      obtain ⟨place', hplace', -⟩ := exists_of_find ht
      obtain ⟨⟨⟩, hcheck, -⟩ := Activity.bind_eq_ok.mp hplace'
      rw [locate_entryPath h.locate hname.1 hcheck, hstep] at hplace'
      have hentry := locate_entryPath h.locate hname.1 hcheck
      rw [← isDirectory_of_locate (hentry.trans hstep), isDirectory, ht]
      exact hdir
    next => cases hdir
  · intro hdir
    rwa [isDirectory_of_locate (h.enter hsegment hname hstep hdir).locate]

/-- Several segments for any directories are matched like one. -/
theorem Ready.dropWhile (h : Ready fs (segment :: rest) place path)
    (hsegment : segment.isDirectories) :
    Ready fs (segment :: rest.dropWhile Pattern.isDirectories) place path where
  locate := h.locate
  away := h.away
  proper other hmem := by
    refine h.proper other ?_
    rcases List.mem_cons.mp hmem with rfl | hmem
    · exact List.mem_cons_self
    · exact List.mem_cons_of_mem _ ((List.dropWhile_suffix _).subset hmem)
  asked front row last hfront hleads := by
    cases front with
    | nil => exact h.asked [] row last List.nil_prefix hleads
    | cons first front =>
        obtain ⟨rfl, back, hback⟩ := List.cons_prefix_cons.mp hfront
        have hsplit : rest.takeWhile Pattern.isDirectories ++ (front ++ back) = rest := by
          rw [hback, List.takeWhile_append_dropWhile]
        refine h.asked (first :: (rest.takeWhile Pattern.isDirectories ++ front)) row last
          (List.cons_prefix_cons.mpr ⟨rfl, back, by rwa [List.append_assoc]⟩)
          (hleads.congr hsegment (h.proper first List.mem_cons_self) ?_)
        rw [List.dropWhile_append_of_pos (by simpa using fun s hs => List.mem_takeWhile_imp hs)]

/-- The names in a directory are those that lead on from it. -/
theorem mem_namesIn_iff (hregular : fs.Regular) (hpath : fs.locate path = .ok place)
    (hdir : fs.isDirectoryAt place) :
    name ∈ fs.namesIn path ↔ Path.IsName name.toList ∧
      fs.follow place name.toList = .ok (place ++ [name]) := by
  obtain ⟨entries, hentries⟩ := isDirectoryAt_iff.mp hdir
  have hkey : name ∈ fs.namesIn path ↔ (fs.at? (place ++ [name])).isSome := by
    rw [namesIn, find_of_locate hpath hentries, at?_append_of_directory hentries]
    show name ∈ Dict.keys entries ↔ _
    rw [← Dict.hasKey_iff_mem_keys, Dict.hasKey]
    cases Dict.get? name entries <;> simp [FileTree.at?]
  rw [hkey]
  constructor
  · intro hsome
    obtain ⟨hname, hlength⟩ := hregular.isEntryName hsome
    have hcheck : checkName name.toList = .ok name := by
      rw [checkName, String.ofList_toList]
      exact if_neg (not_lt.mpr hlength)
    have hfollow := follow_of_isSome hdir hname.2.1 hname.2.2.1 hname.2.2.2
      (by rwa [String.ofList_toList]) (by rwa [String.ofList_toList])
    rw [String.ofList_toList] at hfollow
    exact ⟨hname, hfollow⟩
  · rintro ⟨-, hfollow⟩
    exact isSome_of_follow hfollow

/-! ## One step of the search -/

theorem mem_globThrough_iff (h : rest ≠ [] →
      (out ∈ fs.globIn fuel rest path ↔ Found fs rest place path out)) :
    out ∈ fs.globThrough (fuel + 1) rest path ↔ Found fs rest place path out := by
  cases rest with
  | nil => simp [globThrough, found_nil]
  | cons segment rest => exact h (List.cons_ne_nil _ _)

theorem mem_globIn_literal {text : List Char} (h : segment.literal? = some text) :
    out ∈ fs.globIn (fuel + 1) (segment :: rest) path ↔
      (if text ∈ dots then fs.isDirectory path else
        fs.holds (entryPath path (String.ofList text))) = true ∧
        out ∈ fs.globThrough fuel rest (entryPath path (String.ofList text)) := by
  rw [globIn, h]
  dsimp only
  split <;> simp_all

theorem mem_globIn_wild (h : segment.literal? = none) :
    out ∈ fs.globIn (fuel + 1) (segment :: rest) path ↔ fs.isDirectory path ∧
      ((segment.head? = some (.char '.') ∧ ∃ name : String, name.toList ∈ dots ∧
          segment.isMatch name.toList ∧ out ∈ fs.globThrough fuel rest (Path.join path name)) ∨
        ∃ name ∈ fs.namesIn path,
          out ∈ fs.globAt fuel (segment :: rest) (entryPath path name)) := by
  rw [globIn, h]
  dsimp only
  by_cases hdir : fs.isDirectory path
  · simp only [hdir, Bool.not_true, Bool.false_eq_true, if_false, List.mem_append,
      List.mem_flatMap, true_and]
    refine or_congr_left ?_
    by_cases hhead : segment.head? = some (.char '.')
    · simp only [hhead, if_true, List.mem_flatMap, List.mem_filter, List.mem_reverse, true_and]
      constructor
      · rintro ⟨text, ⟨hdots, hmatch⟩, hout⟩
        exact ⟨String.ofList text, by simpa using hdots, by simpa using hmatch, hout⟩
      · rintro ⟨name, hdots, hmatch, hout⟩
        exact ⟨name.toList, ⟨hdots, hmatch⟩, by simpa using hout⟩
    · simp [hhead]
  · simp [hdir]

/-- An entry is compared with a segment that does not stand for directories. -/
theorem mem_globAt_name (h : segment.isDirectories = false) (hname : Path.IsName name.toList) :
    out ∈ fs.globAt (fuel + 1) (segment :: rest) (entryPath path name) ↔
      segment.isMatch name.toList ∧ out ∈ fs.globThrough fuel rest (entryPath path name) := by
  rw [globAt, h, if_neg Bool.false_ne_true, lastName?_entryPath hname]
  dsimp only
  split <;> simp_all

/-- With one that stands for directories it is entered if it is one, and compared with the next
segment of another kind. -/
theorem mem_globAt_directories (h : segment.isDirectories) (hname : Path.IsName name.toList) :
    out ∈ fs.globAt (fuel + 2) (segment :: rest) (entryPath path name) ↔
      (fs.isDirectory (entryPath path name) ∧ out ∈ fs.globIn (fuel + 1)
        (segment :: rest.dropWhile Pattern.isDirectories) (entryPath path name)) ∨
      match rest.dropWhile Pattern.isDirectories with
      | [] => fs.isDirectory (entryPath path name) ∧ out = entryPath path name
      | other :: more => other.isMatch name.toList ∧
          out ∈ fs.globThrough fuel more (entryPath path name) := by
  have hother := List.head?_dropWhile_not Pattern.isDirectories rest
  rw [globAt, if_pos h]
  dsimp only
  cases hrest : rest.dropWhile Pattern.isDirectories with
  | nil =>
      by_cases hdir : fs.isDirectory (entryPath path name)
      · simp [hdir, or_comm]
      · simp [hdir]
  | cons other more =>
      simp only [hrest, List.head?_cons] at hother
      dsimp only
      rw [List.mem_append, mem_globAt_name (by simpa using hother) hname, or_comm]
      refine or_congr_left ?_
      split <;> simp_all

/-! ## The bound on its steps -/

/-- How many steps a search takes at most. -/
def cost (fs : FileSystem) (segs : List Pattern) (place : List String) : Nat :=
  4 * segs.length + 2 * (fs.root.size - place.length)

theorem length_le_of_follow {s : Path.Segment} (h : fs.follow place s = .ok next) :
    place.length ≤ next.length + 1 := by
  by_cases hidle : Path.Idle s
  · rw [eq_of_follow_idle hidle h]
    omega
  · rw [Path.Idle, not_or] at hidle
    by_cases hup : s = Path.parent
    · subst hup
      rw [follow, if_neg (by simp [isDirectoryAt_of_follow h])] at h
      cases h
      rw [List.length_dropLast]
      omega
    · rw [eq_of_follow ⟨hidle.1, hidle.2, hup⟩ h, List.length_append]
      omega

theorem cost_cons (segment : Pattern) (rest : List Pattern) (place : List String) :
    fs.cost (segment :: rest) place = fs.cost rest place + 4 := by
  rw [cost, cost, List.length_cons]
  omega

theorem cost_step {s : Path.Segment} (h : fs.follow place s = .ok next) (segment : Pattern)
    (rest : List Pattern) : fs.cost rest next + 2 ≤ fs.cost (segment :: rest) place := by
  have hlength := length_le_of_follow h
  rw [cost, cost, List.length_cons]
  omega

theorem cost_below (h : (fs.at? (place ++ [name])).isSome) (segs : List Pattern) :
    fs.cost segs (place ++ [name]) + 2 = fs.cost segs place := by
  have hlength := FileTree.length_lt_size h
  rw [List.length_append, List.length_singleton] at hlength
  rw [cost, cost, List.length_append, List.length_singleton]
  omega

theorem cost_dropWhile (fs : FileSystem) (segment : Pattern) (rest : List Pattern)
    (place : List String) :
    fs.cost (segment :: rest.dropWhile Pattern.isDirectories) place ≤
      fs.cost (segment :: rest) place := by
  have hlength := (List.dropWhile_suffix (l := rest) Pattern.isDirectories).length_le
  simp only [cost, List.length_cons]
  omega

/-! ## The search -/

/-- Whether a search with fewer steps finds what the segments lead to, if they are enough. -/
def Exact (fs : FileSystem) (fuel : Nat) : Prop :=
  ∀ segs place path out, segs ≠ [] → Ready fs segs place path → fs.cost segs place ≤ fuel →
    (out ∈ fs.globIn fuel segs path ↔ Found fs segs place path out)

theorem Exact.through (h : fs.Exact fuel) (hready : Ready fs rest place path)
    (hfuel : fs.cost rest place ≤ fuel) :
    out ∈ fs.globThrough (fuel + 1) rest path ↔ Found fs rest place path out :=
  mem_globThrough_iff fun hne => h _ _ _ _ hne hready hfuel

theorem Exact.step (h : fs.Exact fuel) (hready : Ready fs (segment :: rest) place path)
    (htakes : Takes segment name) (hstep : fs.follow place name.toList = .ok next)
    (hfuel : fs.cost rest next ≤ fuel) :
    out ∈ fs.globThrough (fuel + 1) rest (entryPath path name) ↔
      Found fs rest next (entryPath path name) out :=
  h.through (hready.step htakes hstep) hfuel

theorem Exact.literal {text : List Char} (h : fs.Exact fuel)
    (hliteral : segment.literal? = some text) (hready : Ready fs (segment :: rest) place path)
    (hfuel : fs.cost (segment :: rest) place ≤ fuel + 2) :
    out ∈ fs.globIn (fuel + 2) (segment :: rest) path ↔
      Found fs (segment :: rest) place path out := by
  have hkind : segment.isDirectories = false := by
    rw [Pattern.eq_ofPlain_of_literal? hliteral, Pattern.isDirectories_ofPlain]
  have htakes (name : String) : Takes segment name ↔ name = String.ofList text := by
    rw [Takes, hliteral, Pattern.eq_ofPlain_of_literal? hliteral, Pattern.isMatch_ofPlain]
    simp [← String.toList_inj]
  have hslash : '/' ∉ (String.ofList text).toList := by
    rw [String.toList_ofList]
    exact (hready.proper segment List.mem_cons_self).slash_notMem hliteral
  rw [mem_globIn_literal hliteral, found_cons hkind]
  constructor
  · rintro ⟨hfound, hout⟩
    obtain ⟨next, hstep⟩ := exists_follow_of_found hready.locate hslash
      (by rwa [String.toList_ofList])
    have hname := (htakes (String.ofList text)).mpr rfl
    have hsteps := cost_step hstep segment rest
    exact ⟨_, next, hname, hstep, (h.step hready hname hstep (by omega)).mp hout⟩
  · rintro ⟨name, next, hname, hstep, hfound⟩
    obtain rfl := (htakes name).mp hname
    obtain ⟨⟨⟩, hcheck, -⟩ := Activity.bind_eq_ok.mp (hready.step hname hstep).locate
    have hsteps := cost_step hstep segment rest
    refine ⟨?_, (h.step hready hname hstep (by omega)).mpr hfound⟩
    have hiff := (found_iff hready.locate hslash hcheck).mpr ⟨next, hstep⟩
    rwa [String.toList_ofList] at hiff

/-- With wildcards, the dots are tried first if the segment starts with one, and then all
entries. -/
theorem Exact.wild (hregular : fs.Regular) (h : fs.Exact fuel) (h' : fs.Exact (fuel + 1))
    (hliteral : segment.literal? = none) (hkind : segment.isDirectories = false)
    (hready : Ready fs (segment :: rest) place path)
    (hfuel : fs.cost (segment :: rest) place ≤ fuel + 3) :
    out ∈ fs.globIn (fuel + 3) (segment :: rest) path ↔
      Found fs (segment :: rest) place path out := by
  have hjoin (name : String) : Path.join path name = entryPath path name :=
    (if_neg hready.away).symm
  rw [mem_globIn_wild hliteral, found_cons hkind]
  constructor
  · rintro ⟨hdir, ⟨hhead, name, hdots, hmatch, hout⟩ | ⟨name, hname, hout⟩⟩
    · have htakes : Takes segment name := ⟨hmatch, .inr (.inr ⟨hdots, hhead⟩)⟩
      have hslash := slash_notMem_of_takes (hready.proper segment List.mem_cons_self) htakes
      obtain ⟨next, hstep⟩ := exists_follow_of_found hready.locate hslash (by rwa [if_pos hdots])
      have hsteps := cost_step hstep segment rest
      rw [hjoin] at hout
      exact ⟨name, next, htakes, hstep, (h'.step hready htakes hstep (by omega)).mp hout⟩
    · rw [isDirectory_of_locate hready.locate] at hdir
      obtain ⟨hname, hstep⟩ := (mem_namesIn_iff hregular hready.locate hdir).mp hname
      obtain ⟨hmatch, hout⟩ := (mem_globAt_name hkind hname).mp hout
      have htakes : Takes segment name := ⟨hmatch, .inr (.inl ⟨hname, hkind⟩)⟩
      have hsteps := cost_below (isSome_of_follow hstep) rest
      rw [cost_cons] at hfuel
      exact ⟨name, _, htakes, hstep, (h.step hready htakes hstep (by omega)).mp hout⟩
  · rintro ⟨name, next, htakes, hstep, hfound⟩
    have hdir := isDirectoryAt_of_follow hstep
    refine ⟨by rwa [isDirectory_of_locate hready.locate], ?_⟩
    obtain ⟨hmatch, hplain | ⟨hname, -⟩ | ⟨hdots, hhead⟩⟩ := id htakes
    · simp [hliteral] at hplain
    · have hnext := eq_of_follow hname.2 hstep
      rw [String.ofList_toList] at hnext
      subst hnext
      have hsteps := cost_below (isSome_of_follow hstep) rest
      rw [cost_cons] at hfuel
      refine .inr ⟨name, (mem_namesIn_iff hregular hready.locate hdir).mpr ⟨hname, hstep⟩, ?_⟩
      rw [mem_globAt_name hkind hname]
      exact ⟨hmatch, (h.step hready htakes hstep (by omega)).mpr hfound⟩
    · have hsteps := cost_step hstep segment rest
      refine .inl ⟨hhead, name, hdots, hmatch, ?_⟩
      rw [hjoin]
      exact (h'.step hready htakes hstep (by omega)).mpr hfound

/-- Through an entry, a segment for any directories is exact if the search below it is, and the one
behind it that starts with the next segment of another kind. -/
theorem Exact.entry (h : fs.Exact fuel) (h' : fs.Exact (fuel + 2)) (hkind : segment.isDirectories)
    (hready : Ready fs (segment :: rest) place path)
    (hfuel : fs.cost (segment :: rest) place ≤ fuel + 4) (hname : Path.IsName name.toList)
    (hstep : fs.follow place name.toList = .ok (place ++ [name])) :
    out ∈ fs.globAt (fuel + 3) (segment :: rest) (entryPath path name) ↔
      FoundAt fs segment rest name (place ++ [name]) (entryPath path name) out := by
  have hdir := hready.isDirectory_iff hkind hname hstep
  have hsteps := cost_below (isSome_of_follow hstep) (segment :: rest)
  have hdrop := cost_dropWhile fs segment rest (place ++ [name])
  rw [mem_globAt_directories hkind hname, FoundAt, hdir]
  refine or_congr (and_congr_right fun hdir => ?_) ?_
  · have hnext := (hready.enter hkind hname hstep hdir).dropWhile hkind
    rw [h' _ _ _ _ (List.cons_ne_nil _ _) hnext (by omega)]
    exact found_congr hkind (hready.proper segment List.mem_cons_self)
      (List.dropWhile_idempotent _ _)
  · split
    next => rfl
    next other more hrest =>
      rw [hrest, cost_cons, cost_cons] at hdrop
      exact and_congr_right fun hmatch =>
        h.through (hready.leave hkind hrest hname hmatch hstep) (by omega)

theorem Exact.directories (hregular : fs.Regular) (h : fs.Exact fuel) (h' : fs.Exact (fuel + 2))
    (hkind : segment.isDirectories) (hready : Ready fs (segment :: rest) place path)
    (hfuel : fs.cost (segment :: rest) place ≤ fuel + 4) :
    out ∈ fs.globIn (fuel + 4) (segment :: rest) path ↔
      Found fs (segment :: rest) place path out := by
  have hproper := hready.proper segment List.mem_cons_self
  have hhead : segment.head? ≠ some (.char '.') := by simp [hproper.stars hkind]
  rw [mem_globIn_wild (Pattern.literal?_of_isDirectories hkind), found_directories hkind hproper]
  simp only [hhead, false_and, false_or]
  constructor
  · rintro ⟨hdir, name, hname, hout⟩
    rw [isDirectory_of_locate hready.locate] at hdir
    obtain ⟨hname, hstep⟩ := (mem_namesIn_iff hregular hready.locate hdir).mp hname
    exact ⟨name, _, hname, hstep, (h.entry h' hkind hready hfuel hname hstep).mp hout⟩
  · rintro ⟨name, next, hname, hstep, hfound⟩
    have hdir := isDirectoryAt_of_follow hstep
    have hnext := eq_of_follow hname.2 hstep
    rw [String.ofList_toList] at hnext
    subst hnext
    exact ⟨by rwa [isDirectory_of_locate hready.locate], name,
      (mem_namesIn_iff hregular hready.locate hdir).mpr ⟨hname, hstep⟩,
      (h.entry h' hkind hready hfuel hname hstep).mpr hfound⟩

/-- The search finds exactly the paths of the places to which the segments lead. -/
theorem exact_globIn (hregular : fs.Regular) (fuel : Nat) : fs.Exact fuel := by
  induction fuel using Nat.strong_induction_on with
  | _ fuel ih =>
      intro segs place path out hne hready hfuel
      obtain ⟨segment, rest, rfl⟩ := List.exists_cons_of_ne_nil hne
      obtain ⟨fuel, rfl⟩ : ∃ f, fuel = f + 4 := by
        rw [cost_cons] at hfuel
        exact ⟨fuel - 4, by omega⟩
      by_cases hkind : segment.isDirectories
      · exact (ih fuel (by omega)).directories hregular (ih (fuel + 2) (by omega)) hkind hready
          hfuel
      · cases hliteral : segment.literal? with
        | some text => exact (ih (fuel + 2) (by omega)).literal hliteral hready hfuel
        | none =>
            exact (ih (fuel + 1) (by omega)).wild hregular (ih (fuel + 2) (by omega)) hliteral
              (by simpa using hkind) hready hfuel

end FileSystem

end Stencil
