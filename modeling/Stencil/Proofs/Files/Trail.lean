/-
Paths of entries.

Files are found on paths that are built up entry by entry.  Such a path leads where the names lead
that it was built from, if the system can be asked about it: a path must not be empty or too long,
and an entry of the working directory is named without the dot in front.
-/
import Mathlib
import Stencil.Proofs.Files.Follow

namespace Stencil.FileSystem

open Stencil.Path (Segment segments AtHere baseSegments)

variable {fs : FileSystem} {path name : String} {place place' names : List String}

theorem entryPath_of_atHere (h : AtHere path.toList) (name : String) :
    entryPath path name = name := if_pos h

theorem entryPath_dot (name : String) : entryPath "." name = name := if_pos (by decide)

theorem toList_entryPath (h : ¬ AtHere path.toList) (name : String) :
    (entryPath path name).toList = Path.joinChars path.toList name.toList := by
  have hentry : entryPath path name = Path.join path name := if_neg h
  rw [hentry, Path.join, String.toList_ofList]

/-- The path under which a row of names is reached from a start. -/
def trail (start : String) (names : List String) : String := names.foldl entryPath start

theorem trail_concat (start : String) (names : List String) (name : String) :
    trail start (names ++ [name]) = entryPath (trail start names) name := List.foldl_concat ..

theorem lastName?_entryPath (hname : Path.IsName name.toList) :
    lastName? (entryPath path name) = some name.toList := by
  obtain ⟨hslash, hne, hhere, hup⟩ := hname
  have hend : ∃ front, segments (entryPath path name).toList = front ++ [name.toList] := by
    by_cases hat : AtHere path.toList
    · refine ⟨[], ?_⟩
      rw [entryPath_of_atHere hat, Path.segments_of_not_mem hslash]
      rfl
    · refine ⟨baseSegments path.toList, ?_⟩
      rw [toList_entryPath hat, Path.segments_joinChars _ (Path.isAbsolute_of_not_mem hslash),
        Path.segments_of_not_mem hslash]
  obtain ⟨front, hfront⟩ := hend
  have hkept : ([name.toList].filter fun s => decide (s ≠ [] ∧ s ≠ Path.here)) = [name.toList] :=
    List.filter_eq_self.mpr (by simp [hne, hhere])
  rw [lastName?, hfront, List.filter_append, hkept, List.getLast?_concat]
  exact if_neg hup

/-! ## Where they lead -/

/-- The path of an entry leads one segment further. -/
theorem locate_entryPath (h : fs.locate path = .ok place) (hname : '/' ∉ name.toList)
    (hcheck : checkPath (entryPath path name) = .ok ()) :
    fs.locate (entryPath path name) = fs.follow place name.toList := by
  obtain ⟨⟨⟩, hpath, hfold⟩ := Activity.bind_eq_ok.mp h
  have hrelative : Path.isAbsolute name.toList = false := Path.isAbsolute_of_not_mem hname
  rw [locate_eq hcheck]
  by_cases hat : AtHere path.toList
  · obtain ⟨rest, hsegments, hidle⟩ := Path.atHere_iff.mp hat
    have hplace : place = fs.startOf path := by
      refine eq_of_foldlM_idle (fun t ht => ?_) hfold
      rw [hsegments] at ht
      rcases List.mem_cons.mp ht with rfl | ht
      · exact .inr rfl
      · exact hidle t ht
    have hstart : fs.startOf path = fs.workDir := by
      rw [startOf, Path.isAbsolute_of_head hsegments (by decide)]
      rfl
    rw [entryPath_of_atHere hat, startOf, Path.segments_of_not_mem hname, hrelative, hplace, hstart,
      List.foldlM_cons]
    exact bind_pure (fs.follow fs.workDir name.toList)
  · rw [toList_entryPath hat, startOf, toList_entryPath hat, Path.isAbsolute_joinChars _ hrelative,
      Path.segments_joinChars _ hrelative, Path.segments_of_not_mem hname, List.foldlM_append]
    have hbase := foldlM_baseSegments (ne_nil_of_checkPath hpath) hfold
    rw [startOf] at hbase
    rw [hbase]
    exact bind_pure (fs.follow place name.toList)

/-- Whether the system can be asked about every path on the way along some names. -/
def Askable (start : String) (names : List String) : Prop :=
  ∀ front name, front ++ [name] <+: names →
    checkPath (entryPath (trail start front) name) = .ok ()

theorem Askable.head (h : Askable path (name :: names)) :
    checkPath (entryPath path name) = .ok () :=
  h [] name (List.prefix_append [name] names)

theorem Askable.tail (h : Askable path (name :: names)) : Askable (entryPath path name) names :=
  fun front last hprefix => h (name :: front) last (List.cons_prefix_cons.mpr ⟨rfl, hprefix⟩)

/-- The way along some names leads where their segments lead. -/
theorem locate_trail (hpath : fs.locate path = .ok place)
    (hnames : ∀ name ∈ names, '/' ∉ name.toList) (hask : Askable path names)
    (h : (names.map String.toList).foldlM fs.follow place = .ok place') :
    fs.locate (trail path names) = .ok place' := by
  induction names generalizing path place with
  | nil =>
      cases h
      exact hpath
  | cons name names ih =>
      rw [List.map_cons, List.foldlM_cons] at h
      obtain ⟨between, hbetween, h⟩ := Activity.bind_eq_ok.mp h
      have hentry := locate_entryPath hpath (hnames name List.mem_cons_self) hask.head
      rw [hbetween] at hentry
      exact ih hentry (fun name hname => hnames name (List.mem_cons_of_mem _ hname)) hask.tail h

/-! ## How long they are -/

/-- What is shorter than a path that the system can be asked about is one, too. -/
theorem checkPath_of_sublist {longer : String} (h : path.toList.Sublist longer.toList)
    (hne : path.toList ≠ []) (hlonger : checkPath longer = .ok ()) : checkPath path = .ok () := by
  have hsize : path.utf8ByteSize ≤ longer.utf8ByteSize := by
    rw [← String.ofList_toList (s := path), ← String.ofList_toList (s := longer),
      String.utf8ByteSize_ofList, String.utf8ByteSize_ofList]
    exact String.utf8Len_le_of_sublist h
  have hempty : path.isEmpty = false := by
    rw [Bool.eq_false_iff]
    intro hempty
    exact hne (by rw [String.isEmpty_iff.mp hempty]; rfl)
  rw [checkPath] at hlonger ⊢
  split at hlonger
  · cases hlonger
  next hnul =>
    split at hlonger
    · cases hlonger
    · split at hlonger
      · cases hlonger
      next hlong =>
        have hnul' : ¬ path.toList.contains '\x00' = true := by
          rw [List.contains_iff_mem] at hnul ⊢
          exact fun hmem => hnul (h.subset hmem)
        rw [if_neg hnul', hempty, if_neg Bool.false_ne_true, if_neg (by omega)]

/-- The path of an entry adds no more to a path than a slash and a name. -/
theorem entryPath_sublist (path name : String) :
    (entryPath path name).toList.Sublist (path.toList ++ '/' :: name.toList) := by
  have hname : name.toList.Sublist (path.toList ++ '/' :: name.toList) :=
    ((List.sublist_cons_self _ _).trans (List.sublist_append_right _ _))
  rw [entryPath]
  split
  · exact hname
  · rw [Path.join, String.toList_ofList, Path.joinChars]
    split
    · exact hname
    · split
      · exact List.Sublist.append_left (List.sublist_cons_self _ _) _
      · exact List.Sublist.refl _

/-- A path on which entries are found is not longer than the segments that lead there. -/
theorem trail_sublist {start : String} {lead : List Segment}
    (h : ∀ name, (entryPath start name).toList.Sublist (Path.joinSegments (lead ++ [name.toList])))
    (names : List String) (name : String) :
    (entryPath (trail start names) name).toList.Sublist
      (Path.joinSegments (lead ++ names.map String.toList ++ [name.toList])) := by
  induction names using List.reverseRecOn generalizing name with
  | nil =>
      rw [List.map_nil, List.append_nil]
      exact h name
  | append_singleton names last ih =>
      rw [trail_concat, List.map_append, ← List.append_assoc, List.map_singleton,
        Path.joinSegments_concat (by simp)]
      exact (entryPath_sublist _ name).trans ((ih last).append_right _)

/-! ## Names behind a dot

An entry of the working directory is named without the dot in front of it, and an empty segment
there names nothing.  Behind a name it does no harm. -/

/-- Whether every path on the way along some names is a path at all. -/
def Passable (start : String) (names : List String) : Prop :=
  ∀ front name, front ++ [name] <+: names → (entryPath (trail start front) name).toList ≠ []

theorem passable_nil (start : String) : Passable start [] := by
  intro front name h
  have hlength := h.length_le
  simp at hlength

theorem Passable.cons (hne : (entryPath path name).toList ≠ [])
    (h : Passable (entryPath path name) names) : Passable path (name :: names) := by
  intro front last hprefix
  cases front with
  | nil =>
      obtain ⟨rfl, -⟩ := List.cons_prefix_cons.mp hprefix
      exact hne
  | cons first front =>
      obtain ⟨rfl, hrest⟩ := List.cons_prefix_cons.mp hprefix
      exact h front last hrest

theorem not_atHere_entryPath (hpath : path.toList ≠ []) (haway : ¬ AtHere path.toList)
    (hname : '/' ∉ name.toList) : ¬ AtHere (entryPath path name).toList := by
  have hrelative := Path.isAbsolute_of_not_mem hname
  intro hat
  obtain ⟨rest, hsegments, hidle⟩ := Path.atHere_iff.mp hat
  rw [toList_entryPath haway, Path.segments_joinChars _ hrelative] at hsegments
  obtain ⟨hne, idle, hsplit, hempty⟩ := Path.exists_segments_eq_baseSegments hpath
  obtain ⟨first, more, hmore⟩ := List.exists_cons_of_ne_nil hne
  rw [hmore, List.cons_append, List.cons.injEq] at hsegments
  obtain ⟨rfl, rfl⟩ := hsegments
  refine haway (Path.atHere_iff.mpr ⟨more ++ idle, by rw [hsplit, hmore]; rfl, fun s hs => ?_⟩)
  rcases List.mem_append.mp hs with hs | hs
  · exact hidle s (List.mem_append_left _ hs)
  · exact .inl (hempty s hs)

theorem entryPath_ne_nil (hpath : path.toList ≠ []) (haway : ¬ AtHere path.toList)
    (hname : '/' ∉ name.toList) : (entryPath path name).toList ≠ [] := by
  have hrelative := Path.isAbsolute_of_not_mem hname
  rw [toList_entryPath haway, Path.joinChars, if_neg (by simp [hrelative])]
  split
  · exact fun hnil => hpath (List.append_eq_nil_iff.mp hnil).1
  · exact fun hnil => hpath (List.append_eq_nil_iff.mp hnil).1

theorem passable_away (hpath : path.toList ≠ []) (haway : ¬ AtHere path.toList)
    (hnames : ∀ name ∈ names, '/' ∉ name.toList) : Passable path names := by
  induction names generalizing path with
  | nil => exact passable_nil path
  | cons name names ih =>
      have hname := hnames name List.mem_cons_self
      have hne := entryPath_ne_nil hpath haway hname
      exact .cons hne (ih hne (not_atHere_entryPath hpath haway hname)
        fun name hname => hnames name (List.mem_cons_of_mem _ hname))

/-- Whether a path has no empty segment right behind the dots that it starts with. -/
def Direct (names : List String) : Prop := (names.dropWhile (· = ".")).head? ≠ some ""

theorem passable_here (h : Direct names) (hnames : ∀ name ∈ names, '/' ∉ name.toList) :
    Passable "." names := by
  induction names with
  | nil => exact passable_nil "."
  | cons name names ih =>
      have hrest := fun name hname => hnames name (List.mem_cons_of_mem _ hname)
      by_cases hdot : name = "."
      · subst hdot
        rw [Direct, List.dropWhile_cons_of_pos (by simp)] at h
        exact .cons (by decide) (ih h hrest)
      · rw [Direct, List.dropWhile_cons_of_neg (by simpa using hdot), List.head?_cons] at h
        have hname : name ≠ "" := fun hname => h (congrArg some hname)
        have hne : name.toList ≠ [] := fun hnil => hname (String.toList_eq_nil_iff.mp hnil)
        refine .cons (by rwa [entryPath_dot]) ?_
        rw [entryPath_dot]
        refine passable_away hne (fun hat => hdot ?_) hrest
        obtain ⟨rest, hsegments, -⟩ := Path.atHere_iff.mp hat
        rw [Path.segments_of_not_mem (hnames name List.mem_cons_self), List.cons.injEq] at hsegments
        exact String.toList_inj.mp hsegments.1

end Stencil.FileSystem
