/-
Paths without a dot in front.

What is found from the working directory is found without a dot in front, even if the pattern starts
with one, unless wildcards behind a dot take the dot itself.  Compared with the path of a directory
that starts with a dot, it is not in that directory.
-/
import Mathlib
import Stencil.Proofs.Files.Relative

namespace Stencil.FileSystem

open Stencil.Path (Segment segments moving AtHere)

variable {fs : FileSystem} {path directory name out : String} {segs : List Pattern} {fuel : Nat}

/-- Whether a path is not empty and has no dot in front. -/
def Bare (path : String) : Prop :=
  path.toList ≠ [] ∧ (segments path.toList).head? ≠ some Path.here

theorem Bare.not_atHere (h : Bare path) : ¬ AtHere path.toList := by
  intro hat
  obtain ⟨rest, hrest, -⟩ := Path.atHere_iff.mp hat
  exact h.2 (by rw [hrest]; rfl)

theorem Bare.entryPath (h : Bare path) (hname : '/' ∉ name.toList) :
    Bare (entryPath path name) := by
  refine ⟨entryPath_ne_nil h.1 h.not_atHere hname, ?_⟩
  obtain ⟨hne, idle, hsplit, -⟩ := Path.exists_segments_eq_baseSegments h.1
  have hhead := h.2
  rw [hsplit, List.head?_append_of_ne_nil _ hne] at hhead
  rwa [segments_entryPath h.not_atHere hname, List.head?_append_of_ne_nil _ hne]

theorem bare_of_name (hname : '/' ∉ name.toList) (hne : name ≠ "") (hhere : name ≠ ".") :
    Bare name := by
  refine ⟨fun hnil => hne (String.toList_eq_nil_iff.mp hnil), ?_⟩
  rw [Path.segments_of_not_mem hname]
  exact fun heq => hhere (String.toList_inj.mp (Option.some.inj heq))

theorem bare_of_isName (h : Path.IsName name.toList) : Bare name := by
  refine bare_of_name h.1 ?_ ?_
  · rintro rfl
    exact h.2.1 rfl
  · rintro rfl
    exact h.2.2.1 rfl

/-- What a plain segment leads to from the working directory is named without a dot, unless it is
the working directory. -/
theorem bare_of_plain {plain : List Char} (hslash : '/' ∉ plain) (hhere : plain ≠ Path.here)
    (hfound :
      (if plain ∈ dots then fs.isDirectory "." else fs.holds (String.ofList plain)) = true) :
    Bare (String.ofList plain) := by
  refine bare_of_name (by rwa [String.toList_ofList]) ?_ ?_
  · intro hempty
    rw [String.ofList_eq_empty_iff.mp hempty, if_neg (by decide), holds_iff] at hfound
    obtain ⟨place, hplace⟩ := hfound
    obtain ⟨⟨⟩, hcheck, -⟩ := Activity.bind_eq_ok.mp hplace
    exact ne_nil_of_checkPath hcheck rfl
  · intro hdot
    have hplain : plain = ".".toList := by rw [← hdot, String.toList_ofList]
    exact hhere hplain

theorem isName_of_mem_namesIn (hregular : fs.Regular) (h : name ∈ fs.namesIn path) :
    Path.IsName name.toList := by
  rw [namesIn] at h
  split at h
  next t ht =>
    obtain ⟨place, -, hplace⟩ := exists_of_find ht
    cases t with
    | file content => cases h
    | directory entries =>
        obtain ⟨below, hbelow⟩ :=
          Dict.hasKey_iff_exists.mp (Dict.hasKey_iff_mem_keys.mpr h)
        exact (FileTree.regular_of_get? (FileTree.isRegular_of_at? hregular.root hplace) hbelow).1.1
  next => cases h

/-! ## Searches -/

/-- Whether a search with some number of steps finds nothing with a dot in front from where there is
none. -/
structure StaysBare (fs : FileSystem) (fuel : Nat) : Prop where
  into : ∀ segs path, (∀ segment ∈ segs, segment.Proper) → Bare path →
    ∀ out ∈ fs.globIn fuel segs path, Bare out
  through : ∀ segs path, (∀ segment ∈ segs, segment.Proper) → Bare path →
    ∀ out ∈ fs.globThrough fuel segs path, Bare out
  entry : ∀ segs path, (∀ segment ∈ segs, segment.Proper) → Bare path →
    ∀ out ∈ fs.globAt fuel segs path, Bare out

theorem StaysBare.into_succ (h : fs.StaysBare fuel) (hregular : fs.Regular)
    (hproper : ∀ segment ∈ segs, segment.Proper) (hbare : Bare path)
    (hout : out ∈ fs.globIn (fuel + 1) segs path) : Bare out := by
  cases segs with
  | nil => simp [globIn] at hout
  | cons segment rest =>
      have hrest := fun s hs => hproper s (List.mem_cons_of_mem segment hs)
      cases hliteral : segment.literal? with
      | some text =>
          have hslash := (hproper segment List.mem_cons_self).slash_notMem hliteral
          refine h.through rest _ hrest (hbare.entryPath ?_) out
            ((mem_globIn_literal hliteral).mp hout).2
          rwa [String.toList_ofList]
      | none =>
          obtain ⟨-, ⟨-, name, hdots, -, hout⟩ | ⟨name, hname, hout⟩⟩ :=
            (mem_globIn_wild hliteral).mp hout
          · have hjoin : Path.join path name = entryPath path name :=
              (if_neg hbare.not_atHere).symm
            rw [hjoin] at hout
            exact h.through rest _ hrest (hbare.entryPath (slash_notMem_of_dots hdots)) out hout
          · exact h.entry _ _ hproper
              (hbare.entryPath (isName_of_mem_namesIn hregular hname).1) out hout

theorem StaysBare.through_succ (h : fs.StaysBare fuel)
    (hproper : ∀ segment ∈ segs, segment.Proper) (hbare : Bare path)
    (hout : out ∈ fs.globThrough (fuel + 1) segs path) : Bare out := by
  cases segs with
  | nil => rwa [List.mem_singleton.mp hout]
  | cons segment rest => exact h.into _ _ hproper hbare out hout

theorem StaysBare.entry_succ (h : fs.StaysBare fuel)
    (hproper : ∀ segment ∈ segs, segment.Proper) (hbare : Bare path)
    (hout : out ∈ fs.globAt (fuel + 1) segs path) : Bare out := by
  cases segs with
  | nil => simp [globAt] at hout
  | cons segment rest =>
      have hrest := fun s hs => hproper s (List.mem_cons_of_mem segment hs)
      have hdrop : ∀ s ∈ rest.dropWhile Pattern.isDirectories, s.Proper := fun s hs =>
        hrest s ((List.dropWhile_suffix _).subset hs)
      have hbelow := h.into _ _
        (List.forall_mem_cons.mpr ⟨hproper segment List.mem_cons_self, hdrop⟩) hbare out
      rw [globAt] at hout
      dsimp only at hout
      split at hout
      · split at hout
        · split at hout
          · rcases List.mem_cons.mp hout with rfl | hout
            · exact hbare
            · exact hbelow hout
          · cases hout
        · rcases List.mem_append.mp hout with hout | hout
          · exact h.entry _ _ hdrop hbare out hout
          · split at hout
            · exact hbelow hout
            · cases hout
      · split at hout
        · cases hout
        · split at hout
          · exact h.through rest path hrest hbare out hout
          · cases hout

theorem staysBare (hregular : fs.Regular) (fuel : Nat) : fs.StaysBare fuel := by
  induction fuel with
  | zero => constructor <;> simp [globIn, globThrough, globAt]
  | succ fuel ih =>
      exact ⟨fun _ _ hproper hbare _ => ih.into_succ hregular hproper hbare,
        fun _ _ hproper hbare _ => ih.through_succ hproper hbare,
        fun _ _ hproper hbare _ => ih.entry_succ hproper hbare⟩

/-- From the working directory nothing is found with a dot in front, unless the pattern has no
wildcards, or one behind a dot. -/
theorem bare_of_globIn (hregular : fs.Regular) (hproper : ∀ segment ∈ segs, segment.Proper)
    (hhidden : ∀ segment ∈ segs, segment.literal? = none → segment.head? ≠ some (.char '.'))
    (hwild : ∃ segment ∈ segs, segment.literal? = none) (h : out ∈ fs.globIn fuel segs ".") :
    Bare out := by
  induction segs generalizing fuel with
  | nil => simp at hwild
  | cons segment rest ih =>
      obtain ⟨fuel, rfl⟩ : ∃ f, fuel = f + 1 := by
        cases fuel with
        | zero => simp [globIn] at h
        | succ fuel => exact ⟨fuel, rfl⟩
      rw [List.forall_mem_cons] at hhidden
      have hrest := fun s hs => hproper s (List.mem_cons_of_mem segment hs)
      cases hliteral : segment.literal? with
      | none =>
          obtain ⟨-, ⟨hhead, -⟩ | ⟨name, hname, h⟩⟩ := (mem_globIn_wild hliteral).mp h
          · exact absurd hhead (hhidden.1 hliteral)
          · rw [entryPath_dot] at h
            exact (staysBare hregular fuel).entry _ _ hproper
              (bare_of_isName (isName_of_mem_namesIn hregular hname)) out h
      | some plain =>
          obtain ⟨hfound, h⟩ := (mem_globIn_literal hliteral).mp h
          rw [entryPath_dot] at hfound h
          by_cases hhere : plain = Path.here
          · -- The search stays in the working directory, and the wildcards are still to come.
            subst hhere
            obtain ⟨other, hmem, hother⟩ := hwild
            have hmem : other ∈ rest := by
              rcases List.mem_cons.mp hmem with rfl | hmem
              · simp [hliteral] at hother
              · exact hmem
            obtain ⟨first, more, rfl⟩ := List.exists_cons_of_ne_nil (List.ne_nil_of_mem hmem)
            cases fuel with
            | zero => simp [globThrough] at h
            | succ fuel => exact ih hrest hhidden.2 ⟨other, hmem, hother⟩ h
          · have hslash := (hproper segment List.mem_cons_self).slash_notMem hliteral
            exact (staysBare hregular fuel).through rest _ hrest
              (bare_of_plain hslash hhere hfound) out h

/-! ## Directories with a dot in front -/

/-- What has no dot in front is in no directory whose path has one. -/
theorem relativeTo?_of_bare (h : (segments directory.toList).head? = some Path.here)
    (hbare : Bare path) : Path.relativeTo? directory path = none := by
  obtain ⟨rest, hrest⟩ := List.head?_eq_some_iff.mp h
  have hbase : Path.significant directory.toList = Path.here :: moving rest := by
    rw [Path.significant_eq, hrest, Path.trim_of_ne_nil (by decide)]
  rw [Path.relativeTo?]
  dsimp only
  rw [hbase]
  split
  · simp
  · rw [if_neg (by simp)]
    obtain ⟨head, others, hsegments⟩ :=
      List.exists_cons_of_ne_nil (Path.segments_ne_nil path.toList)
    have hhead : head ≠ Path.here := by
      have hbare := hbare.2
      rw [hsegments] at hbare
      simpa using hbare
    rw [hsegments]
    simp [hhead]

end Stencil.FileSystem
