/-
Extensions that lengthen names.

The path of a text is the key of its template and an extension.  Most extensions lead from the
directory of a key to an address next to it, but one can also go down into a name and up again:
with the extension `x/..`, the path of the key `a/b` is `a/bx/..`, whose address is `a`, whereas
its directory is `a/bx`.  A tag that is relative to that directory leads to a key with a longer
name at the same address.  This is the only way in which the directory of a path can have a name
that is neither on the way to its address nor a segment of the key or of the extension.
-/
import Mathlib
import Stencil.Proofs.Path

namespace Stencil.Path

/-- Whether an extension goes on with the name of a key, then to no other place than that, and then
up to the directory of the key. -/
def Lengthens (extension : List Char) : Prop :=
  ∃ first mid, segments extension = first :: (mid ++ [parent]) ∧ first ≠ [] ∧
    mid.foldl (step false) [] = []

variable {absolute : Bool} {loc above : List Segment} {segs : List Segment} {s : Segment}
  {p q : List Char}

/-- What goes on behind a path goes on with its last segment. -/
theorem segments_append {front rest : List Segment} {last first : Segment}
    (hp : segments p = front ++ [last]) (hq : segments q = first :: rest) :
    segments (p ++ q) = front ++ (last ++ first) :: rest := by
  by_cases hslash : '/' ∈ q
  · obtain ⟨more, tail, rfl, hmore⟩ := List.eq_append_cons_of_mem hslash
    rw [segments_append_slash, segments_of_not_mem hmore, List.singleton_append,
      List.cons.injEq] at hq
    obtain ⟨rfl, rfl⟩ := hq
    rw [← List.append_assoc, segments_append_slash, segments_append_of_not_mem hp hmore,
      List.append_assoc, List.singleton_append]
  · rw [segments_of_not_mem hslash, List.cons.injEq] at hq
    obtain ⟨rfl, rfl⟩ := hq
    rw [segments_append_of_not_mem hp hslash]

/-! ## Walks above a location -/

/-- One segment further a walk is where it was, one segment deeper, or has left a name. -/
theorem step_cases (absolute : Bool) (loc : List Segment) (s : Segment) :
    step absolute loc s = loc ∨ step absolute loc s = s :: loc ∨
      (s = parent ∧ ∃ last above, loc = last :: above ∧ last ≠ parent) := by
  rw [step.eq_def]
  split
  · exact .inl rfl
  · split
    next hs =>
      cases loc with
      | nil =>
          cases absolute with
          | true => exact .inl rfl
          | false => exact .inr (.inl (by rw [hs]; rfl))
      | cons last above =>
          dsimp only
          split
          next hlast => exact .inr (.inr ⟨hs, last, above, rfl, hlast⟩)
          next _ =>
            cases absolute with
            | true => exact .inl rfl
            | false => exact .inr (.inl (by rw [hs]; rfl))
    next _ => exact .inr (.inl rfl)

/-- A walk is at segments that it was at before or that it went along. -/
theorem mem_foldl_step (h : s ∈ segs.foldl (step absolute) loc) :
    s ∈ loc ∨ s ∈ segs ∨ s = parent := by
  induction segs generalizing loc with
  | nil => exact .inl h
  | cons t segs ih =>
      rcases ih h with hs | hs | hs
      · have hstep : s ∈ loc ∨ s = t ∨ s = parent := by
          rw [step.eq_def] at hs
          split at hs
          · exact .inl hs
          · split at hs
            · cases loc with
              | nil => split at hs <;> simp_all
              | cons last below =>
                  dsimp only at hs
                  split at hs
                  · exact .inl (List.mem_cons_of_mem _ hs)
                  · split at hs
                    · exact .inl hs
                    · rcases List.mem_cons.mp hs with hs | hs
                      · exact .inr (.inr hs)
                      · exact .inl hs
            · rcases List.mem_cons.mp hs with hs | hs
              · exact .inr (.inl hs)
              · exact .inl hs
        rcases hstep with hs | hs | hs
        · exact .inl hs
        · exact .inr (.inl (hs ▸ List.mem_cons_self))
        · exact .inr (.inr hs)
      · exact .inr (.inl (List.mem_cons_of_mem _ hs))
      · exact .inr (.inr hs)

/-- Above a location a walk does what it does from nowhere, unless it leaves the location. -/
theorem step_append (absolute : Bool) (loc : List Segment) (h : parent ∉ above) (s : Segment) :
    (step absolute (above ++ loc) s = step false above s ++ loc ∧ parent ∉ step false above s) ∨
      above = [] ∧ s = parent := by
  by_cases hidle : s = [] ∨ s = here
  · refine .inl ?_
    rw [step.eq_def, step.eq_def, if_pos hidle, if_pos hidle]
    exact ⟨rfl, h⟩
  by_cases hs : s = parent
  · cases above with
    | nil => exact .inr ⟨rfl, hs⟩
    | cons last above =>
        have hlast : last ≠ parent := fun heq => h (heq ▸ List.mem_cons_self)
        refine .inl ?_
        rw [step.eq_def, step.eq_def, if_neg hidle, if_neg hidle, if_pos hs, if_pos hs]
        dsimp only [List.cons_append]
        rw [if_pos hlast, if_pos hlast]
        exact ⟨rfl, fun hmem => h (List.mem_cons_of_mem _ hmem)⟩
  · refine .inl ?_
    rw [step.eq_def, step.eq_def, if_neg hidle, if_neg hidle, if_neg hs, if_neg hs]
    refine ⟨rfl, fun hmem => ?_⟩
    rcases List.mem_cons.mp hmem with heq | hmem
    · exact hs heq.symm
    · exact h hmem

/-- A walk from nowhere never takes back that it climbed. -/
theorem parent_mem_foldl (h : parent ∈ loc) : parent ∈ segs.foldl (step false) loc := by
  induction segs generalizing loc with
  | nil => exact h
  | cons s segs ih =>
      refine ih ?_
      rw [step.eq_def]
      split
      · exact h
      · split
        · cases loc with
          | nil => cases h
          | cons last below =>
              dsimp only
              split
              next hlast =>
                rcases List.mem_cons.mp h with heq | h
                · exact absurd heq.symm hlast
                · exact h
              next _ => exact List.mem_cons_self
        · exact List.mem_cons_of_mem _ h

/-- A walk from some location, either stays above it and is what it is from nowhere, or leaves it
at some point. -/
theorem foldl_step_append (absolute : Bool) (loc segs : List Segment) (h : parent ∉ above) :
    (segs.foldl (step absolute) (above ++ loc) = segs.foldl (step false) above ++ loc ∧
      parent ∉ segs.foldl (step false) above) ∨
    (parent ∈ segs.foldl (step false) above ∧ ∃ rest, rest <:+ segs ∧
      segs.foldl (step absolute) (above ++ loc) =
        rest.foldl (step absolute) (step absolute loc parent)) := by
  induction segs generalizing above with
  | nil => exact .inl ⟨rfl, h⟩
  | cons s segs ih =>
      rw [List.foldl_cons, List.foldl_cons]
      rcases step_append absolute loc h s with ⟨hstep, hnames⟩ | ⟨rfl, rfl⟩
      · rw [hstep]
        refine (ih hnames).imp_right fun ⟨hparent, rest, hrest, heq⟩ => ?_
        exact ⟨hparent, rest, hrest.trans (List.suffix_cons _ _), heq⟩
      · refine .inr ⟨parent_mem_foldl ?_, segs, List.suffix_cons _ _, rfl⟩
        exact List.mem_cons_self

/-- A walk that ends where it starts does so from everywhere. -/
theorem foldl_step_of_idle (absolute : Bool) (loc : List Segment)
    (h : segs.foldl (step false) [] = []) : segs.foldl (step absolute) loc = loc := by
  rcases foldl_step_append absolute loc segs (List.not_mem_nil (a := parent)) with
    ⟨heq, -⟩ | ⟨hparent, -⟩
  · rw [h] at heq
    exact heq
  · rw [h] at hparent
    cases hparent

/-- A walk that ends at a new name, which it goes along once and not before, ends where it went
along it. -/
theorem idle_of_foldl_step (hs : s ≠ parent) (hloc : s ∉ loc) (hsegs : s ∉ segs) {below}
    (h : segs.foldl (step absolute) (s :: loc) = s :: below) :
    segs.foldl (step false) [] = [] := by
  rcases foldl_step_append absolute (s :: loc) segs (List.not_mem_nil (a := parent)) with
    ⟨heq, -⟩ | ⟨-, rest, hrest, heq⟩
  · rw [List.nil_append, h] at heq
    cases hwalk : segs.foldl (step false) [] with
    | nil => rfl
    | cons t above =>
        rw [hwalk, List.cons_append, List.cons.injEq] at heq
        have hmem : s ∈ segs.foldl (step false) [] := by
          rw [hwalk, heq.1]
          exact List.mem_cons_self
        rcases mem_foldl_step hmem with hmem | hmem | hmem
        · cases hmem
        · exact absurd hmem hsegs
        · exact absurd hmem hs
  · -- The name was left, and it is nowhere else.
    exfalso
    have hstep : step absolute (s :: loc) parent = loc := by
      rw [step.eq_def, if_neg (by decide), if_pos rfl]
      dsimp only
      rw [if_pos hs]
    rw [List.nil_append, h, hstep] at heq
    have hmem : s ∈ rest.foldl (step absolute) loc := heq ▸ List.mem_cons_self
    rcases mem_foldl_step hmem with hmem | hmem | hmem
    · exact hloc hmem
    · exact hsegs (hrest.subset hmem)
    · exact hs hmem

/-- A walk that ends at a name which it goes along in one place only ends where it goes along
it. -/
theorem eq_of_foldl_step {front mid : List Segment} {t : Segment} {below : List Segment}
    (h : (front ++ t :: mid).foldl (step absolute) [] = s :: below) (hs : s ≠ parent)
    (hfront : s ∉ front) (hmid : s ∉ mid) : s = t ∧ mid.foldl (step false) [] = [] := by
  rw [List.foldl_append, List.foldl_cons] at h
  have hbefore : s ∉ front.foldl (step absolute) [] := by
    intro hmem
    rcases mem_foldl_step hmem with hmem | hmem | hmem
    · cases hmem
    · exact hfront hmem
    · exact hs hmem
  have hafter : s ∈ step absolute (front.foldl (step absolute) []) t := by
    have hmem : s ∈ mid.foldl (step absolute) (step absolute (front.foldl (step absolute) []) t) :=
      h ▸ List.mem_cons_self
    exact (mem_foldl_step hmem).resolve_right (not_or.mpr ⟨hmid, hs⟩)
  rcases step_cases absolute (front.foldl (step absolute) []) t with hstep | hstep | ⟨rfl, -⟩
  · rw [hstep] at hafter
    exact absurd hafter hbefore
  · rw [hstep] at hafter h
    obtain rfl : s = t := (List.mem_cons.mp hafter).resolve_right hbefore
    exact ⟨rfl, idle_of_foldl_step hs hbefore hmid h⟩
  · have hmem : s ∈ [parent].foldl (step absolute) (front.foldl (step absolute) []) := hafter
    rcases mem_foldl_step hmem with hmem | hmem | hmem
    · exact absurd hmem hbefore
    · exact absurd (List.mem_singleton.mp hmem) hs
    · exact absurd hmem hs

/-! ## The directory of a fetch path -/

/-- Where an extension does not lengthen names, the directory of a fetch path is the place where
the path ends, or one segment above, or one segment of the key or of the extension below. -/
theorem directory_cases {extension : List Char} (hext : ¬ Lengthens extension) (absolute : Bool)
    (key : List Char) :
    let p := key ++ extension
    directory absolute p = location absolute p ∨
      directory absolute p = (location absolute p).tail ∨
      ∃ s, (s ∈ segments key ∨ s ∈ segments extension) ∧
        directory absolute p = s :: location absolute p := by
  intro p
  rw [location_eq_step absolute p]
  rcases step_cases absolute (directory absolute p)
    ((segments p).getLast (segments_ne_nil p)) with h | h | ⟨hlast, s, below, hdir, hne⟩
  · exact .inl h.symm
  · exact .inr (.inl (by rw [h, List.tail_cons]))
  · right
    right
    have hstep : step absolute (s :: below) parent = below := by
      rw [step.eq_def, if_neg (by decide), if_pos rfl]
      dsimp only
      rw [if_pos hne]
    rw [hlast, hdir, hstep]
    refine ⟨s, ?_, rfl⟩
    by_contra hnew
    obtain ⟨hkey, hextension⟩ := not_or.mp hnew
    obtain ⟨front, last, hfront⟩ : ∃ front last, segments key = front ++ [last] :=
      ⟨_, _, (List.dropLast_append_getLast (segments_ne_nil key)).symm⟩
    obtain ⟨first, rest, hrest⟩ := List.exists_cons_of_ne_nil (segments_ne_nil extension)
    have hp : segments p = front ++ (last ++ first) :: rest := segments_append hfront hrest
    rw [hfront] at hkey
    rw [hrest] at hextension
    rcases List.eq_nil_or_concat' rest with rfl | ⟨mid, final, rfl⟩
    · -- The extension has no slash, so the path goes to the directory of the key.
      have hmem : s ∈ front.foldl (step absolute) [] := by
        rw [directory, hp, List.dropLast_concat] at hdir
        exact hdir ▸ List.mem_cons_self
      rcases mem_foldl_step hmem with hmem | hmem | hmem
      · cases hmem
      · exact hkey (List.mem_append_left _ hmem)
      · exact hne hmem
    · have hsplit : segments p = (front ++ (last ++ first) :: mid) ++ [final] := by
        rw [hp, List.append_assoc, List.cons_append]
      have hfinal : final = parent := by
        rw [← hlast]
        simp [hsplit]
      rw [directory, hsplit, List.dropLast_concat] at hdir
      obtain ⟨rfl, hidle⟩ := eq_of_foldl_step hdir hne
        (fun hmem => hkey (List.mem_append_left _ hmem))
        fun hmem => hextension (List.mem_cons_of_mem _ (List.mem_append_left _ hmem))
      refine hext ⟨first, mid, hfinal ▸ hrest, ?_, hidle⟩
      rintro rfl
      rw [List.append_nil] at hkey
      exact hkey (List.mem_append_right _ List.mem_cons_self)

end Stencil.Path
