/-
Normal forms of paths.

A walk along the segments of a path keeps where it is as a stack of segments.  Every stack that a
walk can reach is well formed: its segments are names, and `..` only stands at the bottom of one
that started nowhere.  Walking along a well-formed stack again leads to the same stack, so the
normal form of a path is its own normal form.
-/
import Mathlib
import Stencil.Path

namespace Stencil.Path

/-! ## Segments -/

theorem segments_ne_nil (p : List Char) : segments p ≠ [] := by
  cases p with
  | nil => simp [segments]
  | cons c cs =>
      rw [segments]
      split
      · simp
      · split <;> simp

theorem segments_of_not_mem {p : List Char} (h : '/' ∉ p) : segments p = [p] := by
  induction p with
  | nil => rfl
  | cons c cs ih =>
      obtain ⟨hc, hcs⟩ : ¬ '/' = c ∧ '/' ∉ cs := by simpa using h
      rw [segments, if_neg (Ne.symm hc), ih hcs]

theorem segments_append_slash (p q : List Char) :
    segments (p ++ '/' :: q) = segments p ++ segments q := by
  induction p with
  | nil => rfl
  | cons c cs ih =>
      rw [List.cons_append, segments, segments, ih]
      split
      · rfl
      · cases h : segments cs with
        | nil => exact absurd h (segments_ne_nil cs)
        | cons first rest => rfl

theorem not_mem_of_mem_segments {p : List Char} {s : Segment} (h : s ∈ segments p) :
    '/' ∉ s := by
  induction p generalizing s with
  | nil =>
      rw [List.mem_singleton.mp h]
      simp
  | cons c cs ih =>
      rw [segments] at h
      split at h
      · rcases List.mem_cons.mp h with rfl | h
        · simp
        · exact ih h
      next hc =>
        cases hcs : segments cs with
        | nil => exact absurd hcs (segments_ne_nil cs)
        | cons first rest =>
            rw [hcs] at h ih
            rcases List.mem_cons.mp h with rfl | h
            · intro hmem
              rcases List.mem_cons.mp hmem with hslash | hmem
              · exact hc hslash.symm
              · exact ih List.mem_cons_self hmem
            · exact ih (List.mem_cons_of_mem _ h)

theorem joinSegments_cons {rest : List Segment} (s : Segment) (h : rest ≠ []) :
    joinSegments (s :: rest) = s ++ '/' :: joinSegments rest := by
  cases rest with
  | nil => exact absurd rfl h
  | cons t rest => rfl

theorem segments_joinSegments {segs : List Segment} (hne : segs ≠ [])
    (h : ∀ s ∈ segs, '/' ∉ s) : segments (joinSegments segs) = segs := by
  induction segs with
  | nil => exact absurd rfl hne
  | cons s rest ih =>
      by_cases hrest : rest = []
      · subst hrest
        exact segments_of_not_mem (h s List.mem_cons_self)
      · rw [joinSegments_cons s hrest, segments_append_slash,
          segments_of_not_mem (h s List.mem_cons_self),
          ih hrest fun t ht => h t (List.mem_cons_of_mem _ ht)]
        rfl

theorem joinSegments_segments (p : List Char) : joinSegments (segments p) = p := by
  induction p with
  | nil => rfl
  | cons c cs ih =>
      rw [segments]
      split
      next hc => rw [joinSegments_cons [] (segments_ne_nil cs), ih, hc, List.nil_append]
      next hc =>
        cases hcs : segments cs with
        | nil => exact absurd hcs (segments_ne_nil cs)
        | cons first rest =>
            rw [hcs] at ih
            dsimp only
            rw [← ih]
            cases rest <;> rfl

/-- What goes on without a slash goes on with the last segment. -/
theorem segments_append_of_not_mem {p more : List Char} {front : List Segment} {last : Segment}
    (h : segments p = front ++ [last]) (hmore : '/' ∉ more) :
    segments (p ++ more) = front ++ [last ++ more] := by
  have hall : ∀ s ∈ front ++ [last ++ more], '/' ∉ s := by
    intro s hs
    rcases List.mem_append.mp hs with hs | hs
    · exact not_mem_of_mem_segments (h ▸ List.mem_append_left _ hs)
    · rw [List.mem_singleton.mp hs]
      have hlast : '/' ∉ last := not_mem_of_mem_segments (p := p) (by rw [h]; simp)
      exact fun hmem => (List.mem_append.mp hmem).elim hlast hmore
  have hjoin : joinSegments (front ++ [last ++ more]) = p ++ more := by
    have hp : joinSegments (front ++ [last]) = p := by rw [← h, joinSegments_segments]
    rw [← hp]
    clear hall hp h
    induction front with
    | nil => rfl
    | cons s front ih =>
        rw [List.cons_append, List.cons_append, joinSegments_cons s (by simp),
          joinSegments_cons s (by simp), ih, List.append_assoc, List.cons_append]
  rw [← hjoin, segments_joinSegments (by simp) hall]

theorem joinSegments_concat {all : List Segment} (h : all ≠ []) (s : Segment) :
    joinSegments (all ++ [s]) = joinSegments all ++ '/' :: s := by
  induction all with
  | nil => exact absurd rfl h
  | cons first all ih =>
      cases all with
      | nil => rfl
      | cons second all =>
          rw [List.cons_append, joinSegments_cons _ (by simp), ih (List.cons_ne_nil _ _),
            joinSegments_cons _ (List.cons_ne_nil _ _), List.append_assoc]
          rfl

theorem joinSegments_sublist_append (all more : List Segment) :
    (joinSegments all).Sublist (joinSegments (all ++ more)) := by
  induction more using List.reverseRecOn with
  | nil => rw [List.append_nil]
  | append_singleton more s ih =>
      rw [← List.append_assoc]
      by_cases hnil : all ++ more = []
      · rw [(List.append_eq_nil_iff.mp hnil).1]
        exact List.nil_sublist _
      · rw [joinSegments_concat hnil]
        exact ih.trans (List.sublist_append_left _ _)

theorem mem_of_mem_segments {p : List Char} {s : Segment} {c : Char} (hs : s ∈ segments p)
    (hc : c ∈ s) : c ∈ p := by
  induction p generalizing s with
  | nil =>
      rw [List.mem_singleton.mp hs] at hc
      cases hc
  | cons d p ih =>
      rw [segments] at hs
      split at hs
      · rcases List.mem_cons.mp hs with rfl | hs
        · cases hc
        · exact List.mem_cons_of_mem _ (ih hs hc)
      · obtain ⟨first, rest, hrest⟩ := List.exists_cons_of_ne_nil (segments_ne_nil p)
        rw [hrest] at hs ih
        rcases List.mem_cons.mp hs with rfl | hs
        · rcases List.mem_cons.mp hc with rfl | hc
          · exact List.mem_cons_self
          · exact List.mem_cons_of_mem _ (ih List.mem_cons_self hc)
        · exact List.mem_cons_of_mem _ (ih (List.mem_cons_of_mem _ hs) hc)

theorem isAbsolute_of_not_mem {p : List Char} (h : '/' ∉ p) : isAbsolute p = false := by
  cases p with
  | nil => rfl
  | cons c p =>
      have hc : ¬ c = '/' := fun hc => h (by simp [hc])
      show (some c == some '/') = false
      simp [hc]

theorem exists_of_isAbsolute {p : List Char} (h : isAbsolute p) : ∃ rest, p = '/' :: rest := by
  cases p with
  | nil => cases h
  | cons c rest =>
      obtain rfl : c = '/' := by simpa [isAbsolute] using h
      exact ⟨rest, rfl⟩

theorem isAbsolute_of_head {p : List Char} {first : Segment} {rest : List Segment}
    (h : segments p = first :: rest) (hne : first ≠ []) : isAbsolute p = false := by
  cases p with
  | nil => rfl
  | cons c p =>
      have hc : ¬ c = '/' := by
        rintro rfl
        rw [segments, if_pos rfl, List.cons.injEq] at h
        exact hne h.1.symm
      show (some c == some '/') = false
      simp [hc]

theorem map_toList_map_ofList (all : List Segment) :
    (all.map String.ofList).map String.toList = all := by
  rw [List.map_map]
  exact List.map_id'' (fun s => String.toList_ofList) all

theorem map_ofList_map_toList (names : List String) :
    (names.map String.toList).map String.ofList = names := by
  rw [List.map_map]
  exact List.map_id'' (fun name => String.ofList_toList) names

/-! ## Where a walk can be -/

/-- A stack of segments that a walk can reach: names, with `..` only at the bottom, and not at all
below the root. -/
def Standing (absolute : Bool) : List Segment → Prop
  | [] => True
  | s :: below => s ≠ [] ∧ s ≠ here ∧ '/' ∉ s ∧
      (s = parent → absolute = false ∧ ∀ t ∈ below, t = parent) ∧ Standing absolute below

/-- Where the walk along a path ends. -/
def location (absolute : Bool) (p : List Char) : List Segment :=
  (segments p).foldl (step absolute) []

variable {absolute : Bool} {loc : List Segment}

theorem standing_nil : Standing absolute [] := by
  rw [Standing]
  trivial

theorem Standing.below {s : Segment} (h : Standing absolute (s :: loc)) : Standing absolute loc :=
  h.2.2.2.2

theorem Standing.mem {s : Segment} (h : Standing absolute loc) (hs : s ∈ loc) :
    s ≠ [] ∧ s ≠ here ∧ '/' ∉ s := by
  induction loc with
  | nil => cases hs
  | cons t below ih =>
      rcases List.mem_cons.mp hs with rfl | hs
      · exact ⟨h.1, h.2.1, h.2.2.1⟩
      · exact ih h.below hs

theorem standing_step (h : Standing absolute loc) {s : Segment} (hs : '/' ∉ s) :
    Standing absolute (step absolute loc s) := by
  rw [step.eq_def]
  split
  · exact h
  next hplain =>
    obtain ⟨hempty, hhere⟩ := not_or.mp hplain
    split
    next hparent =>
      cases loc with
      | nil =>
          cases absolute with
          | true => exact h
          | false => exact ⟨hparent ▸ hempty, hparent ▸ hhere, hparent ▸ hs, by simp, standing_nil⟩
      | cons last above =>
          dsimp only
          split
          · exact h.below
          next hlast =>
            cases absolute with
            | true => exact h
            | false =>
                have hlast : last = parent := not_not.mp hlast
                refine ⟨hparent ▸ hempty, hparent ▸ hhere, hparent ▸ hs, fun _ => ⟨rfl, ?_⟩, h⟩
                intro t ht
                rcases List.mem_cons.mp ht with rfl | ht
                · exact hlast
                · exact (h.2.2.2.1 hlast).2 t ht
    next hparent => exact ⟨hempty, hhere, hs, fun heq => absurd heq hparent, h⟩

theorem standing_foldl (h : Standing absolute loc) {segs : List Segment}
    (hsegs : ∀ s ∈ segs, '/' ∉ s) : Standing absolute (segs.foldl (step absolute) loc) := by
  induction segs generalizing loc with
  | nil => exact h
  | cons s segs ih =>
      exact ih (standing_step h (hsegs s List.mem_cons_self))
        fun t ht => hsegs t (List.mem_cons_of_mem _ ht)

theorem standing_location (absolute : Bool) (p : List Char) :
    Standing absolute (location absolute p) :=
  standing_foldl standing_nil fun _ => not_mem_of_mem_segments

/-- The segments of a stack lead to it. -/
theorem foldl_reverse (h : Standing absolute loc) :
    loc.reverse.foldl (step absolute) [] = loc := by
  induction loc with
  | nil => rfl
  | cons s below ih =>
      obtain ⟨hempty, hhere, -, hparent, hbelow⟩ := h
      rw [List.reverse_cons, List.foldl_append, ih hbelow]
      show step absolute below s = s :: below
      rw [step.eq_def, if_neg (not_or.mpr ⟨hempty, hhere⟩)]
      by_cases hs : s = parent
      · obtain ⟨rfl, hups⟩ := hparent hs
        rw [if_pos hs]
        cases below with
        | nil =>
            rw [hs]
            rfl
        | cons last above =>
            dsimp only
            rw [if_neg (not_not.mpr (hups last List.mem_cons_self)), hs]
            rfl
      · rw [if_neg hs]

/-- The segments of a path in normal form: an empty one in front if it is absolute, those of the
stack, and an empty one if there are none. -/
theorem segments_ofSegments (h : Standing absolute loc) :
    segments (ofSegments absolute loc.reverse) =
      (if absolute then [[]] else []) ++ (if loc = [] then [[]] else loc.reverse) := by
  have hjoin : segments (joinSegments loc.reverse) = if loc = [] then [[]] else loc.reverse := by
    by_cases hloc : loc = []
    · subst hloc
      rfl
    · rw [if_neg hloc]
      exact segments_joinSegments (by simpa using hloc)
        fun s hs => (h.mem (List.mem_reverse.mp hs)).2.2
  cases absolute with
  | false => exact hjoin
  | true =>
      show segments ('/' :: joinSegments loc.reverse) = [] :: _
      rw [segments, if_pos rfl, hjoin]
      rfl

theorem foldl_segments (h : Standing absolute loc) :
    (if loc = [] then [[]] else loc.reverse).foldl (step absolute) [] = loc := by
  by_cases hloc : loc = []
  · subst hloc
    rfl
  · rw [if_neg hloc, foldl_reverse h]

theorem location_ofSegments (h : Standing absolute loc) :
    location absolute (ofSegments absolute loc.reverse) = loc := by
  rw [location, segments_ofSegments h]
  cases absolute with
  | false => exact foldl_segments h
  | true => exact foldl_segments h

theorem location_joinSegments (h : Standing absolute loc) :
    location absolute (joinSegments loc.reverse) = loc := by
  have hfalse : segments (joinSegments loc.reverse) = if loc = [] then [[]] else loc.reverse := by
    by_cases hloc : loc = []
    · subst hloc
      rfl
    · rw [if_neg hloc]
      exact segments_joinSegments (by simpa using hloc)
        fun s hs => (h.mem (List.mem_reverse.mp hs)).2.2
  rw [location, hfalse, foldl_segments h]

/-- The segments of a stack start with a character that is no slash. -/
theorem head?_joinSegments (h : Standing absolute loc) :
    (joinSegments loc.reverse).head? ≠ some '/' := by
  have hmem : ∀ s ∈ loc.reverse, s ≠ [] ∧ '/' ∉ s := fun s hs =>
    ⟨(h.mem (List.mem_reverse.mp hs)).1, (h.mem (List.mem_reverse.mp hs)).2.2⟩
  cases hrev : loc.reverse with
  | nil => simp [joinSegments]
  | cons s rest =>
      obtain ⟨hempty, hslash⟩ := hmem s (by rw [hrev]; exact List.mem_cons_self)
      cases s with
      | nil => exact absurd rfl hempty
      | cons c cs =>
          have hc : c ≠ '/' := fun hc => hslash (by simp [hc])
          cases rest with
          | nil => simpa [joinSegments] using hc
          | cons t rest => simpa [joinSegments] using hc

theorem isAbsolute_ofSegments (h : Standing absolute loc) :
    isAbsolute (ofSegments absolute loc.reverse) = absolute := by
  cases absolute with
  | true => rfl
  | false =>
      show ((joinSegments loc.reverse).head? == some '/') = false
      rw [beq_eq_false_iff_ne]
      exact head?_joinSegments h

/-! ## Normal forms -/

theorem normalizeChars_eq (p : List Char) :
    normalizeChars p = ofSegments (isAbsolute p) (location (isAbsolute p) p).reverse := rfl

/-- A path in normal form spells a stack. -/
theorem normalizeChars_ofSegments (h : Standing absolute loc) :
    normalizeChars (ofSegments absolute loc.reverse) = ofSegments absolute loc.reverse := by
  rw [normalizeChars_eq, isAbsolute_ofSegments h, location_ofSegments h]

theorem normalizeChars_normalizeChars (p : List Char) :
    normalizeChars (normalizeChars p) = normalizeChars p := by
  rw [normalizeChars_eq p]
  exact normalizeChars_ofSegments (standing_location _ _)

theorem normalize_normalize (path : String) : normalize (normalize path) = normalize path := by
  rw [normalize, normalize, String.toList_ofList, normalizeChars_normalizeChars]

theorem relativeChars_joinSegments (h : Standing absolute loc) :
    relativeChars (joinSegments loc.reverse) = joinSegments loc.reverse := by
  have hhead := head?_joinSegments h
  rw [relativeChars]
  cases hcs : joinSegments loc.reverse with
  | nil => rfl
  | cons c cs =>
      rw [hcs] at hhead
      have hc : ¬ c = '/' := fun hc => hhead (by simp [hc])
      rw [List.dropWhile_cons, if_neg (by simpa using hc)]

/-- Without the slash at its start, a path in normal form is just the segments of its stack. -/
theorem relativeChars_ofSegments (h : Standing absolute loc) :
    relativeChars (ofSegments absolute loc.reverse) = joinSegments loc.reverse := by
  cases absolute with
  | false => exact relativeChars_joinSegments h
  | true =>
      show relativeChars ('/' :: joinSegments loc.reverse) = _
      rw [relativeChars, List.dropWhile_cons, if_pos (by simp)]
      exact relativeChars_joinSegments h

theorem relativeChars_normalizeChars (p : List Char) :
    relativeChars (normalizeChars p) =
      joinSegments (location (isAbsolute p) p).reverse := by
  rw [normalizeChars_eq, relativeChars_ofSegments (standing_location _ _)]

/-! ## The directory of a path -/

/-- Where the walk along a path is before the last segment. -/
def directory (absolute : Bool) (p : List Char) : List Segment :=
  (segments p).dropLast.foldl (step absolute) []

theorem exists_last_slash {p : List Char} (h : '/' ∈ p) :
    ∃ d last, p = d ++ '/' :: last ∧ '/' ∉ last := by
  obtain ⟨back, front, hp, hback⟩ := List.eq_append_cons_of_mem (List.mem_reverse.mpr h)
  refine ⟨front.reverse, back.reverse, ?_, by simpa using hback⟩
  have := congrArg List.reverse hp
  simpa using this

/-- A path that does not end with a slash ends with a name. -/
theorem exists_last_segment {p : List Char} (hend : p.getLast? ≠ some '/') (hne : p ≠ []) :
    ∃ front last, segments p = front ++ [last] ∧ last ≠ [] := by
  by_cases hslash : '/' ∈ p
  · obtain ⟨d, last, rfl, hlast⟩ := exists_last_slash hslash
    refine ⟨segments d, last, by rw [segments_append_slash, segments_of_not_mem hlast], ?_⟩
    rintro rfl
    simp at hend
  · exact ⟨[], p, segments_of_not_mem hslash, hne⟩

theorem baseChars_of_not_mem {p : List Char} (h : '/' ∉ p) : baseChars p = [] := by
  have hall : p.reverse.dropWhile (· ≠ '/') = [] := by
    rw [List.dropWhile_eq_nil_iff]
    intro c hc
    have hne : c ≠ '/' := fun hc' => h (hc' ▸ List.mem_reverse.mp hc)
    simpa using hne
  rw [baseChars, hall]
  rfl

theorem baseChars_append_slash {last : List Char} (d : List Char) (h : '/' ∉ last) :
    baseChars (d ++ '/' :: last) = d ++ ['/'] := by
  have hall : ∀ c ∈ last.reverse, (decide (c ≠ '/')) = true := by
    intro c hc
    have hne : c ≠ '/' := fun hc' => h (hc' ▸ List.mem_reverse.mp hc)
    simpa using hne
  rw [baseChars, List.reverse_append, List.reverse_cons, List.append_assoc,
    List.dropWhile_append_of_pos hall]
  simp

/-- A path is its base and its last segment, and what is put in place of that segment is walked
from the directory of the path. -/
theorem segments_baseChars_append (p q : List Char) :
    segments (baseChars p ++ q) = (segments p).dropLast ++ segments q := by
  by_cases hp : '/' ∈ p
  · obtain ⟨d, last, rfl, hlast⟩ := exists_last_slash hp
    rw [baseChars_append_slash d hlast, List.append_assoc, List.singleton_append,
      segments_append_slash, segments_append_slash, segments_of_not_mem hlast,
      List.dropLast_concat]
  · rw [baseChars_of_not_mem hp, segments_of_not_mem hp]
    rfl

theorem location_baseChars_append (absolute : Bool) (p q : List Char) :
    location absolute (baseChars p ++ q) =
      (segments q).foldl (step absolute) (directory absolute p) := by
  rw [location, segments_baseChars_append, List.foldl_append]
  rfl

theorem location_eq_step (absolute : Bool) (p : List Char) :
    location absolute p =
      step absolute (directory absolute p) ((segments p).getLast (segments_ne_nil p)) := by
  rw [location, directory]
  conv_lhs => rw [← List.dropLast_append_getLast (segments_ne_nil p), List.foldl_append]
  rfl

theorem isAbsolute_baseChars_append {q : List Char} (p : List Char) (hq : isAbsolute q = false) :
    isAbsolute (baseChars p ++ q) = isAbsolute p := by
  by_cases hp : '/' ∈ p
  · obtain ⟨d, last, rfl, hlast⟩ := exists_last_slash hp
    rw [baseChars_append_slash d hlast]
    cases d <;> rfl
  · rw [baseChars_of_not_mem hp, List.nil_append, hq]
    cases p with
    | nil => rfl
    | cons c cs =>
        have hc : ¬ c = '/' := fun hc => hp (by simp [hc])
        show false = (some c == some '/')
        simp [hc]

/-! ## Paths below a directory -/

/-- A relative path of names: it has no segment that stays where it is or goes to the parent. -/
def Plain (p : List Char) : Prop := ∀ s ∈ segments p, s ≠ [] ∧ s ≠ here ∧ s ≠ parent

theorem Plain.isAbsolute_eq {p : List Char} (h : Plain p) : isAbsolute p = false := by
  cases p with
  | nil => rfl
  | cons c cs =>
      by_cases hc : c = '/'
      · subst hc
        exact absurd rfl (h [] (by rw [segments, if_pos rfl]; exact List.mem_cons_self)).1
      · show (some c == some '/') = false
        simp [hc]

/-- The segments that a path below a directory starts with. -/
def baseSegments (directory : List Char) : List Segment :=
  if directory = [] then [] else
    if directory.getLast? = some '/' then (segments directory).dropLast else segments directory

theorem segments_joinChars {p : List Char} (directory : List Char) (h : isAbsolute p = false) :
    segments (joinChars directory p) = baseSegments directory ++ segments p := by
  have hrelative : ¬ isAbsolute p = true := by simp [h]
  rw [joinChars, if_neg hrelative, baseSegments]
  by_cases hempty : directory = []
  · rw [if_pos (.inl hempty), if_pos hempty, hempty]
    rfl
  · rw [if_neg hempty]
    by_cases hslash : directory.getLast? = some '/'
    · obtain ⟨front, rfl⟩ := List.getLast?_eq_some_iff.mp hslash
      have hfront : segments (front ++ ['/']) = segments front ++ [[]] :=
        segments_append_slash front []
      rw [if_pos (.inr hslash), if_pos hslash, hfront, List.dropLast_concat, List.append_assoc,
        List.singleton_append, segments_append_slash]
    · rw [if_neg (not_or.mpr ⟨hempty, hslash⟩), if_neg hslash, segments_append_slash]

theorem isAbsolute_joinChars {p : List Char} (directory : List Char) (h : isAbsolute p = false) :
    isAbsolute (joinChars directory p) = isAbsolute directory := by
  have hrelative : ¬ isAbsolute p = true := by simp [h]
  rw [joinChars, if_neg hrelative]
  cases directory with
  | nil => exact h
  | cons c cs =>
      split <;> rfl

/-- Whether a segment is a name. -/
def IsName (s : Segment) : Prop := '/' ∉ s ∧ s ≠ [] ∧ s ≠ here ∧ s ≠ parent

/-- The segments of a path are those that a path below it starts with, and slashes behind them. -/
theorem exists_segments_eq_baseSegments {p : List Char} (hne : p ≠ []) :
    baseSegments p ≠ [] ∧ ∃ idle, segments p = baseSegments p ++ idle ∧ ∀ s ∈ idle, s = [] := by
  rw [baseSegments, if_neg hne]
  split
  next hslash =>
    obtain ⟨front, rfl⟩ := List.getLast?_eq_some_iff.mp hslash
    have hsplit : segments (front ++ ['/']) = segments front ++ [[]] :=
      segments_append_slash front []
    rw [hsplit, List.dropLast_concat]
    exact ⟨segments_ne_nil front, [[]], rfl, fun s hs => List.mem_singleton.mp hs⟩
  next => exact ⟨segments_ne_nil p, [], (List.append_nil _).symm, fun _ hs => nomatch hs⟩

theorem mem_baseSegments {p : List Char} {s : Segment} (h : s ∈ baseSegments p) :
    s ∈ segments p := by
  rw [baseSegments] at h
  split at h
  · cases h
  · split at h
    · exact List.mem_of_mem_dropLast h
    · exact h

theorem baseSegments_of_isAbsolute {directory : List Char} (h : isAbsolute directory) :
    ∃ rest, baseSegments directory = [] :: rest := by
  obtain ⟨rest, hrest⟩ := exists_of_isAbsolute h
  have hne := segments_ne_nil rest
  rw [baseSegments, hrest, if_neg (List.cons_ne_nil _ _), segments, if_pos rfl]
  split
  · exact ⟨_, List.dropLast_cons_of_ne_nil hne⟩
  · exact ⟨_, rfl⟩

/-- A directory stands in front of what is below it, with a slash if need be. -/
theorem exists_joinChars (d : List Char) {q : List Char} (h : isAbsolute q = false) :
    ∃ front, joinChars d q = front ++ q ∧ (front = [] ∨ front.getLast? = some '/') ∧
      ∀ c ∈ front, c ∈ d ∨ c = '/' := by
  rw [joinChars, if_neg (by simp [h])]
  split
  next hend => exact ⟨d, rfl, hend, fun c hc => .inl hc⟩
  next => exact ⟨d ++ ['/'], by simp, .inr List.getLast?_concat, by simp⟩

theorem joinChars_injective {p q : List Char} (directory : List Char) (hp : isAbsolute p = false)
    (hq : isAbsolute q = false) (h : joinChars directory p = joinChars directory q) : p = q := by
  have hsegments := congrArg segments h
  rw [segments_joinChars directory hp, segments_joinChars directory hq] at hsegments
  rw [← joinSegments_segments p, ← joinSegments_segments q, List.append_cancel_left hsegments]

/-- A path in normal form is what it is without its slash, or that behind a slash. -/
theorem eq_or_eq_slash_of_normalize {path : String} (h : normalize path = path) :
    path.toList = relativeChars path.toList ∨ path.toList = '/' :: relativeChars path.toList := by
  have hnormal : path.toList = normalizeChars path.toList := by
    conv_lhs => rw [← h, normalize, String.toList_ofList]
  rw [hnormal, relativeChars_normalizeChars, normalizeChars_eq]
  cases isAbsolute path.toList with
  | false => exact .inl rfl
  | true => exact .inr rfl

end Stencil.Path
