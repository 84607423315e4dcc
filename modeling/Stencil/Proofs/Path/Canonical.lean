/-
What a normal form stands for.

A path stands for a walk: from any directory it leads to a place, segment by segment, and the top is
its own parent.  The walk says nothing of a stack or of `..` segments that are left over, so it can
be compared with the normal form from outside.  A stack of names on top of a row of `..` leads up as
often as the row is long and then down along the names, and two stacks that do this alike from every
directory are the same.  So the normal form is the one spelling, among the paths of its kind, of all
paths that lead to the same place from everywhere.
-/
import Mathlib
import Stencil.Proofs.Loader.Graph
import Stencil.Proofs.Path
import Stencil.Proofs.Reference

namespace Stencil

namespace Path

variable {absolute : Bool} {loc loc' dir names : List Segment} {climbs : Nat} {s : Segment}

/-! ## Walks -/

/-- Where a segment leads from a directory.  A directory is the list of the names on the way down to
it, the last one first. -/
def enter (dir : List Segment) (s : Segment) : List Segment :=
  if s = [] ∨ s = here then dir else if s = parent then dir.tail else s :: dir

/-- Where a path leads from a directory, or from the top if it is absolute. -/
def follow (dir : List Segment) (p : List Char) : List Segment :=
  (segments p).foldl enter (if isAbsolute p then [] else dir)

theorem enter_of_isName (h : IsName s) (dir : List Segment) : enter dir s = s :: dir := by
  rw [enter, if_neg (not_or.mpr ⟨h.2.1, h.2.2.1⟩), if_neg h.2.2.2]

theorem enter_parent (dir : List Segment) : enter dir parent = dir.tail := rfl

/-- A walk keeps up with the stack: one more segment on the stack leads one segment further. -/
theorem foldl_enter_step (h : Standing absolute loc) (hdir : absolute → dir = []) (s : Segment) :
    (step absolute loc s).reverse.foldl enter dir = enter (loc.reverse.foldl enter dir) s := by
  by_cases hidle : s = [] ∨ s = here
  · rw [step.eq_def, if_pos hidle, enter, if_pos hidle]
  by_cases hs : s = parent
  · subst hs
    rw [step.eq_def, if_neg hidle, if_pos rfl]
    have hclimb : (parent :: loc).reverse.foldl enter dir =
        enter (loc.reverse.foldl enter dir) parent := by
      rw [List.reverse_cons, List.foldl_append]
      rfl
    cases loc with
    | nil =>
        cases habsolute : absolute with
        | true =>
            rw [hdir habsolute]
            rfl
        | false => exact hclimb
    | cons last above =>
        dsimp only
        split
        next hlast =>
          -- The name that is left was entered last.
          have hname : IsName last := ⟨h.2.2.1, h.1, h.2.1, hlast⟩
          rw [List.reverse_cons, List.foldl_append, List.foldl_cons, List.foldl_nil,
            enter_of_isName hname]
          rfl
        next hlast =>
          obtain ⟨hrelative, -⟩ := h.2.2.2.1 (not_not.mp hlast)
          rw [hrelative]
          exact hclimb
  · rw [step.eq_def, if_neg hidle, if_neg hs, List.reverse_cons, List.foldl_append]
    rfl

theorem foldl_enter_foldl_step (h : Standing absolute loc) (hdir : absolute → dir = [])
    {all : List Segment} (hall : ∀ s ∈ all, '/' ∉ s) :
    (all.foldl (step absolute) loc).reverse.foldl enter dir =
      all.foldl enter (loc.reverse.foldl enter dir) := by
  induction all generalizing loc with
  | nil => rfl
  | cons s all ih =>
      obtain ⟨hs, hall⟩ := List.forall_mem_cons.mp hall
      rw [List.foldl_cons, List.foldl_cons, ih (standing_step h hs) hall,
        foldl_enter_step h hdir s]

/-- The stack of a path leads where the path leads. -/
theorem foldl_enter_location (p : List Char) (dir : List Segment) :
    (location (isAbsolute p) p).reverse.foldl enter (if isAbsolute p then [] else dir) =
      follow dir p :=
  foldl_enter_foldl_step standing_nil (fun h => if_pos h) fun _ hs => not_mem_of_mem_segments hs

/-- So does the path that the stack spells. -/
theorem follow_ofSegments (h : Standing absolute loc) (dir : List Segment) :
    follow dir (ofSegments absolute loc.reverse) =
      loc.reverse.foldl enter (if absolute then [] else dir) := by
  have hidle : ∀ dir, (if loc = [] then [[]] else loc.reverse).foldl enter dir =
      loc.reverse.foldl enter dir := by
    intro dir
    split
    next hnil =>
      rw [hnil]
      rfl
    next => rfl
  rw [follow, segments_ofSegments h, isAbsolute_ofSegments h, List.foldl_append, hidle]
  cases absolute <;> rfl

theorem follow_normalizeChars (dir : List Segment) (p : List Char) :
    follow dir (normalizeChars p) = follow dir p := by
  rw [normalizeChars_eq, follow_ofSegments (standing_location _ _), foldl_enter_location]

/-- What is put behind the base of a path is followed from where the base leads. -/
theorem follow_baseChars_append {q : List Char} (hq : isAbsolute q = false) (dir : List Segment)
    (p : List Char) : follow dir (baseChars p ++ q) = follow (follow dir (baseChars p)) q := by
  have hbase := segments_baseChars_append p []
  rw [List.append_nil] at hbase
  have hidle : ∀ dir, [[]].foldl enter dir = dir := fun _ => rfl
  have habsolute : isAbsolute (baseChars p) = isAbsolute p := by
    have h := isAbsolute_baseChars_append (q := []) p rfl
    rwa [List.append_nil] at h
  rw [follow, follow, follow, segments_baseChars_append, isAbsolute_baseChars_append p hq, hq,
    hbase, habsolute, List.foldl_append, List.foldl_append]
  rfl

/-! ## Names on top of a row of climbs -/

/-- Whether a path is in normal form: it is empty, a slash, or names with slashes between them, with
a slash in front or, if there is none, with some `..` segments in front. -/
def IsNormal (p : List Char) : Prop :=
  ∃ climbs names, p = ofSegments (isAbsolute p) (List.replicate climbs parent ++ names) ∧
    (∀ s ∈ names, IsName s) ∧ (isAbsolute p → climbs = 0)

/-- Every stack has names on top of a row of climbs. -/
theorem Standing.exists_climbs (h : Standing absolute loc) :
    ∃ climbs names, loc = names ++ List.replicate climbs parent ∧ (∀ s ∈ names, IsName s) ∧
      (absolute → climbs = 0) := by
  induction loc with
  | nil => exact ⟨0, [], rfl, List.forall_mem_nil _, fun _ => rfl⟩
  | cons s below ih =>
      obtain ⟨hempty, hhere, hslash, hclimbs, hbelow⟩ := h
      by_cases hs : s = parent
      · obtain ⟨rfl, hall⟩ := hclimbs hs
        refine ⟨below.length + 1, [], ?_, List.forall_mem_nil _, nofun⟩
        rw [List.nil_append, List.replicate_succ, ← List.eq_replicate_of_mem hall, hs]
      · obtain ⟨climbs, names, rfl, hnames, habsolute⟩ := ih hbelow
        exact ⟨climbs, s :: names, rfl,
          List.forall_mem_cons.mpr ⟨⟨hslash, hempty, hhere, hs⟩, hnames⟩, habsolute⟩

theorem standing_replicate (h : absolute → climbs = 0) :
    Standing absolute (List.replicate climbs parent) := by
  induction climbs with
  | zero => exact standing_nil
  | succ climbs ih =>
      have hrelative : absolute = false := by simpa using h
      refine ⟨by decide, by decide, by decide, fun _ => ⟨hrelative, fun t ht => ?_⟩, ih ?_⟩
      · exact List.eq_of_mem_replicate ht
      · rw [hrelative]
        nofun

/-- Names on top of a row of climbs are a stack. -/
theorem standing_append (hnames : ∀ s ∈ names, IsName s) (h : absolute → climbs = 0) :
    Standing absolute (names ++ List.replicate climbs parent) := by
  induction names with
  | nil => exact standing_replicate h
  | cons s names ih =>
      obtain ⟨⟨hslash, hempty, hhere, hparent⟩, hnames⟩ := List.forall_mem_cons.mp hnames
      exact ⟨hempty, hhere, hslash, fun heq => absurd heq hparent, ih hnames⟩

theorem isNormal_normalizeChars (p : List Char) : IsNormal (normalizeChars p) := by
  have hstanding := standing_location (isAbsolute p) p
  obtain ⟨climbs, names, hloc, hnames, habsolute⟩ := hstanding.exists_climbs
  refine ⟨climbs, names.reverse, ?_, fun s hs => hnames s (List.mem_reverse.mp hs), ?_⟩
  · rw [normalizeChars_eq, isAbsolute_ofSegments hstanding, hloc, List.reverse_append,
      List.reverse_replicate]
  · rwa [normalizeChars_eq, isAbsolute_ofSegments hstanding]

theorem normalizeChars_of_isNormal {p : List Char} (h : IsNormal p) : normalizeChars p = p := by
  obtain ⟨climbs, names, hp, hnames, habsolute⟩ := h
  have hstanding : Standing (isAbsolute p) (names.reverse ++ List.replicate climbs parent) :=
    standing_append (fun s hs => hnames s (List.mem_reverse.mp hs)) habsolute
  have hnormal := normalizeChars_ofSegments hstanding
  rwa [List.reverse_append, List.reverse_reverse, List.reverse_replicate, ← hp] at hnormal

/-- A stack leads up as often as it has climbs, and then down along its names. -/
theorem foldl_enter_append (hnames : ∀ s ∈ names, IsName s) (dir : List Segment) :
    (names ++ List.replicate climbs parent).reverse.foldl enter dir = names ++ dir.drop climbs := by
  induction names with
  | nil =>
      rw [List.nil_append, List.nil_append, List.reverse_replicate]
      induction climbs generalizing dir with
      | zero => rfl
      | succ climbs ih =>
          rw [List.replicate_succ, List.foldl_cons, enter_parent, ih, List.drop_tail]
  | cons s names ih =>
      obtain ⟨hs, hnames⟩ := List.forall_mem_cons.mp hnames
      rw [List.cons_append, List.reverse_cons, List.foldl_append, ih hnames, List.foldl_cons,
        enter_of_isName hs]
      rfl

/-- Two stacks that lead to the same place from every directory are the same. -/
theorem Standing.eq_of_foldl_enter (h : Standing absolute loc) (h' : Standing absolute loc')
    (hsame : ∀ dir, (∀ s ∈ dir, IsName s) →
      loc.reverse.foldl enter (if absolute then [] else dir) =
        loc'.reverse.foldl enter (if absolute then [] else dir)) : loc = loc' := by
  obtain ⟨climbs, names, rfl, hnames, habsolute⟩ := h.exists_climbs
  obtain ⟨climbs', names', rfl, hnames', habsolute'⟩ := h'.exists_climbs
  simp only [foldl_enter_append hnames, foldl_enter_append hnames'] at hsame
  -- From the top only the names count.
  obtain rfl : names = names' := by
    have htop := hsame [] (List.forall_mem_nil _)
    simpa only [ite_self, List.drop_nil, List.append_nil] using htop
  obtain rfl : climbs = climbs' := by
    cases absolute with
    | true => rw [habsolute rfl, habsolute' rfl]
    | false =>
        -- In a directory that is deep enough, every climb counts.
        have hdeep := hsame (List.replicate (climbs + climbs') ['a']) fun s hs => by
          rw [List.eq_of_mem_replicate hs]
          exact ⟨by decide, by decide, by decide, by decide⟩
        have hlength := congrArg List.length (List.append_cancel_left hdeep)
        simp only [Bool.false_eq_true, if_false, List.length_drop, List.length_replicate] at hlength
        omega
  rfl

/-- Two paths of one kind have the same normal form exactly if they lead to the same place from
every directory. -/
theorem normalizeChars_eq_iff {p q : List Char} (hkind : isAbsolute p = isAbsolute q) :
    normalizeChars p = normalizeChars q ↔
      ∀ dir, (∀ s ∈ dir, IsName s) → follow dir p = follow dir q := by
  constructor
  · intro h dir _
    rw [← follow_normalizeChars dir p, h, follow_normalizeChars]
  · intro h
    have hloc : location (isAbsolute p) p = location (isAbsolute p) q := by
      refine (standing_location _ _).eq_of_foldl_enter (standing_location _ _) fun dir hdir => ?_
      rw [foldl_enter_location, hkind, foldl_enter_location]
      exact h dir hdir
    rw [normalizeChars_eq, normalizeChars_eq, ← hkind, hloc]

theorem normalize_eq_iff_isNormal {path : String} :
    normalize path = path ↔ IsNormal path.toList := by
  rw [normalize]
  constructor
  · intro h
    rw [← h, String.toList_ofList]
    exact isNormal_normalizeChars _
  · intro h
    rw [normalizeChars_of_isNormal h, String.ofList_toList]

end Path

/-! ## Relative names -/

/-- A name that starts with a dot and holds the delimiter is relative. -/
theorem ResolutionContext.resolve?_of_dot {ctx : ResolutionContext} {raw : String}
    (hdot : raw.toList.head? = some '.')
    (hdelimiter : Text.contains ctx.delimiter.toList raw.toList) :
    ctx.resolve? raw = some (ctx.basePath ++ raw) := by
  rw [resolve?, if_pos hdelimiter, if_pos hdot]

theorem Path.isAbsolute_of_dot {raw : String} (hdot : raw.toList.head? = some '.') :
    Path.isAbsolute raw.toList = false := by
  rw [Path.isAbsolute, hdot]
  rfl

namespace Path

/-! ## Result -/

/-- The normal form is canonical.  It is absolute if the path is; it is in normal form, and the
paths in normal form are those that are their own; and it leads from every directory where the path
leads.  Two paths of one kind have the same normal form exactly if they lead to the same place from
every directory.  So the key of a partial that is named relative to its template is the one path in
normal form that leads, from every directory, where the name leads from the directory of the
template's text. -/
theorem normalize_canonical :
    (∀ p : String, isAbsolute (normalize p).toList = isAbsolute p.toList ∧
      IsNormal (normalize p).toList ∧ (normalize p = p ↔ IsNormal p.toList) ∧
      normalize (normalize p) = normalize p ∧
      ∀ dir, follow dir (normalize p).toList = follow dir p.toList) ∧
    (∀ p q : String, isAbsolute p.toList = isAbsolute q.toList →
      (normalize p = normalize q ↔
        ∀ dir, (∀ s ∈ dir, IsName s) → follow dir p.toList = follow dir q.toList)) ∧
    ∀ (c : Config) (template : String) (tags : List String) (raw : String), raw ∈ tags →
      raw.toList.head? = some '.' → Text.contains c.delimiter.toList raw.toList →
      ∃ r ∈ resolvePartials (.ofTemplate c template) tags, r.name = raw ∧
        (∀ r' ∈ resolvePartials (.ofTemplate c template) tags, r'.name = raw → r' = r) ∧
        IsNormal r.key.toList ∧
        isAbsolute r.key.toList = isAbsolute (c.fetchPath template).toList ∧
        ∀ dir, follow dir r.key.toList =
          follow (follow dir (base (c.fetchPath template)).toList) raw.toList := by
  have hchars : ∀ p : String, (normalize p).toList = normalizeChars p.toList :=
    fun p => String.toList_ofList
  have hkind : ∀ p : List Char, isAbsolute (normalizeChars p) = isAbsolute p :=
    fun p => isAbsolute_ofSegments (standing_location _ _)
  refine ⟨fun p => ⟨?_, ?_, normalize_eq_iff_isNormal, normalize_normalize p, fun dir => ?_⟩,
    fun p q h => ?_, fun c template tags raw hraw hdot hdelimiter => ?_⟩
  · rw [hchars, hkind]
  · rw [hchars]
    exact isNormal_normalizeChars _
  · rw [hchars, follow_normalizeChars]
  · rw [normalize, normalize, String.ofList_inj, normalizeChars_eq_iff h]
  · have hid : (ResolutionContext.ofTemplate c template).resolve? raw =
        some (base (c.fetchPath template) ++ raw) :=
      ResolutionContext.resolve?_of_dot hdot hdelimiter
    obtain ⟨r, hr, rfl⟩ := Reference.exists_mem_resolvePartials hraw hid
    have hrelative := isAbsolute_of_dot hdot
    have hkey : r.key.toList =
        normalizeChars (baseChars (c.fetchPath template).toList ++ r.name.toList) := by
      have hid' := (Reference.mem_resolvePartials hr).2
      rw [hid, Option.some.injEq] at hid'
      rw [Reference.key, ← hid', hchars, String.toList_append, base, String.toList_ofList]
    refine ⟨r, hr, rfl, fun r' hr' hname => Reference.eq_of_name hr' hr hname, ?_, ?_,
      fun dir => ?_⟩
    · rw [hkey]
      exact isNormal_normalizeChars _
    · rw [hkey, hkind, isAbsolute_baseChars_append _ hrelative]
    · rw [hkey, follow_normalizeChars, follow_baseChars_append hrelative, base,
        String.toList_ofList]

/-- A partial next to the template above its own, named with a detour, and a path that leads to the
same place without one. -/
theorem normalize_canonical_detour :
    (∃ r ∈ resolvePartials (.ofTemplate {} "views/x") ["./a/../../h"], r.name = "./a/../../h" ∧
      r.key = "h" ∧ ∀ dir, follow dir r.key.toList =
        follow (follow dir "views/".toList) "./a/../../h".toList) ∧
      isAbsolute "views/./a/../../h".toList = isAbsolute "h".toList ∧
      ∀ dir, (∀ s ∈ dir, IsName s) →
        follow dir "views/./a/../../h".toList = follow dir "h".toList := by
  have hkind : isAbsolute "views/./a/../../h".toList = isAbsolute "h".toList := by decide
  refine ⟨?_, hkind, (normalize_canonical.2.1 _ _ hkind).mp (by decide)⟩
  obtain ⟨r, hr, hname, -, -, -, hfollow⟩ := normalize_canonical.2.2 {} "views/x" ["./a/../../h"]
    "./a/../../h" (List.mem_singleton_self _) (by decide) (by decide)
  refine ⟨r, hr, hname, ?_, hfollow⟩
  have hkeys : ∀ r ∈ resolvePartials (.ofTemplate {} "views/x") ["./a/../../h"], r.key = "h" := by
    decide
  exact hkeys r hr

end Path

end Stencil
