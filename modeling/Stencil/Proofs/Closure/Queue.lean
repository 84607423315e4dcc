/-
The queue of a render.

A path of tags leads from a template to one that it reaches: each of the tags stands in the template
that those in front of it lead to, and its name has a partial there, where the overrides come before
the template's own.  The queue holds the rewritten text of every template that a path leads to, in
the order of the paths: a template before those below it, and those below it in the order in which
their tags first occur.  There is a queue exactly if no path has more tags than the depth allows;
otherwise the first path that has one too many leads to the template that the error names.
-/
import Mathlib
import Stencil.Proofs.Closure.Keys
import Stencil.Proofs.Piece.Leftmost

namespace Stencil.Closure

/-! ## Paths of tags -/

/-- What a name stands for in the template of a partial. -/
def scope (overrides : Dict Closure) (c : Closure) (name : String) : Option Closure :=
  (overrides.get? name).or (c.partials.get? name)

/-- The paths of tags that lead from a template, in which `found` tells what a name stands for, to
a template and what names stand for there. -/
inductive Leads (overrides : Dict Closure) : Template → (String → Option Closure) →
    List String → Template → (String → Option Closure) → Prop
  | here {t : Template} {found : String → Option Closure} : Leads overrides t found [] t found
  | tag {t u : Template} {found below : String → Option Closure} {name : String}
      {path : List String} {child : Closure} (hname : name ∈ Piece.names (Piece.ofText t.source))
      (hchild : found name = some child)
      (h : Leads overrides child.template (scope overrides child) path u below) :
      Leads overrides t found (name :: path) u below

/-- Whether a path of tags leads anywhere. -/
def Available (overrides : Dict Closure) (t : Template) (found : String → Option Closure)
    (path : List String) : Prop := ∃ u below, Leads overrides t found path u below

/-- The order of the paths in a queue. -/
inductive Precedes (overrides : Dict Closure) : Template → (String → Option Closure) →
    List String → List String → Prop
  | above {t : Template} {found : String → Option Closure} {name : String} {path : List String} :
      Precedes overrides t found [] (name :: path)
  | beside {t : Template} {found : String → Option Closure} {name name' : String}
      {path path' : List String} (h : (Piece.names (Piece.ofText t.source)).idxOf name <
        (Piece.names (Piece.ofText t.source)).idxOf name') :
      Precedes overrides t found (name :: path) (name' :: path')
  | within {t : Template} {found : String → Option Closure} {name : String}
      {path path' : List String} {child : Closure} (hchild : found name = some child)
      (h : Precedes overrides child.template (scope overrides child) path path') :
      Precedes overrides t found (name :: path) (name :: path')

variable {overrides lookup : Dict Closure} {t u : Template} {key name : String}
  {found : String → Option Closure} {path path' : List String}

/-- No two paths precede each other. -/
theorem Precedes.asymm (h : Precedes overrides t found path path') :
    ¬ Precedes overrides t found path' path := by
  induction h with
  | above => nofun
  | beside h =>
      intro h'
      cases h' with
      | beside h' => exact absurd h' (Nat.lt_asymm h)
      | within _ _ => exact absurd h (Nat.lt_irrefl _)
  | within hchild _ ih =>
      intro h'
      cases h' with
      | beside h' => exact absurd h' (Nat.lt_irrefl _)
      | within hchild' h' =>
          rw [hchild] at hchild'
          cases hchild'
          exact ih h'

/-! ## Paths and rows

The rows by which a render lists its templates are the paths, as long as every name is overridden at
most once. -/

theorem mem_known_iff {pieces : List Piece} :
    name ∈ known lookup pieces ↔
      name ∈ Piece.names pieces ∧ ∃ child, lookup.get? name = some child := by
  rw [known, List.mem_eraseDups, List.mem_filter, Dict.hasKey_iff_exists]

theorem get?_override_partials (hov : (Dict.keys overrides).Nodup) (child : Closure) :
    (fun name => (Dict.override child.partials overrides).get? name) = scope overrides child := by
  funext name
  rw [Dict.get?_override, Dict.get?_reverse hov, scope]

/-- A row leads where the path of its tags leads. -/
theorem leads_iff (hov : (Dict.keys overrides).Nodup) {below : String → Option Closure} :
    Leads overrides t (fun name => lookup.get? name) path u below ↔
      ∃ d, tagged? overrides t lookup path = some (u, d) ∧ below = fun name => d.get? name := by
  induction path generalizing t lookup with
  | nil =>
      constructor
      · intro h
        cases h
        exact ⟨lookup, rfl, rfl⟩
      · rintro ⟨d, h, rfl⟩
        cases h
        exact .here
  | cons name path ih =>
      constructor
      · intro h
        cases h with
        | @tag _ _ _ _ _ _ child hname hchild h =>
            rw [tagged?_cons (mem_known_iff.mpr ⟨hname, child, hchild⟩) hchild]
            rw [← get?_override_partials hov] at h
            exact ih.mp h
      · rintro ⟨d, h, rfl⟩
        rw [tagged?] at h
        split at h
        next hknown =>
          obtain ⟨hname, child, hchild⟩ := mem_known_iff.mp hknown
          rw [hchild] at h
          refine .tag hname hchild ?_
          rw [← get?_override_partials hov]
          exact ih.mpr ⟨d, h, rfl⟩
        next _ => cases h

theorem available_iff (hov : (Dict.keys overrides).Nodup) :
    Available overrides t (fun name => lookup.get? name) path ↔
      (tagged? overrides t lookup path).isSome := by
  constructor
  · rintro ⟨u, below, h⟩
    obtain ⟨d, h, -⟩ := (leads_iff hov).mp h
    rw [h]
    rfl
  · intro h
    obtain ⟨⟨u, d⟩, h⟩ := Option.isSome_iff_exists.mp h
    exact ⟨u, _, (leads_iff hov).mpr ⟨d, h, rfl⟩⟩

/-! ## The order of the rows -/

theorem pairwise_known (lookup : Dict Closure) (pieces : List Piece) :
    (known lookup pieces).Pairwise fun a b =>
      (Piece.names pieces).idxOf a < (Piece.names pieces).idxOf b :=
  Names.pairwise_eraseDups_filter _ _

/-- A render lists its templates in the order of their paths. -/
theorem pairwise_rows (hov : (Dict.keys overrides).Nodup) (room : Nat) (t : Template)
    (lookup : Dict Closure) :
    (rows overrides room t lookup).Pairwise
      (Precedes overrides t fun name => lookup.get? name) := by
  induction room generalizing t lookup with
  | zero => exact .nil
  | succ room ih =>
      rw [rows]
      refine .cons (fun path hpath => ?_) (List.pairwise_flatMap.mpr ⟨fun name hname => ?_, ?_⟩)
      · obtain ⟨name, hname, hpath⟩ := List.mem_flatMap.mp hpath
        obtain ⟨child, hchild⟩ := exists_get?_of_mem_known hname
        rw [hchild] at hpath
        obtain ⟨path, -, rfl⟩ := List.mem_map.mp hpath
        exact .above
      · obtain ⟨child, hchild⟩ := exists_get?_of_mem_known hname
        rw [hchild]
        refine List.pairwise_map.mpr ((ih _ _).imp fun h => ?_)
        rw [get?_override_partials hov] at h
        exact .within hchild h
      · refine (pairwise_known lookup _).imp_of_mem
          fun {a b} ha hb hlt path hpath path' hpath' => ?_
        obtain ⟨c, hc⟩ := exists_get?_of_mem_known ha
        obtain ⟨d, hd⟩ := exists_get?_of_mem_known hb
        rw [hc] at hpath
        rw [hd] at hpath'
        obtain ⟨path, -, rfl⟩ := List.mem_map.mp hpath
        obtain ⟨path', -, rfl⟩ := List.mem_map.mp hpath'
        exact .beside hlt

/-! ## Paths that are too long -/

theorem length_lt_of_mem_rows {room : Nat} (h : path ∈ rows overrides room t lookup) :
    path.length < room := by
  induction room generalizing t lookup path with
  | zero => cases h
  | succ room ih =>
      cases path with
      | nil => exact Nat.succ_pos _
      | cons name path =>
          obtain ⟨-, child, -, h⟩ := cons_mem_rows_iff.mp h
          exact Nat.succ_lt_succ (ih h)

/-- What can be listed has no paths that are too long. -/
theorem not_available_of_sources_eq_ok (hov : (Dict.keys overrides).Nodup) {room : Nat}
    {texts : List (String × String)} (h : sources overrides room key t lookup = .ok texts)
    (hlength : path.length = room) :
    ¬ Available overrides t (fun name => lookup.get? name) path := by
  intro hpath
  rw [available_iff hov, ← mem_rows_iff h] at hpath
  exact absurd (length_lt_of_mem_rows hpath) (by omega)

/-- What cannot be listed has such a path, and the first of them leads to the template that the
error names. -/
theorem exists_first_of_sources_eq_error (hov : (Dict.keys overrides).Nodup) {room : Nat}
    {e : Error} (h : sources overrides room key t lookup = .error e) :
    ∃ path u below, Leads overrides t (fun name => lookup.get? name) path u below ∧
      path.length = room ∧ e = .partialDepth u.name maxDepth ∧
      ∀ path', path'.length = room → Available overrides t (fun name => lookup.get? name) path' →
        path' = path ∨ Precedes overrides t (fun name => lookup.get? name) path path' := by
  induction room generalizing key t lookup with
  | zero =>
      cases h
      exact ⟨[], t, _, .here, rfl, rfl, 
        fun path' hlength _ => .inl (List.length_eq_zero_iff.mp hlength)⟩
  | succ room ih =>
      obtain ⟨before, name, after, hsplit, hbefore, h⟩ := sources_succ_eq_error h
      have hknown : name ∈ known lookup (Piece.ofText t.source) := by simp [hsplit]
      obtain ⟨hname, child, hchild⟩ := mem_known_iff.mp hknown
      rw [sourcesBelow, hchild] at h
      obtain ⟨path, u, below, hpath, hlength, rfl, hfirst⟩ := ih h
      rw [get?_override_partials hov] at hpath hfirst
      refine ⟨name :: path, u, below, .tag hname hchild hpath,
        by rw [List.length_cons, hlength], rfl, fun path' hlength' hpath' => ?_⟩
      obtain ⟨u', below', hpath'⟩ := hpath'
      cases hpath' with
      | here => cases hlength'
      | @tag _ _ _ _ name' path' child' hname' hchild' hpath' =>
          replace hlength' : path'.length = room := Nat.succ.inj hlength'
          replace hchild' : lookup.get? name' = some child' := hchild'
          have hknown' : name' ∈ before ++ name :: after :=
            hsplit ▸ mem_known_iff.mpr ⟨hname', child', hchild'⟩
          rcases List.mem_append.mp hknown' with hmem | hmem
          · -- The partials in front can be listed, so that no path through them is too long.
            obtain ⟨found, hfound⟩ := hbefore name' hmem
            rw [sourcesBelow, hchild'] at hfound
            refine absurd ⟨u', below', ?_⟩ (not_available_of_sources_eq_ok hov hfound hlength')
            rwa [get?_override_partials hov]
          · rcases List.mem_cons.mp hmem with rfl | hmem
            · rw [hchild] at hchild'
              cases hchild'
              rcases hfirst path' hlength' ⟨u', below', hpath'⟩ with rfl | hprecedes
              · exact .inl rfl
              · exact .inr (.within hchild hprecedes)
            · have hpairwise := pairwise_known lookup (Piece.ofText t.source)
              rw [hsplit, List.pairwise_append] at hpairwise
              exact .inr (.beside (List.rel_of_pairwise_cons hpairwise.2.1 hmem))

/-! ## Rewritten texts -/

/-- How a text is rewritten under a key, where `found` tells what a name stands for. -/
inductive Rewritten (found : String → Option Closure) (key : String) :
    List Char → List Char → Prop
  | nil : Rewritten found key [] []
  | included {name x rest out : List Char} {child : Closure} (hx : Piece.TagText name x)
      (hchild : found (String.ofList name) = some child) (h : Rewritten found key rest out) :
      Rewritten found key (x ++ rest) ("\x7b% include \"".toList ++
        (Engine.childKey key (String.ofList name)).toList ++ "\" %\x7d".toList ++ out)
  | dropped {name x rest out : List Char} (hx : Piece.TagText name x)
      (hnone : found (String.ofList name) = none) (h : Rewritten found key rest out) :
      Rewritten found key (x ++ rest) out
  | char {c : Char} {cs out : List Char}
      (hno : ∀ name x rest, Piece.TagText name x → c :: cs ≠ x ++ rest)
      (h : Rewritten found key cs out) : Rewritten found key (c :: cs) (c :: out)

theorem inclusion_of_some {child : Closure} (h : lookup.get? name = some child) (key : String) :
    inclusion lookup key name = "\x7b% include \"".toList ++ (Engine.childKey key name).toList ++
      "\" %\x7d".toList := by
  rw [inclusion, if_pos (Dict.hasKey_iff_exists.mpr ⟨child, h⟩)]

theorem inclusion_of_none (h : lookup.get? name = none) (key : String) :
    inclusion lookup key name = [] := by
  rw [inclusion, Dict.hasKey, h]
  rfl

theorem rewritten_of_leftmost {cs : List Char} {ps : List Piece} (h : Piece.Leftmost cs ps) :
    Rewritten (fun name => lookup.get? name) key cs (Piece.write (inclusion lookup key) ps) := by
  induction h with
  | nil => exact .nil
  | char hno _ ih => exact .char hno ih
  | @tag name x rest ps hx _ ih =>
      show Rewritten _ _ _ (inclusion lookup key (String.ofList name) ++ Piece.write _ ps)
      cases hchild : lookup.get? (String.ofList name) with
      | some child =>
          rw [inclusion_of_some hchild]
          exact .included hx hchild ih
      | none =>
          rw [inclusion_of_none hchild]
          exact .dropped hx hchild ih

/-- A text is rewritten in one way, which is that of a render. -/
theorem rewritten_iff {text : String} {out : List Char} :
    Rewritten (fun name => lookup.get? name) key text.toList out ↔
      out = (withInclusions lookup key (Piece.ofText text)).toList := by
  rw [withInclusions, String.toList_ofList, Piece.ofText]
  constructor
  · generalize text.toList = cs
    intro h
    induction h with
    | nil => rfl
    | char hno _ ih =>
        rw [Piece.scan_of_not_tag? (Piece.tag?_eq_none_iff_tagText.mpr hno), ih]
        rfl
    | included hx hchild _ ih =>
        rw [Piece.scan_of_tag? (Piece.tag?_of_tagText hx _), ih, ← inclusion_of_some hchild]
        rfl
    | dropped hx hnone _ ih =>
        rw [Piece.scan_of_tag? (Piece.tag?_of_tagText hx _), ih]
        show _ = inclusion lookup key _ ++ _
        rw [inclusion_of_none hnone]
        rfl
  · rintro rfl
    exact rewritten_of_leftmost (Piece.leftmost_scan _)

/-! ## The general way -/

/-- The sources for a render that puts its overrides over the partials of every template, also where
there are none. -/
def sourcesMerging (overrides : Dict Closure) : (room : Nat) → (key : String) → Template →
    (lookup : Dict Closure) → Except Error (List (String × String))
  | 0, _, template, _ => .error (.partialDepth template.name maxDepth)
  | room + 1, key, template, lookup => do
    let pieces := Piece.ofText template.source
    let below ← (known lookup pieces).mapM fun name =>
      match lookup.get? name with
      | none => .ok []
      | some child =>
        sourcesMerging overrides room (Engine.childKey key name) child.template
          (Dict.override child.partials overrides)
    return (key, withInclusions lookup key pieces) :: below.flatten

theorem sourcesMerging_eq (overrides : Dict Closure) (room : Nat) (key : String) (t : Template)
    (lookup : Dict Closure) :
    sourcesMerging overrides room key t lookup = sources overrides room key t lookup := by
  induction room generalizing key t lookup with
  | zero => rfl
  | succ room ih =>
      rw [sources_succ, sourcesMerging]
      refine congrArg (· >>= _) (congrArg (List.mapM · _) (funext fun name => ?_))
      rw [sourcesBelow]
      cases lookup.get? name with
      | none => rfl
      | some child => exact ih _ _ _

/-! ## Result -/

/-- What a render queues under any key, for every template with what its names stand for and all
overrides.  There is no queue exactly if a path has eleven tags, and the first of these paths leads
to the template that the error names.  Otherwise the queue lists all paths, each of them once and in
their order, with the text that the template at the end of the path is rewritten to.  Taking the
partials of a template as they are where there are no overrides makes no difference. -/
theorem queued (hov : (Dict.keys overrides).Nodup) (key : String) (t : Template)
    (lookup : Dict Closure) :
    ((∃ e, sources overrides (maxDepth + 1) key t lookup = .error e) ↔
      ∃ path, path.length = 11 ∧ Available overrides t (fun name => lookup.get? name) path) ∧
    (∀ e, sources overrides (maxDepth + 1) key t lookup = .error e →
      ∃ path u below, Leads overrides t (fun name => lookup.get? name) path u below ∧
        path.length = 11 ∧ e = .partialDepth u.name 10 ∧
        ∀ path', path'.length = 11 → Available overrides t (fun name => lookup.get? name) path' →
          path' = path ∨ Precedes overrides t (fun name => lookup.get? name) path path') ∧
    (∀ texts, sources overrides (maxDepth + 1) key t lookup = .ok texts →
      ∃ paths, (∀ path, path ∈ paths ↔
          Available overrides t (fun name => lookup.get? name) path) ∧
        paths.Nodup ∧ paths.Pairwise (Precedes overrides t fun name => lookup.get? name) ∧
        List.Forall₂ (fun path entry => ∃ u below,
          Leads overrides t (fun name => lookup.get? name) path u below ∧
          entry.1 = rowKey key path ∧
          ∀ out, Rewritten below (rowKey key path) u.source.toList out ↔ out = entry.2.toList)
          paths texts) ∧
    sourcesMerging overrides (maxDepth + 1) key t lookup =
      sources overrides (maxDepth + 1) key t lookup := by
  refine ⟨⟨fun ⟨e, h⟩ => ?_, fun ⟨path, hlength, hpath⟩ => ?_⟩,
    fun e h => exists_first_of_sources_eq_error hov h, fun texts h => ?_,
    sourcesMerging_eq _ _ _ _ _⟩
  · obtain ⟨path, u, below, hpath, hlength, -⟩ := exists_first_of_sources_eq_error hov h
    exact ⟨path, hlength, u, below, hpath⟩
  · cases h : sources overrides (maxDepth + 1) key t lookup with
    | error e => exact ⟨e, rfl⟩
    | ok texts => exact absurd hpath (not_available_of_sources_eq_ok hov h hlength)
  · refine ⟨rows overrides (maxDepth + 1) t lookup, fun path => ?_, nodup_rows _ _ _ _,
      pairwise_rows hov _ _ _, ?_⟩
    · rw [mem_rows_iff h, available_iff hov]
    · rw [sources_eq_rows h, List.forall₂_map_right_iff, List.forall₂_same]
      intro path hpath
      rw [mem_rows_iff h] at hpath
      obtain ⟨⟨u, d⟩, hd⟩ := Option.isSome_iff_exists.mp hpath
      rw [entry_of_tagged? hd]
      exact ⟨u, _, (leads_iff hov).mpr ⟨d, hd, rfl⟩, rfl, fun out => rewritten_iff⟩

/-- A root whose only tag stands for a partial that includes itself. -/
def loopingRoot : Template := plainTemplate "\x7b\x7b> loop\x7d\x7d" ["loop"]

/-- The partial that includes itself, as long as it is given at run time. -/
def loopingOverrides : Dict Closure :=
  [("loop", .mk (plainTemplate "again \x7b\x7b> loop\x7d\x7d" ["loop"]) [])]

theorem queued_loopingRoot :
    (Dict.keys loopingOverrides).Nodup ∧
      sources loopingOverrides (maxDepth + 1) "r" loopingRoot loopingOverrides =
        .error (.partialDepth "t" 10) ∧
      ∃ path, path.length = 11 ∧
        Available loopingOverrides loopingRoot (fun name => loopingOverrides.get? name) path := by
  have hsources : sources loopingOverrides (maxDepth + 1) "r" loopingRoot loopingOverrides =
      .error (.partialDepth "t" 10) := by rfl
  have hov : (Dict.keys loopingOverrides).Nodup := by decide
  exact ⟨hov, hsources, (queued hov "r" loopingRoot loopingOverrides).1.mp ⟨_, hsources⟩⟩

end Stencil.Closure
