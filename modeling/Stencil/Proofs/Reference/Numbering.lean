/-
The numbering of references.

The references of a template are the names of its tags that have an identifier, each once, in the
order in which they first occur, and they are numbered from one without a gap.  This settles the
whole list.  A tag leaves it as it is exactly if it repeats a name in front of it or has a name
without an identifier, and two rows of tags have the same references exactly if one is made into the
other by putting in and taking out such tags.
-/
import Mathlib
import Stencil.Proofs.Names
import Stencil.Proofs.Reference

namespace Stencil.Reference

variable {ctx : ResolutionContext} {names names' : List String} {name : String}
  {references references' : List Reference}

/-- Whether a name has an identifier. -/
def resolves (ctx : ResolutionContext) (name : String) : Bool := (ctx.resolve? name).isSome

theorem resolves_iff : resolves ctx name ↔ ∃ id, ctx.resolve? name = some id :=
  Option.isSome_iff_exists

theorem resolves_eq_false_iff : resolves ctx name = false ↔ ctx.resolve? name = none := by
  rw [resolves, Option.isSome_eq_false_iff, Option.isNone_iff_eq_none]

/-- The names that count: those with an identifier, each at its first occurrence. -/
def counted (ctx : ResolutionContext) (names : List String) : List String :=
  (names.filter (resolves ctx)).eraseDups

theorem mem_counted : name ∈ counted ctx names ↔ name ∈ names ∧ resolves ctx name := by
  rw [counted, List.mem_eraseDups, List.mem_filter]

/-! ## Which names count -/

/-- What the tags ahead add to the references are those of their names that count and have not been
met. -/
theorem map_name_foldl (ctx : ResolutionContext) (met : List String) (found : List Reference)
    (names : List String) :
    (names.foldl (meet ctx) (met, found)).2.map Reference.name =
      found.map Reference.name ++ counted ctx (names.filter (· ∉ met)) := by
  induction names generalizing met found with
  | nil => exact (List.append_nil _).symm
  | cons name names ih =>
      rw [List.foldl_cons, meet]
      by_cases hmet : name ∈ met
      · rw [if_pos hmet, ih, List.filter_cons_of_neg (by simp [hmet])]
      · -- Behind a name that is now met, the names that are left to meet are the others.
        have hleft : names.filter (· ∉ name :: met) =
            (names.filter (· ∉ met)).filter fun n => !n == name := by
          rw [List.filter_filter]
          refine List.filter_congr fun n _ => ?_
          simp [not_or, beq_eq_decide]
        rw [if_neg hmet, List.filter_cons_of_pos (by simp [hmet])]
        cases hid : ctx.resolve? name with
        | none =>
            have hname : resolves ctx name = false := resolves_eq_false_iff.mpr hid
            rw [ih, hleft, counted, counted, List.filter_cons_of_neg (by simp [hname]),
              List.filter_filter]
            congr 2
            refine List.filter_congr fun n _ => ?_
            by_cases hn : n = name
            · simp [hn, hname]
            · simp [hn]
        | some id =>
            have hname : resolves ctx name := resolves_iff.mpr ⟨id, hid⟩
            rw [ih, hleft, counted, counted, List.filter_cons_of_pos hname, List.eraseDups_cons,
              List.filter_comm, List.map_append, List.append_assoc]
            rfl

theorem map_name_resolvePartials (ctx : ResolutionContext) (names : List String) :
    (resolvePartials ctx names).map Reference.name = counted ctx names := by
  have h := map_name_foldl ctx [] [] names
  rwa [List.filter_eq_self.mpr (by simp)] at h

/-! ## Numberings -/

/-- A list of references that numbers the names of a row of tags. -/
structure Numbering (ctx : ResolutionContext) (names : List String)
    (references : List Reference) : Prop where
  /-- There is a reference for exactly the names that have an identifier. -/
  named : ∀ name, (∃ r ∈ references, r.name = name) ↔ name ∈ names ∧ resolves ctx name
  /-- Each has the identifier of its name. -/
  resolved : ∀ r ∈ references, ctx.resolve? r.name = some r.canonicalId
  /-- They stand in the order of the first occurrences of their names, which are all different. -/
  firstMet : references.Pairwise fun r r' => names.idxOf r.name < names.idxOf r'.name
  /-- They are numbered from one on. -/
  numbered : references.map Reference.order = List.range' 1 references.length

theorem numbering_resolvePartials (ctx : ResolutionContext) (names : List String) :
    Numbering ctx names (resolvePartials ctx names) where
  named name := by
    rw [← mem_counted, ← map_name_resolvePartials, List.mem_map]
  resolved _ hr := (mem_resolvePartials hr).2
  firstMet := by
    have h := Names.pairwise_eraseDups_filter (resolves ctx) names
    rw [← counted, ← map_name_resolvePartials] at h
    exact (List.pairwise_map (R := fun a b => names.idxOf a < names.idxOf b)).mp h
  numbered := (sound_resolvePartials ctx names).numbered

/-- References are settled by their names: the identifiers and the numbers follow. -/
theorem eq_of_map_name (hid : ∀ r ∈ references, ctx.resolve? r.name = some r.canonicalId)
    (hid' : ∀ r ∈ references', ctx.resolve? r.name = some r.canonicalId)
    (horder : references.map Reference.order = List.range' 1 references.length)
    (horder' : references'.map Reference.order = List.range' 1 references'.length)
    (hname : references.map Reference.name = references'.map Reference.name) :
    references = references' := by
  have hlength : references.length = references'.length := by
    simpa using congrArg List.length hname
  refine List.ext_getElem hlength fun i hi hi' => ?_
  have hni : references[i].name = references'[i].name := by
    have h := List.getElem_of_eq hname (i := i) (by simpa using hi)
    simpa using h
  have hoi : references[i].order = references'[i].order := by
    have h := List.getElem_of_eq horder (i := i) (by simpa using hi)
    have h' := List.getElem_of_eq horder' (i := i) (by simpa using hi')
    simp only [List.getElem_map, List.getElem_range'] at h h'
    rw [h, h']
  have hci : references[i].canonicalId = references'[i].canonicalId := by
    have h := hid _ (List.getElem_mem hi)
    rw [hni, hid' _ (List.getElem_mem hi')] at h
    exact (Option.some.inj h).symm
  cases hr : references[i]
  cases hr' : references'[i]
  simp_all

theorem Numbering.pairwise_map_name (h : Numbering ctx names references) :
    (references.map Reference.name).Pairwise fun a b => names.idxOf a < names.idxOf b :=
  List.pairwise_map.mpr h.firstMet

theorem Numbering.mem_map_name (h : Numbering ctx names references) :
    name ∈ references.map Reference.name ↔ name ∈ names ∧ resolves ctx name := by
  rw [List.mem_map, h.named]

/-- A row of tags is numbered in one way only. -/
theorem Numbering.unique (h : Numbering ctx names references)
    (h' : Numbering ctx names references') : references = references' := by
  have hnodup : ∀ {l : List String},
      (l.Pairwise fun a b => names.idxOf a < names.idxOf b) → l.Nodup := by
    intro l hl
    refine hl.imp ?_
    rintro a _ hlt rfl
    exact lt_irrefl _ hlt
  have hperm : (references.map Reference.name).Perm (references'.map Reference.name) := by
    refine (List.perm_ext_iff_of_nodup (hnodup h.pairwise_map_name)
      (hnodup h'.pairwise_map_name)).mpr fun name => ?_
    rw [h.mem_map_name, h'.mem_map_name]
  have hname : references.map Reference.name = references'.map Reference.name :=
    hperm.eq_of_pairwise (fun _ _ _ _ hlt hgt => absurd hgt (not_lt.mpr hlt.le))
      h.pairwise_map_name h'.pairwise_map_name
  exact eq_of_map_name h.resolved h'.resolved h.numbered h'.numbered hname

/-! ## Tags that leave no trace -/

/-- The second row of tags has one tag more than the first, and that one adds no reference. -/
inductive Repeats (ctx : ResolutionContext) : List String → List String → Prop
  | again {name : String} {before : List String} (h : name ∈ before) (after : List String) :
      Repeats ctx (before ++ after) (before ++ name :: after)
  | unnamed {name : String} (before : List String) (h : ctx.resolve? name = none)
      (after : List String) : Repeats ctx (before ++ after) (before ++ name :: after)

theorem Repeats.counted_eq (h : Repeats ctx names names') :
    counted ctx names = counted ctx names' := by
  cases h with
  | @again name before h after =>
      rw [counted, counted, List.filter_append, List.filter_append]
      cases hname : resolves ctx name with
      | false => rw [List.filter_cons_of_neg (by simp [hname])]
      | true =>
          rw [List.filter_cons_of_pos hname]
          exact (Names.eraseDups_insert (List.mem_filter.mpr ⟨h, hname⟩) _).symm
  | @unnamed name before h after =>
      have hname : resolves ctx name = false := resolves_eq_false_iff.mpr h
      rw [counted, counted, List.filter_append, List.filter_append,
        List.filter_cons_of_neg (by simp [hname])]

theorem resolvePartials_eq_iff :
    resolvePartials ctx names = resolvePartials ctx names' ↔
      counted ctx names = counted ctx names' := by
  constructor
  · intro h
    rw [← map_name_resolvePartials, ← map_name_resolvePartials, h]
  · intro h
    rw [← map_name_resolvePartials, ← map_name_resolvePartials] at h
    exact eq_of_map_name (numbering_resolvePartials ctx names).resolved
      (numbering_resolvePartials ctx names').resolved
      (numbering_resolvePartials ctx names).numbered
      (numbering_resolvePartials ctx names').numbered h

open Relation (EqvGen)

theorem counted_concat {before : List String} (hbefore : counted ctx before = before)
    (hname : resolves ctx name) (hmem : name ∉ before) :
    counted ctx (before ++ [name]) = before ++ [name] := by
  have hfilter : before.filter (resolves ctx) = before := by
    refine List.filter_eq_self.mpr fun n hn => ?_
    rw [← hbefore, mem_counted] at hn
    exact hn.2
  have hdups : before.eraseDups = before := by
    rwa [counted, hfilter] at hbefore
  rw [counted, List.filter_append, hfilter, List.filter_cons_of_pos hname, List.filter_nil,
    List.eraseDups_append, hdups]
  simp [List.removeAll, hmem, List.eraseDups_cons]

/-- Tags that add nothing can be taken out of a row one by one, until only those that count are
left. -/
theorem exists_eqvGen_counted {before : List String} (hbefore : counted ctx before = before)
    (after : List String) :
    ∃ rest, EqvGen (Repeats ctx) (before ++ after) rest ∧ counted ctx rest = rest := by
  induction after generalizing before with
  | nil => exact ⟨before, by rw [List.append_nil]; exact .refl _, hbefore⟩
  | cons name after ih =>
      have hdrop (h : Repeats ctx (before ++ after) (before ++ name :: after)) :
          ∃ rest, EqvGen (Repeats ctx) (before ++ name :: after) rest ∧
            counted ctx rest = rest := by
        obtain ⟨rest, hrest, hcounted⟩ := ih hbefore
        exact ⟨rest, .trans _ _ _ (.symm _ _ (.rel _ _ h)) hrest, hcounted⟩
      by_cases hmem : name ∈ before
      · exact hdrop (.again hmem after)
      · cases hid : ctx.resolve? name with
        | none => exact hdrop (.unnamed before hid after)
        | some id =>
            have hname : resolves ctx name := resolves_iff.mpr ⟨id, hid⟩
            have h := ih (counted_concat hbefore hname hmem)
            rwa [List.append_assoc] at h

theorem counted_eq_of_eqvGen (h : EqvGen (Repeats ctx) names names') :
    counted ctx names = counted ctx names' := by
  induction h with
  | rel _ _ h => exact h.counted_eq
  | refl _ => rfl
  | symm _ _ _ ih => exact ih.symm
  | trans _ _ _ _ _ ih ih' => exact ih.trans ih'

theorem eqvGen_counted (ctx : ResolutionContext) (names : List String) :
    EqvGen (Repeats ctx) names (counted ctx names) := by
  have hnil : counted ctx [] = [] := rfl
  obtain ⟨rest, hrest, hcounted⟩ := exists_eqvGen_counted hnil names
  rw [List.nil_append] at hrest
  rwa [counted_eq_of_eqvGen hrest, hcounted]

/-! ## The references of a template -/

theorem name_of_find? {r : Reference} (h : find? references name = some r) : r.name = name :=
  of_decide_eq_true (List.find?_some (p := fun r : Reference => decide (r.name = name)) h)

theorem find?_eq_some_iff {r : Reference} :
    find? (resolvePartials ctx names) name = some r ↔
      r ∈ resolvePartials ctx names ∧ r.name = name := by
  constructor
  · intro h
    exact ⟨List.mem_of_find?_eq_some h, name_of_find? h⟩
  · rintro ⟨hr, rfl⟩
    have hsome : (find? (resolvePartials ctx names) r.name).isSome :=
      List.find?_isSome.mpr ⟨r, hr, decide_eq_true rfl⟩
    obtain ⟨r', hr'⟩ := Option.isSome_iff_exists.mp hsome
    rw [hr', eq_of_name (List.mem_of_find?_eq_some hr') hr (name_of_find? hr')]

theorem isSome_find?_iff :
    (find? (resolvePartials ctx names) name).isSome ↔ name ∈ names ∧ resolves ctx name := by
  rw [← (numbering_resolvePartials ctx names).named, Option.isSome_iff_exists]
  simp only [find?_eq_some_iff]

/-- The references of a template are the numbering of its tags, the only one there is.  A name is
found among them exactly if it is the name of a tag and has an identifier, and what is found is the
reference of that name.  Other tags have the same references exactly if they differ by tags that
repeat a name in front of them or have a name without an identifier, put in or taken out
anywhere. -/
theorem resolvePartials_numbers_first_occurrences (ctx : ResolutionContext)
    (names : List String) :
    (∀ references, references = resolvePartials ctx names ↔ Numbering ctx names references) ∧
    (∀ name, (find? (resolvePartials ctx names) name).isSome ↔
      name ∈ names ∧ ∃ id, ctx.resolve? name = some id) ∧
    (∀ name r, find? (resolvePartials ctx names) name = some r ↔
      r ∈ resolvePartials ctx names ∧ r.name = name) ∧
    (∀ names', resolvePartials ctx names' = resolvePartials ctx names ↔
      EqvGen (Repeats ctx) names' names) := by
  refine ⟨?_, ?_, fun name r => find?_eq_some_iff, ?_⟩
  · intro references
    constructor
    · rintro rfl
      exact numbering_resolvePartials ctx names
    · exact fun h => h.unique (numbering_resolvePartials ctx names)
  · intro name
    rw [isSome_find?_iff, resolves_iff]
  · intro names'
    rw [resolvePartials_eq_iff]
    constructor
    · intro h
      have hback := (eqvGen_counted ctx names).symm
      rw [← h] at hback
      exact (eqvGen_counted ctx names').trans _ _ _ hback
    · exact counted_eq_of_eqvGen

/-- The numbers stay without a gap where a local name is passed over. -/
example : resolvePartials { localPartials := .runtime } ["x/a", "local", "x/a", "x/b"] =
    [⟨"x/a", "x/a", 1⟩, ⟨"x/b", "x/b", 2⟩] := by decide

end Stencil.Reference
