/-
The references of a template.

References are found one tag at a time.  What is found so far bears the names of tags, each name
once, with the identifier that the name resolves to, and is numbered in the order in which it was
found; meeting one more tag keeps it so.
-/
import Mathlib
import Stencil.Reference

namespace Stencil.Reference

/-- What holds of the names met and the references found so far. -/
structure Sound (ctx : ResolutionContext) (state : List String × List Reference) : Prop where
  met : ∀ r ∈ state.2, r.name ∈ state.1
  resolved : ∀ r ∈ state.2, ctx.resolve? r.name = some r.canonicalId
  nodup : (state.2.map Reference.name).Nodup
  numbered : state.2.map Reference.order = List.range' 1 state.2.length

variable {ctx : ResolutionContext}

theorem sound_nil : Sound ctx ([], []) where
  met _ h := nomatch h
  resolved _ h := nomatch h
  nodup := List.nodup_nil
  numbered := rfl

theorem sound_meet {state : List String × List Reference} (h : Sound ctx state) (name : String) :
    Sound ctx (meet ctx state name) := by
  obtain ⟨met, found⟩ := state
  rw [meet]
  split
  · exact h
  next hname =>
    split
    next id hid =>
      refine ⟨fun r hr => ?_, fun r hr => ?_, ?_, ?_⟩
      · rcases List.mem_append.mp hr with hr | hr
        · exact List.mem_cons_of_mem _ (h.met r hr)
        · rw [List.mem_singleton.mp hr]
          exact List.mem_cons_self
      · rcases List.mem_append.mp hr with hr | hr
        · exact h.resolved r hr
        · rw [List.mem_singleton.mp hr]
          exact hid
      · rw [List.map_append, List.nodup_append]
        refine ⟨h.nodup, List.nodup_singleton _, ?_⟩
        intro a ha b hb heq
        obtain ⟨r, hr, rfl⟩ := List.mem_map.mp ha
        rw [List.map_singleton, List.mem_singleton] at hb
        have hmet : r.name ∈ met := h.met r hr
        rw [heq, hb] at hmet
        exact hname hmet
      · rw [List.map_append, h.numbered, List.length_append, List.map_singleton,
          List.length_singleton, List.range'_concat]
        simp [Nat.add_comm]
    next _ =>
      exact ⟨fun r hr => List.mem_cons_of_mem _ (h.met r hr), h.resolved, h.nodup, h.numbered⟩

theorem sound_foldl {state : List String × List Reference} (h : Sound ctx state)
    (names : List String) : Sound ctx (names.foldl (meet ctx) state) := by
  induction names generalizing state with
  | nil => exact h
  | cons name names ih => exact ih (sound_meet h name)

theorem sound_resolvePartials (ctx : ResolutionContext) (names : List String) :
    Sound ctx ((names.foldl (meet ctx) ([], [])).1, resolvePartials ctx names) :=
  sound_foldl sound_nil names

/-! ## The names met -/

theorem mem_met_meet_iff (state : List String × List Reference) (name : String) {n : String} :
    n ∈ (meet ctx state name).1 ↔ n = name ∨ n ∈ state.1 := by
  obtain ⟨met, found⟩ := state
  rw [meet]
  split
  next hname =>
    refine ⟨.inr, ?_⟩
    rintro (rfl | hn)
    · exact hname
    · exact hn
  next => split <;> exact List.mem_cons

theorem mem_met_foldl_iff (state : List String × List Reference) (names : List String)
    {n : String} : n ∈ (names.foldl (meet ctx) state).1 ↔ n ∈ names ∨ n ∈ state.1 := by
  induction names generalizing state with
  | nil => simp
  | cons name names ih =>
      rw [List.foldl_cons, ih, mem_met_meet_iff, List.mem_cons, or_left_comm, or_assoc]

/-- A reference bears the name of a tag and the identifier that the name resolves to. -/
theorem mem_resolvePartials {names : List String} {r : Reference}
    (h : r ∈ resolvePartials ctx names) :
    r.name ∈ names ∧ ctx.resolve? r.name = some r.canonicalId := by
  refine ⟨?_, (sound_resolvePartials ctx names).resolved r h⟩
  have hmet := (mem_met_foldl_iff _ names).mp ((sound_resolvePartials ctx names).met r h)
  exact hmet.resolve_right List.not_mem_nil

/-- What was found stays in front when more tags are met. -/
theorem found_prefix_foldl (ctx : ResolutionContext) (state : List String × List Reference)
    (names : List String) : state.2 <+: (names.foldl (meet ctx) state).2 := by
  induction names generalizing state with
  | nil => exact List.prefix_rfl
  | cons name names ih =>
      refine List.IsPrefix.trans ?_ (ih _)
      rw [meet]
      split
      · exact List.prefix_rfl
      · split
        · exact List.prefix_append _ _
        · exact List.prefix_rfl

/-- The first tag has the first reference if its name resolves. -/
theorem exists_resolvePartials_cons {name id : String} (h : ctx.resolve? name = some id)
    (names : List String) :
    ∃ rest, resolvePartials ctx (name :: names) = ⟨name, id, 1⟩ :: rest := by
  obtain ⟨rest, hrest⟩ := found_prefix_foldl ctx (meet ctx ([], []) name) names
  refine ⟨rest, ?_⟩
  rw [resolvePartials, List.foldl_cons, ← hrest, meet, if_neg List.not_mem_nil, h]
  rfl

/-! ## Every name that resolves -/

/-- Every name met that resolves has a reference. -/
def Complete (ctx : ResolutionContext) (state : List String × List Reference) : Prop :=
  ∀ n ∈ state.1, (ctx.resolve? n).isSome → ∃ r ∈ state.2, r.name = n

theorem complete_meet {state : List String × List Reference} (h : Complete ctx state)
    (name : String) : Complete ctx (meet ctx state name) := by
  obtain ⟨met, found⟩ := state
  rw [meet]
  split
  · exact h
  next =>
    split
    next id _ =>
      intro n hn hresolves
      rcases List.mem_cons.mp hn with rfl | hn
      · exact ⟨_, List.mem_append_right _ (List.mem_singleton_self _), rfl⟩
      · obtain ⟨r, hr, hname⟩ := h n hn hresolves
        exact ⟨r, List.mem_append_left _ hr, hname⟩
    next hnone =>
      intro n hn hresolves
      rcases List.mem_cons.mp hn with rfl | hn
      · rw [hnone] at hresolves
        cases hresolves
      · exact h n hn hresolves

theorem complete_foldl {state : List String × List Reference} (h : Complete ctx state)
    (names : List String) : Complete ctx (names.foldl (meet ctx) state) := by
  induction names generalizing state with
  | nil => exact h
  | cons name names ih => exact ih (complete_meet h name)

/-- A tag whose name resolves has a reference. -/
theorem exists_mem_resolvePartials {names : List String} {name id : String} (hname : name ∈ names)
    (hid : ctx.resolve? name = some id) : ∃ r ∈ resolvePartials ctx names, r.name = name := by
  have hstart : Complete ctx ([], []) := fun _ hn => nomatch hn
  exact complete_foldl hstart names name ((mem_met_foldl_iff _ names).mpr (.inl hname))
    (by rw [hid]; rfl)

/-- No two references of a template have the same name. -/
theorem eq_of_name {names : List String} {r r' : Reference} (hr : r ∈ resolvePartials ctx names)
    (hr' : r' ∈ resolvePartials ctx names) (h : r.name = r'.name) : r = r' :=
  List.inj_on_of_nodup_map (sound_resolvePartials ctx names).nodup hr hr' h

/-! ## Identifiers -/

/-- A name resolves to itself, behind the directory of its template or behind the prefix. -/
theorem resolve?_cases {name id : String} (h : ctx.resolve? name = some id) :
    (name.toList.head? = some '.' ∧ id = ctx.basePath ++ name) ∨ id = name ∨
      ∃ start, ctx.pathPrefix = some start ∧ id = start ++ name := by
  unfold ResolutionContext.resolve? at h
  by_cases hpath : Text.contains ctx.delimiter.toList name.toList
  · rw [if_pos hpath] at h
    by_cases hdot : name.toList.head? = some '.'
    · rw [if_pos hdot] at h
      cases h
      exact .inl ⟨hdot, rfl⟩
    · rw [if_neg hdot] at h
      cases hahead : ctx.pathPrefix with
      | none =>
          rw [hahead] at h
          cases h
          exact .inr (.inl rfl)
      | some start =>
          rw [hahead] at h
          dsimp only at h
          split at h
          · cases h
            exact .inr (.inl rfl)
          · cases h
            exact .inr (.inr ⟨start, rfl, rfl⟩)
  · rw [if_neg hpath] at h
    cases hlocal : ctx.localPartials with
    | load =>
        rw [hlocal] at h
        cases h
        exact .inr (.inl rfl)
    | runtime =>
        rw [hlocal] at h
        cases h

/-- An absolute name is its own identifier. -/
theorem resolve?_of_isAbsolute {name id : String} (hname : Path.isAbsolute name.toList)
    (h : ctx.resolve? name = some id) : id = name := by
  have hdot : name.toList.head? ≠ some '.' := by
    rw [beq_iff_eq.mp hname]
    decide
  simp only [ResolutionContext.resolve?, hdot, hname, if_true, if_false] at h
  split at h
  · split at h <;> exact (Option.some.inj h).symm
  · split at h
    · exact (Option.some.inj h).symm
    · cases h

end Stencil.Reference
