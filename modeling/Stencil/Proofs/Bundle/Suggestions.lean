/-
Suggestions.

Where an identifier has no definition, the closest ones that have are suggested: they are ranked by
their distances from what was asked for and then by themselves, and of those within a limit the
first few are taken.  What is taken does not depend on how the definitions got there, and there is
no other list of which the same can be said.

The limit is half of the number of bytes of what was asked for, while the distance counts
characters.  So of an identifier that is not plain ASCII even one with no character in common can be
suggested.  A lower limit cuts the list off further ahead, so those that are within half of the
number of characters stand in front of the others.
-/
import Mathlib
import Stencil.Proofs.Build.Definition
import Stencil.Proofs.Bundle.Registry
import Stencil.Proofs.Text.Distance

namespace Stencil.Bundle

variable {b b' : Bundle} {asked key : String} {ids listed listed' : List String}
  {limit limit' : Nat}

/-! ## The closest identifiers -/

/-- How far an identifier is from the one that was asked for. -/
def distanceFrom (asked id : String) : Nat := Text.editDistance asked.toList id.toList

/-- The rank of an identifier among those that may be suggested. -/
def rank (asked id : String) : Nat ×ₗ String := toLex (distanceFrom asked id, id)

/-- The identifiers to suggest of those that are known, where none may be further away than a
limit. -/
structure Closest (ids : List String) (asked : String) (limit : Nat) (listed : List String) :
    Prop where
  known : ∀ id ∈ listed, id ∈ ids
  near : ∀ id ∈ listed, distanceFrom asked id ≤ limit
  ranked : listed.Pairwise fun a c => rank asked a < rank asked c
  length_le : listed.length ≤ maxSuggestions
  /-- What is near enough and yet left out stands behind a full list. -/
  leftOut : ∀ id ∈ ids, distanceFrom asked id ≤ limit → id ∉ listed →
    listed.length = maxSuggestions ∧ ∀ a ∈ listed, rank asked a < rank asked id

theorem Closest.nodup (h : Closest ids asked limit listed) : listed.Nodup :=
  h.ranked.imp fun hlt heq => hlt.ne (congrArg _ heq)

/-- What one list has and another one does not has left no room for what only the other one has. -/
theorem Closest.subset (h : Closest ids asked limit listed)
    (h' : Closest ids asked limit listed') : listed ⊆ listed' := by
  intro id hid
  by_contra hout
  obtain ⟨hfull, hbehind⟩ := h'.leftOut id (h.known id hid) (h.near id hid) hout
  -- The other list is full, so it has something that this one has no room for.
  have hother : ∃ a ∈ listed', a ∉ listed := by
    by_contra hnone
    have hall : ∀ a ∈ listed', a ∈ listed := fun a ha => by_contra fun haout => hnone ⟨a, ha, haout⟩
    have hcons : (id :: listed').Nodup := List.nodup_cons.mpr ⟨hout, h'.nodup⟩
    have hsub : id :: listed' ⊆ listed := List.cons_subset.mpr ⟨hid, hall⟩
    have hlength := (hcons.subperm hsub).length_le
    have hroom := h.length_le
    rw [List.length_cons] at hlength
    omega
  obtain ⟨a, ha, haout⟩ := hother
  obtain ⟨-, hahead⟩ := h.leftOut a (h'.known a ha) (h'.near a ha) haout
  exact lt_asymm (hbehind a ha) (hahead id hid)

/-- There is only one list of the closest identifiers. -/
theorem Closest.unique (h : Closest ids asked limit listed)
    (h' : Closest ids asked limit listed') : listed = listed' := by
  have hperm : listed.Perm listed' :=
    (List.perm_ext_iff_of_nodup h.nodup h'.nodup).mpr fun _ =>
      ⟨fun hid => h.subset h' hid, fun hid => h'.subset h hid⟩
  exact hperm.eq_of_pairwise (fun a c _ _ hac hca => absurd hca hac.asymm) h.ranked h'.ranked

/-- With a lower limit the list ends where the identifiers are too far away. -/
theorem Closest.filter (h : Closest ids asked limit listed) (hle : limit' ≤ limit) :
    Closest ids asked limit' (listed.filter fun id => distanceFrom asked id ≤ limit') := by
  refine ⟨fun id hid => h.known id (List.mem_of_mem_filter hid),
    fun id hid => by simpa using List.of_mem_filter hid, h.ranked.filter _,
    (List.length_filter_le _ _).trans h.length_le, fun id hid hnear hout => ?_⟩
  have hout' : id ∉ listed := fun hmem => hout (List.mem_filter.mpr ⟨hmem, by simpa using hnear⟩)
  obtain ⟨hfull, hahead⟩ := h.leftOut id hid (hnear.trans hle) hout'
  have hall : (listed.filter fun id => distanceFrom asked id ≤ limit') = listed := by
    refine List.filter_eq_self.mpr fun a ha => ?_
    have hdistance : distanceFrom asked a ≤ distanceFrom asked id :=
      Prod.Lex.monotone_fst _ _ (hahead a ha).le
    simpa using hdistance.trans hnear
  rw [hall]
  exact ⟨hfull, hahead⟩

/-! ## Suggestions are the closest identifiers -/

theorem closer_iff (a c : Nat × String) : closer a c ↔ toLex a ≤ toLex c := by
  rw [Prod.Lex.toLex_le_toLex]
  simp [closer]

/-- The known identifiers in the order of their ranks. -/
def byRank (asked : String) (ids : List String) : List String :=
  ids.mergeSort fun a c => rank asked a ≤ rank asked c

theorem suggestions_eq (b : Bundle) (asked : String) :
    b.suggestions asked = ((byRank asked b.ids).filter fun id =>
      distanceFrom asked id ≤ asked.utf8ByteSize * tolerance / 100).take maxSuggestions := by
  have hsort : (b.ids.map fun id => (distanceFrom asked id, id)).mergeSort closer =
      (byRank asked b.ids).map fun id => (distanceFrom asked id, id) := by
    refine (List.map_mergeSort fun a _ c _ => ?_).symm
    rw [Bool.eq_iff_iff, closer_iff, decide_eq_true_iff]
    rfl
  have hscored : b.suggestions asked =
      ((((b.ids.map fun id => (distanceFrom asked id, id)).mergeSort closer).filter
        fun candidate => decide (candidate.1 ≤ asked.utf8ByteSize * tolerance / 100)).take
          maxSuggestions).map Prod.snd := rfl
  have hsnd : Prod.snd ∘ (fun id => (distanceFrom asked id, id)) = id := rfl
  rw [hscored, hsort, List.filter_map, ← List.map_take, List.map_map, hsnd, List.map_id]
  rfl

theorem pairwise_byRank (hids : ids.Nodup) (asked : String) :
    (byRank asked ids).Pairwise fun a c => rank asked a < rank asked c := by
  have hsorted : (byRank asked ids).Pairwise fun a c => rank asked a ≤ rank asked c := by
    have h : (byRank asked ids).Pairwise fun a c => decide (rank asked a ≤ rank asked c) =
        true := List.pairwise_mergeSort
      (fun a c e hac hce => by simpa using (of_decide_eq_true hac).trans (of_decide_eq_true hce))
      (fun a c => by simpa using le_total (rank asked a) (rank asked c)) ids
    exact h.imp of_decide_eq_true
  have hnodup : (byRank asked ids).Nodup := (List.mergeSort_perm ids _).nodup_iff.mpr hids
  refine hsorted.imp₂ (fun a c hle hne => lt_of_le_of_ne hle fun heq => hne ?_) hnodup
  exact congrArg (fun r => (ofLex r).2) heq

/-- Of identifiers in the order of their ranks the first ones within the limit are the closest. -/
theorem closest_take (hids : ids.Nodup) (asked : String) (limit : Nat) :
    Closest ids asked limit
      (((byRank asked ids).filter fun id => distanceFrom asked id ≤ limit).take
        maxSuggestions) := by
  set near := (byRank asked ids).filter fun id => distanceFrom asked id ≤ limit with hnear
  have hmem (id : String) : id ∈ near ↔ id ∈ ids ∧ distanceFrom asked id ≤ limit := by
    simp [hnear, byRank, List.mem_mergeSort]
  have hranked : near.Pairwise fun a c => rank asked a < rank asked c :=
    (pairwise_byRank hids asked).filter _
  rw [← List.take_append_drop maxSuggestions near, List.pairwise_append] at hranked
  obtain ⟨htaken, -, hahead⟩ := hranked
  refine ⟨fun id hid => ((hmem id).mp (List.mem_of_mem_take hid)).1,
    fun id hid => ((hmem id).mp (List.mem_of_mem_take hid)).2, htaken,
    List.length_take_le _ _, fun id hid hdistance hout => ?_⟩
  have hdrop : id ∈ near.drop maxSuggestions := by
    have hid' := (hmem id).mpr ⟨hid, hdistance⟩
    rw [← List.take_append_drop maxSuggestions near] at hid'
    exact (List.mem_append.mp hid').resolve_left hout
  refine ⟨?_, fun a ha => hahead a ha id hdrop⟩
  have hpos := List.length_pos_of_mem hdrop
  rw [List.length_drop] at hpos
  rw [List.length_take]
  omega

theorem closest_suggestions (hb : Dict.Ascending b.definitions) (asked : String) :
    Closest b.ids asked (asked.utf8ByteSize / 2) (b.suggestions asked) := by
  have hhalf : asked.utf8ByteSize * tolerance / 100 = asked.utf8ByteSize / 2 := by
    rw [tolerance]
    omega
  rw [suggestions_eq, hhalf]
  exact closest_take hb.nodup asked _

/-! ## Loads of unknown identifiers -/

/-- The definitions are in order, and nothing has a module that has no definition. -/
structure Founded (b : Bundle) : Prop where
  ascending : Dict.Ascending b.definitions
  defined : ∀ key m, b.module? key = some m → b.definitions.hasKey key

theorem Founded.grow (h : b.Founded) (hdefinitions : b'.definitions = b.definitions)
    (hgrows : Grows b b') : b'.Founded := by
  refine ⟨hdefinitions ▸ h.ascending, fun key m hm => ?_⟩
  rw [hdefinitions]
  rcases hgrows.built key m hm with hold | ⟨-, d, hd, -⟩
  · exact h.defined key m hold
  · exact Dict.hasKey_iff_exists.mpr ⟨d, hd⟩

theorem Founded.perform (h : b.Founded) (op : Operation) : (b.perform op).Founded := by
  cases op with
  | add text =>
      rw [Bundle.perform]
      cases hd : ModuleDefinition.ofText text with
      | error e =>
          rw [run_add_of_error hd]
          exact h
      | ok d =>
          rw [run_add_of_ok hd]
          refine ⟨h.ascending.insert _ _, fun key m hm => ?_⟩
          rw [Dict.hasKey_iff_mem_keys, Dict.mem_keys_insert, ← Dict.hasKey_iff_mem_keys]
          exact .inr (h.defined key m hm)
  | load id =>
      have hout := load_outcome id b
      exact h.grow hout.definitions hout.grows
  | resolve ids =>
      have hout := loadAll_outcomes ids b
      exact h.grow hout.definitions hout.grows

theorem founded_run (ops : List Operation) : (run {} ops).Founded := by
  induction ops using List.reverseRecOn with
  | nil => exact ⟨Dict.ascending_nil, fun _ _ hm => nomatch hm⟩
  | append_singleton ops op ih =>
      rw [run_concat]
      exact ih.perform op

theorem suggestions_congr (h : b'.definitions = b.definitions) (asked : String) :
    b'.suggestions asked = b.suggestions asked := by
  rw [suggestions, suggestions, ids, ids, h]

/-- A load of an identifier that has no definition fails for that identifier. -/
theorem load_of_not_contains {id : String} (hb : b.Founded) (h : ¬ b.contains id) :
    ((load id).run.run b).1 =
      .error (.moduleNotFound id (b.suggestions (canonicalModuleId id))) := by
  have hnone : (b.lookedUp (canonicalModuleId id)).definitions.get? (canonicalModuleId id) =
      none := by
    simpa [lookedUp, contains, Dict.hasKey] using h
  have hmodule : b.module? (canonicalModuleId id) = none := by
    cases hm : b.module? (canonicalModuleId id) with
    | none => rfl
    | some m => exact absurd (hb.defined _ m hm) h
  rw [run_load, run_loadBelow_of_none _ List.not_mem_nil hmodule, make,
    Activity.run_bind_of_error (run_definition_of_none hnone)]
  rfl

/-- What fails for an unknown identifier failed where it was looked up. -/
theorem FailingPath.unknown {chain path : List String} {id asked : String} {e : Error}
    (h : FailingPath b chain id e path) (he : e = .moduleNotFound asked listed) :
    ¬ b.contains asked ∧ listed = b.suggestions (canonicalModuleId asked) := by
  induction h with
  | cycle _ => cases he
  | missing _ hnone =>
      cases he
      simp [contains, Dict.hasKey, hnone]
  | unusable _ _ _ hmade =>
      rcases ModuleDefinition.error_of_bind_instantiate hmade with ⟨_, _, rfl⟩ | ⟨_, rfl⟩
      · cases he
      · cases he
  | deeper _ _ _ _ _ ih => exact ih he

/-- An identifier was asked for and not found, be it by itself or as a dependency. -/
def Misses (b : Bundle) (asked : String) (listed : List String) : Prop :=
  (∃ id, ((load id).run.run b).1 = .error (.moduleNotFound asked listed)) ∨
    ∃ ids, ((loadAll ids).run.run b).1 = .error (.moduleNotFound asked listed)

theorem Misses.suggestions (h : b.Misses asked listed) :
    ¬ b.contains asked ∧ listed = b.suggestions (canonicalModuleId asked) := by
  have hpath {b' : Bundle} {chain path : List String} {id : String}
      (hdefinitions : b'.definitions = b.definitions)
      (hpath : FailingPath b' chain id (.moduleNotFound asked listed) path) :
      ¬ b.contains asked ∧ listed = b.suggestions (canonicalModuleId asked) := by
    have hunknown := hpath.unknown rfl
    rwa [contains, hdefinitions, suggestions_congr hdefinitions] at hunknown
  rcases h with ⟨id, h⟩ | ⟨ids, h⟩
  · have hout := load_outcome id b
    obtain ⟨path, hfails, -⟩ := hout.error _ h
    exact hpath hout.definitions hfails
  · have hout := loadAll_outcomes ids b
    obtain ⟨-, id, -, path, -, -, hfails, -⟩ := hout.error _ h
    exact hpath hout.definitions hfails

/-! ## Bytes and characters -/

theorem length_le_utf8ByteSize (s : String) : s.length ≤ s.utf8ByteSize := by
  rw [← String.length_toList, ← String.utf8Len_toList]
  induction s.toList with
  | nil => exact Nat.le_refl 0
  | cons c cs ih =>
      have hpos := c.utf8Size_pos
      rw [List.length_cons, String.utf8Len_cons]
      omega

theorem utf8ByteSize_of_ascii {s : String} (h : ∀ c ∈ s.toList, c.utf8Size = 1) :
    s.utf8ByteSize = s.length := by
  rw [← String.length_toList, ← String.utf8Len_toList]
  generalize s.toList = cs at h ⊢
  induction cs with
  | nil => rfl
  | cons c cs ih =>
      have hc := h c List.mem_cons_self
      have hcs := ih fun d hd => h d (List.mem_cons_of_mem c hd)
      rw [List.length_cons, String.utf8Len_cons, hcs, hc]

/-! ## Result -/

/-- In every state that a bundle gets into, whatever it was used for.  An identifier without a
definition is not found, and whatever is not found, be it a dependency of what was asked for, has no
definition.  What is suggested for it are the closest identifiers within half of the number of
bytes of its canonical form.  The closest ones within half of the number of characters are those of
them that are near enough; so these are what is suggested exactly if no suggestion is further away,
as for every identifier in ASCII. -/
theorem suggestions_of_run (ops : List Operation) :
    (∀ key id, IsLeast {n | Text.Edits n key.toList id.toList} (distanceFrom key id)) ∧
    (∀ id, ¬ (run {} ops).contains id → ∃ listed, (run {} ops).Misses id listed) ∧
    ∀ asked listed, (run {} ops).Misses asked listed → ¬ (run {} ops).contains asked ∧
      ∀ key, key = canonicalModuleId asked →
        Closest (run {} ops).ids key (key.utf8ByteSize / 2) listed ∧ listed.Nodup ∧
        (∀ fair, Closest (run {} ops).ids key (key.length / 2) fair ↔
          fair = listed.filter fun id => distanceFrom key id ≤ key.length / 2) ∧
        (Closest (run {} ops).ids key (key.length / 2) listed ↔
          ∀ id ∈ listed, distanceFrom key id ≤ key.length / 2) ∧
        ((∀ c ∈ key.toList, c.utf8Size = 1) →
          Closest (run {} ops).ids key (key.length / 2) listed) := by
  have hb := founded_run ops
  refine ⟨fun key id => Text.isLeast_editDistance _ _,
    fun id h => ⟨_, .inl ⟨id, load_of_not_contains hb h⟩⟩, fun asked listed h => ?_⟩
  obtain ⟨hunknown, rfl⟩ := h.suggestions
  refine ⟨hunknown, fun key hkey => ?_⟩
  subst hkey
  have hclosest := closest_suggestions hb.ascending (canonicalModuleId asked)
  have hfair := hclosest.filter
    (Nat.div_le_div_right (c := 2) (length_le_utf8ByteSize (canonicalModuleId asked)))
  refine ⟨hclosest, hclosest.nodup, fun fair => ⟨fun h => h.unique hfair, ?_⟩,
    ⟨fun h => h.near, ?_⟩, fun hascii => ?_⟩
  · rintro rfl
    exact hfair
  · intro hnear
    rwa [List.filter_eq_self.mpr (by simpa using hnear)] at hfair
  · rwa [utf8ByteSize_of_ascii hascii] at hclosest

/-- A bundle with one module. -/
def homeBundle : Bundle := run {} [.add (ModuleText.write "hgn" ⟨"home", "H", {}, []⟩)]

theorem ids_homeBundle : homeBundle.ids = ["hgn!home"] := by decide +kernel

theorem founded_homeBundle : homeBundle.Founded := founded_run _

theorem suggestions_homeBundle : homeBundle.suggestions "hgn!日本" = ["hgn!home"] := by
  refine (closest_suggestions founded_homeBundle.ascending _).unique ?_
  rw [ids_homeBundle]
  exact ⟨fun _ h => h, by decide, List.pairwise_singleton _ _, by decide,
    fun _ h _ hout => absurd h hout⟩

theorem load_homeBundle : ((load "hgn!日本").run.run homeBundle).1 =
    .error (.moduleNotFound "hgn!日本" ["hgn!home"]) := by
  have hkey : canonicalModuleId "hgn!日本" = "hgn!日本" := by decide
  have hunknown : ¬ homeBundle.contains "hgn!日本" := by
    rw [contains, Dict.hasKey_iff_mem_keys, ← ids, ids_homeBundle, hkey]
    decide
  have hload := load_of_not_contains founded_homeBundle hunknown
  rwa [hkey, suggestions_homeBundle] at hload

/-- The module is within half of the bytes of what was asked for, and nothing is within half of the
characters. -/
theorem suggestions_of_run_home :
    homeBundle.Misses "hgn!日本" ["hgn!home"] ∧
      Closest ["hgn!home"] "hgn!日本" 5 ["hgn!home"] ∧
      ∀ fair, Closest ["hgn!home"] "hgn!日本" 3 fair ↔ fair = [] := by
  have hmisses : homeBundle.Misses "hgn!日本" ["hgn!home"] := .inl ⟨_, load_homeBundle⟩
  obtain ⟨-, -, hlisted⟩ := suggestions_of_run [.add (ModuleText.write "hgn" ⟨"home", "H", {}, []⟩)]
  obtain ⟨-, hclosest⟩ := hlisted _ _ hmisses
  obtain ⟨hbytes, -, hfair, -⟩ := hclosest "hgn!日本" (by decide)
  have hnone : (["hgn!home"].filter fun id =>
      distanceFrom "hgn!日本" id ≤ "hgn!日本".length / 2) = [] := by decide
  rw [hnone, ← homeBundle, ids_homeBundle] at hfair
  rw [← homeBundle, ids_homeBundle] at hbytes
  exact ⟨hmisses, hbytes, hfair⟩

/-- With the plugin and two characters in another script asked for, a module is suggested of whose
name no character is right, further away than half of the characters. -/
theorem load_suggests_distant :
    ((load "hgn!日本").run.run homeBundle).1 =
        .error (.moduleNotFound "hgn!日本" ["hgn!home"]) ∧
      canonicalModuleId "hgn!日本" = "hgn!日本" ∧
      ¬ Closest homeBundle.ids "hgn!日本" ("hgn!日本".length / 2) ["hgn!home"] := by
  refine ⟨load_homeBundle, by decide, fun h => ?_⟩
  have hfar : ¬ distanceFrom "hgn!日本" "hgn!home" ≤ "hgn!日本".length / 2 := by decide
  exact hfar (h.near _ List.mem_cons_self)

end Stencil.Bundle
