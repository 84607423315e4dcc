/-
The registry of a bundle.

A bundle makes one module for each canonical identifier, from the definition that it has when the
module is asked for, and keeps it.  A definition that is added later, in place of the old one, finds
its way into no module that is there already, so what a module was made from may be gone.  Still, it
is bound to the very modules that are kept under the identifiers of its dependencies: they were kept
when it was made, and nothing that is kept is ever replaced.

A load keeps the identifiers on its chain out of the registry until all that is below them is made.
So a load that fails has made no module on the way to the failure.
-/
import Mathlib
import Stencil.Proofs.Bundle
import Stencil.Proofs.Loader.Registry
import Stencil.Proofs.Path.Lengthening

namespace Stencil

/-! ## Spellings -/

namespace Path

variable {p q : List Char}

end Path

example : canonicalModuleId "hgn!./a//b/../c" = canonicalModuleId "hgn!a/c" := by decide

/-! ## Making a module -/

/-- If no pair gets lost in a dictionary, no two of them have the same key. -/
theorem Dict.nodup_of_length_ofPairs {α : Type} {pairs : List (String × α)}
    (h : (ofPairs pairs).length = pairs.length) : (keys pairs).Nodup := by
  have hsub : keys (ofPairs pairs) ⊆ keys pairs := by
    intro key hkey
    by_contra hnone
    rw [← hasKey_iff_mem_keys, hasKey, get?_ofPairs] at hkey
    have hreverse : key ∉ keys pairs.reverse := by
      rwa [keys, List.map_reverse, List.mem_reverse]
    rw [get?_eq_none_iff.mpr hreverse] at hkey
    cases hkey
  have hperm := ((ascending_ofPairs pairs).nodup.subperm hsub).perm_of_length_le (by
    rw [keys, keys, List.length_map, List.length_map, h])
  exact hperm.nodup_iff.mp (ascending_ofPairs pairs).nodup

namespace ModuleDefinition

/-- What is instantiated has what was found under the names of the dependencies, each of which has
a name of its own. -/
theorem exists_of_bind_instantiate {α : Type} {d : ModuleDefinition} {found : List α} {t : Template}
    {p : Dict α} (h : d.bind found >>= d.instantiate = .ok (t, p)) :
    (d.dependencies.map (·.name)).Nodup ∧
      p = Dict.ofPairs ((d.dependencies.map (·.name)).zip found) ∧
      Template.compile d.templateName d.body d.options = .ok t := by
  obtain ⟨pairs, hpairs, h⟩ := Activity.bind_eq_ok.mp h
  rw [bind] at hpairs
  split at hpairs
  next hlength =>
    cases hpairs
    have hkeys : Dict.keys ((d.dependencies.map (·.name)).zip found) =
        d.dependencies.map (·.name) := List.map_fst_zip (by rw [List.length_map, hlength])
    rw [instantiate] at h
    dsimp only at h
    split at h
    next _ => cases h
    next hgood =>
      obtain ⟨t', ht', h⟩ := Activity.bind_eq_ok.mp h
      cases h
      refine ⟨?_, rfl, ht'⟩
      rw [not_or, not_or, not_not, not_not] at hgood
      rw [← hkeys]
      exact Dict.nodup_of_length_ofPairs hgood.2.1
  next _ => cases hpairs

end ModuleDefinition

namespace Bundle

variable {b b' b'' : Bundle} {chain : List String} {id key : String} {d : ModuleDefinition}
  {m : Module} {found : List Module} {t : Template} {p : Dict Module}

/-- A module was made from a definition: its template is compiled from the body, and under the name
of each dependency, and no other, it has the module that is kept under the identifier. -/
structure BuiltFrom (b : Bundle) (d : ModuleDefinition) (m : Module) : Prop where
  template : Template.compile d.templateName d.body d.options = .ok m.template
  names : ∀ name, m.partials.hasKey name ↔ ∃ entry ∈ d.dependencies, entry.name = name
  bound : ∀ entry ∈ d.dependencies, ∃ p, m.partials.get? entry.name = some p ∧
    b.module? (canonicalModuleId entry.id) = some p

/-- The numbers tell all modules apart that are kept. -/
structure Numbered (b : Bundle) : Prop where
  serial_lt : ∀ key m, b.module? key = some m → m.serial < b.made
  serial_injective : ∀ key key' m m', b.module? key = some m → b.module? key' = some m' →
    m.serial = m'.serial → key = key'

/-- A later state of a bundle: what was kept is still there, and what is new was made from the
definitions that there were. -/
structure Grows (b b' : Bundle) : Prop where
  modules : ∀ key m, b.module? key = some m → b'.module? key = some m
  built : ∀ key m, b'.module? key = some m → b.module? key = some m ∨
    b.module? key = none ∧ ∃ d, b.definitions.get? key = some d ∧ b'.BuiltFrom d m
  numbered : b.Numbered → b'.Numbered

theorem BuiltFrom.mono (h : b.BuiltFrom d m)
    (hmodules : ∀ key m, b.module? key = some m → b'.module? key = some m) :
    b'.BuiltFrom d m := by
  refine ⟨h.template, h.names, fun entry hentry => ?_⟩
  obtain ⟨p, hp, hkept⟩ := h.bound entry hentry
  exact ⟨p, hp, hmodules _ _ hkept⟩

/-- What is kept goes by the registry and the count alone. -/
theorem Grows.of_eq (hmodules : ∀ key, b'.module? key = b.module? key) (hmade : b'.made = b.made) :
    Grows b b' := by
  refine ⟨fun key m hm => (hmodules key).trans hm,
    fun key m hm => .inl ((hmodules key).symm.trans hm),
    fun h => ⟨fun key m hm => ?_, fun key key' m m' hm hm' hserial => ?_⟩⟩
  · rw [hmodules] at hm
    rw [hmade]
    exact h.serial_lt key m hm
  · rw [hmodules] at hm hm'
    exact h.serial_injective key key' m m' hm hm' hserial

theorem Grows.refl : Grows b b := .of_eq (fun _ => rfl) rfl

theorem Grows.trans (h : Grows b b') (hdefinitions : b'.definitions = b.definitions)
    (h' : Grows b' b'') : Grows b b'' := by
  refine ⟨fun key m hm => h'.modules key m (h.modules key m hm), fun key m hm => ?_,
    fun hb => h'.numbered (h.numbered hb)⟩
  rcases h'.built key m hm with hm' | ⟨hnone, d, hd, hbuilt⟩
  · rcases h.built key m hm' with hold | ⟨hnone, d, hd, hbuilt⟩
    · exact .inl hold
    · exact .inr ⟨hnone, d, hd, hbuilt.mono h'.modules⟩
  · refine .inr ⟨?_, d, hdefinitions ▸ hd, hbuilt⟩
    cases hold : b.module? key with
    | none => rfl
    | some m' =>
        rw [h.modules key m' hold] at hnone
        cases hnone

theorem module?_lookedUp (b : Bundle) (key key' : String) :
    (b.lookedUp key).module? key' = b.module? key' := by
  rw [module?, lookedUp, Cache.entries_find]
  rfl

theorem grows_lookedUp (b : Bundle) (key : String) : Grows b (b.lookedUp key) :=
  .of_eq (module?_lookedUp b key) rfl

theorem module?_kept (hnone : b.module? key = none) (m : Module) (key' : String) :
    (b.kept key m).module? key' = if key = key' then some m else b.module? key' := by
  rw [module?, kept, Cache.keep_of_none hnone, Dict.get?_insert]
  rfl

theorem modules_kept (hnone : b.module? key = none) (m : Module) {key' : String} {m' : Module}
    (hm' : b.module? key' = some m') : (b.kept key m).module? key' = some m' := by
  have hne : key ≠ key' := by
    rintro rfl
    rw [hnone] at hm'
    cases hm'
  rw [module?_kept hnone, if_neg hne]
  exact hm'

/-- What is made of a definition and the modules kept for its dependencies is bound to them. -/
theorem builtFrom_kept (hnone : b.module? key = none)
    (hfound : List.Forall₂ (fun id m => b.module? (canonicalModuleId id) = some m)
      d.dependencyIds found)
    (h : d.bind found >>= d.instantiate = .ok (t, p)) :
    (b.kept key (.mk b.made t p)).BuiltFrom d (.mk b.made t p) := by
  obtain ⟨hnodup, rfl, ht⟩ := ModuleDefinition.exists_of_bind_instantiate h
  replace hfound := List.forall₂_map_left_iff.mp hfound
  have hkeys : Dict.keys ((d.dependencies.map (·.name)).zip found) = d.dependencies.map (·.name) :=
    List.map_fst_zip (by rw [List.length_map, hfound.length_eq])
  refine ⟨ht, fun name => ?_, fun entry hentry => ?_⟩
  · show (Dict.ofPairs _).hasKey name ↔ _
    rw [Dict.hasKey_iff_mem_keys, Dict.mem_keys_ofPairs (by rwa [hkeys]), hkeys, List.mem_map]
  · obtain ⟨p, hp, hkept⟩ := Dict.exists_get?_ofPairs_zip hnodup hfound hentry
    exact ⟨p, hp, modules_kept hnone _ hkept⟩

theorem Numbered.kept (h : b.Numbered) (hnone : b.module? key = none) (t : Template)
    (p : Dict Module) : (b.kept key (.mk b.made t p)).Numbered := by
  have hcases : ∀ k m, (b.kept key (.mk b.made t p)).module? k = some m →
      key = k ∧ m.serial = b.made ∨ b.module? k = some m := by
    intro k m hm
    rw [module?_kept hnone] at hm
    split at hm
    next hk =>
      cases hm
      exact .inl ⟨hk, rfl⟩
    next _ => exact .inr hm
  refine ⟨fun k m hm => ?_, fun k k' m m' hm hm' hserial => ?_⟩
  · rcases hcases k m hm with ⟨-, hserial⟩ | hm
    · show m.serial < b.made + 1
      rw [hserial]
      exact Nat.lt_succ_self _
    · exact Nat.lt_succ_of_lt (h.serial_lt k m hm)
  · rcases hcases k m hm with ⟨rfl, hnew⟩ | hm
    · rcases hcases k' m' hm' with ⟨rfl, -⟩ | hm'
      · rfl
      · exact absurd (hserial.symm.trans hnew) (Nat.ne_of_lt (h.serial_lt k' m' hm'))
    · rcases hcases k' m' hm' with ⟨rfl, hnew⟩ | hm'
      · exact absurd (hserial.trans hnew) (Nat.ne_of_lt (h.serial_lt k m hm))
      · exact h.serial_injective k k' m m' hm hm' hserial

theorem grows_kept (hnone : b.module? key = none) (hd : b.definitions.get? key = some d)
    (hfound : List.Forall₂ (fun id m => b.module? (canonicalModuleId id) = some m)
      d.dependencyIds found)
    (h : d.bind found >>= d.instantiate = .ok (t, p)) :
    Grows b (b.kept key (.mk b.made t p)) := by
  refine ⟨fun k m hm => modules_kept hnone _ hm, fun k m hm => ?_, fun hb => hb.kept hnone t p⟩
  rw [module?_kept hnone] at hm
  split at hm
  next hk =>
    cases hk
    cases hm
    exact .inr ⟨hnone, d, hd, builtFrom_kept hnone hfound h⟩
  next _ => exact .inl hm

/-! ## Loads -/

/-- The way down to what a load failed for, from an identifier that was met on the way down from
those in a chain.  It ends at an identifier on its own chain, at one without a definition, or at one
whose definition gives no module.  The dependencies in front of it were loaded. -/
inductive FailingPath (b : Bundle) : List String → String → Error → List String → Prop
  | cycle {chain : List String} {id : String} (hkey : canonicalModuleId id ∈ chain) :
      FailingPath b chain id (.circularPartial (chain ++ [canonicalModuleId id]))
        [canonicalModuleId id]
  | missing {chain : List String} {id : String} (hkey : canonicalModuleId id ∉ chain)
      (hnone : b.definitions.get? (canonicalModuleId id) = none) :
      FailingPath b chain id (.moduleNotFound id (b.suggestions (canonicalModuleId id)))
        [canonicalModuleId id]
  | unusable {chain : List String} {id : String} {d : ModuleDefinition} {found : List Module}
      {e : Error} (hkey : canonicalModuleId id ∉ chain)
      (hd : b.definitions.get? (canonicalModuleId id) = some d)
      (hfound : List.Forall₂ (fun id m => b.module? (canonicalModuleId id) = some m)
        d.dependencyIds found)
      (he : d.bind found >>= d.instantiate = .error e) :
      FailingPath b chain id e [canonicalModuleId id]
  | deeper {chain before after path : List String} {id id' : String} {d : ModuleDefinition}
      {e : Error} (hkey : canonicalModuleId id ∉ chain)
      (hd : b.definitions.get? (canonicalModuleId id) = some d)
      (hids : d.dependencyIds = before ++ id' :: after)
      (hbefore : ∀ a ∈ before, ∃ m, b.module? (canonicalModuleId a) = some m)
      (hpath : FailingPath b (chain ++ [canonicalModuleId id]) id' e path) :
      FailingPath b chain id e (canonicalModuleId id :: path)

/-- The identifiers on the way down to a load: all of them have definitions, none has a module yet,
and none is there twice. -/
structure Way (b : Bundle) (chain : List String) : Prop where
  nodup : chain.Nodup
  defined : ∀ k ∈ chain, k ∈ Dict.keys b.definitions
  unmade : ∀ k ∈ chain, b.module? k = none

theorem way_nil (b : Bundle) : b.Way [] :=
  ⟨List.nodup_nil, List.forall_mem_nil _, List.forall_mem_nil _⟩

theorem Way.length_le (h : b.Way chain) : chain.length ≤ b.definitions.length := by
  have hle := (h.nodup.subperm h.defined).length_le
  rwa [Dict.keys, List.length_map] at hle

theorem Way.snoc (h : b.Way chain) (hkey : key ∉ chain) (hd : b.definitions.get? key = some d)
    (hnone : b.module? key = none) : b.Way (chain ++ [key]) := by
  refine ⟨List.nodup_append.mpr ⟨h.nodup, List.nodup_singleton _, fun a ha c hc => ?_⟩,
    fun k hk => ?_, fun k hk => ?_⟩
  · rw [List.mem_singleton.mp hc]
    rintro rfl
    exact hkey ha
  · rcases List.mem_append.mp hk with hk | hk
    · exact h.defined k hk
    · rw [List.mem_singleton.mp hk]
      exact Dict.mem_keys_of_get?_eq_some hd
  · rcases List.mem_append.mp hk with hk | hk
    · exact h.unmade k hk
    · rw [List.mem_singleton.mp hk]
      exact hnone

/-- What comes of a load on the way down from a chain. -/
structure Outcome (chain : List String) (id : String) (b : Bundle) (r : Except Error Module)
    (b' : Bundle) : Prop where
  definitions : b'.definitions = b.definitions
  grows : Grows b b'
  unmade : ∀ k ∈ chain, b'.module? k = none
  ok : ∀ m, r = .ok m → b'.module? (canonicalModuleId id) = some m
  error : ∀ e, r = .error e → ∃ path, FailingPath b' chain id e path ∧
    ∀ k ∈ path, b'.module? k = none

/-- What comes of several loads, one after another. -/
structure Outcomes (chain ids : List String) (b : Bundle) (r : Except Error (List Module))
    (b' : Bundle) : Prop where
  definitions : b'.definitions = b.definitions
  grows : Grows b b'
  unmade : ∀ k ∈ chain, b'.module? k = none
  ok : ∀ found, r = .ok found →
    List.Forall₂ (fun id m => b'.module? (canonicalModuleId id) = some m) ids found
  error : ∀ e, r = .error e → ∃ before id after path, ids = before ++ id :: after ∧
    (∀ a ∈ before, ∃ m, b'.module? (canonicalModuleId a) = some m) ∧
    FailingPath b' chain id e path ∧ ∀ k ∈ path, b'.module? k = none

theorem Way.of_outcome {r : Except Error Module} (h : b.Way chain)
    (hout : Outcome chain id b r b') : b'.Way chain :=
  ⟨h.nodup, hout.definitions ▸ h.defined, hout.unmade⟩

theorem outcomes_mapM {f : String → Bundling Module} {definitions : Dict ModuleDefinition}
    (hf : ∀ id b, b.Way chain → b.definitions = definitions →
      Outcome chain id b ((f id).run.run b).1 ((f id).run.run b).2)
    (hway : b.Way chain) (hdefinitions : b.definitions = definitions) (ids : List String) :
    Outcomes chain ids b ((ids.mapM f).run.run b).1 ((ids.mapM f).run.run b).2 := by
  induction ids generalizing b with
  | nil =>
      refine ⟨rfl, .refl, hway.unmade, fun found hfound => ?_, fun e he => ?_⟩
      · cases hfound
        exact .nil
      · cases he
  | cons id ids ih =>
      have hout := hf id b hway hdefinitions
      rw [List.mapM_cons, Activity.run_bind]
      rcases hrun : (f id).run.run b with ⟨e | m, b₁⟩
      · rw [hrun] at hout
        refine ⟨hout.definitions, hout.grows, hout.unmade, fun found hfound => (nomatch hfound),
          fun e' he' => ?_⟩
        cases he'
        obtain ⟨path, hpath, hunmade⟩ := hout.error e rfl
        exact ⟨[], id, ids, path, rfl, List.forall_mem_nil _, hpath, hunmade⟩
      · rw [hrun] at hout
        have hrest := ih (hway.of_outcome hout) (hout.definitions.trans hdefinitions)
        have hm := hout.ok m rfl
        dsimp only at hm hrest ⊢
        rw [Activity.run_bind]
        rcases hruns : (ids.mapM f).run.run b₁ with ⟨e | ms, b₂⟩
        · rw [hruns] at hrest
          refine ⟨hrest.definitions.trans hout.definitions,
            hout.grows.trans hout.definitions hrest.grows, hrest.unmade,
            fun found hfound => (nomatch hfound), fun e' he' => ?_⟩
          cases he'
          obtain ⟨before, id', after, path, rfl, hbefore, hpath, hunmade⟩ := hrest.error e rfl
          refine ⟨id :: before, id', after, path, rfl, fun a ha => ?_, hpath, hunmade⟩
          rcases List.mem_cons.mp ha with rfl | ha
          · exact ⟨m, hrest.grows.modules _ _ hm⟩
          · exact hbefore a ha
        · rw [hruns] at hrest
          refine ⟨hrest.definitions.trans hout.definitions,
            hout.grows.trans hout.definitions hrest.grows, hrest.unmade, fun found hfound => ?_,
            fun e' he' => nomatch he'⟩
          cases hfound
          exact .cons (hrest.grows.modules _ _ hm) (hrest.ok ms rfl)

/-- What is made comes to what it should if the loads of the dependencies do. -/
theorem outcome_make {room : Nat}
    (hbelow : ∀ id' b', b'.Way (chain ++ [canonicalModuleId id]) →
      b'.definitions = b.definitions →
        Outcome (chain ++ [canonicalModuleId id]) id' b'
          ((loadBelow room (chain ++ [canonicalModuleId id]) id').run.run b').1
          ((loadBelow room (chain ++ [canonicalModuleId id]) id').run.run b').2)
    (hway : b.Way chain) (hkey : canonicalModuleId id ∉ chain)
    (hnone : b.module? (canonicalModuleId id) = none) :
    Outcome chain id b ((make room chain id).run.run b).1 ((make room chain id).run.run b).2 := by
  rw [make]
  cases hd : b.definitions.get? (canonicalModuleId id) with
  | none =>
      rw [Activity.run_bind_of_error (run_definition_of_none hd)]
      refine ⟨rfl, .refl, hway.unmade, fun m hm => (by cases hm), fun e he => ?_⟩
      cases he
      refine ⟨_, .missing hkey hd, fun k hk => ?_⟩
      rw [List.mem_singleton.mp hk]
      exact hnone
  | some d =>
      have hout := outcomes_mapM hbelow (hway.snoc hkey hd hnone) rfl d.dependencyIds
      rw [Activity.run_bind_of_ok (run_definition hd), Activity.run_bind]
      rcases hrun : (d.dependencyIds.mapM
        (loadBelow room (chain ++ [canonicalModuleId id]))).run.run b with ⟨e | found, b₁⟩
      · rw [hrun] at hout
        refine ⟨hout.definitions, hout.grows,
          fun k hk => hout.unmade k (List.mem_append_left _ hk), fun m hm => (by cases hm),
          fun e' he' => ?_⟩
        cases he'
        obtain ⟨before, id', after, path, hids, hbefore, hpath, hunmade⟩ := hout.error e rfl
        refine ⟨_, .deeper hkey (hout.definitions ▸ hd) hids hbefore hpath, fun k hk => ?_⟩
        rcases List.mem_cons.mp hk with rfl | hk
        · exact hout.unmade _ List.mem_append_cons_self
        · exact hunmade k hk
      · rw [hrun] at hout
        have hfound := hout.ok found rfl
        have hd₁ : b₁.definitions.get? (canonicalModuleId id) = some d := hout.definitions ▸ hd
        have hnone₁ : b₁.module? (canonicalModuleId id) = none :=
          hout.unmade _ List.mem_append_cons_self
        have hunmade : ∀ k ∈ chain, b₁.module? k = none :=
          fun k hk => hout.unmade k (List.mem_append_left _ hk)
        dsimp only at hfound ⊢
        cases hmade : d.bind found >>= d.instantiate with
        | error e =>
            rw [run_keep_of_error hmade]
            refine ⟨hout.definitions, hout.grows, hunmade, fun m hm => (by cases hm),
              fun e' he' => ?_⟩
            cases he'
            refine ⟨_, .unusable hkey hd₁ hfound hmade, fun k hk => ?_⟩
            rw [List.mem_singleton.mp hk]
            exact hnone₁
        | ok made =>
            obtain ⟨t, p⟩ := made
            rw [run_keep hmade, Cache.keep_of_none hnone₁]
            refine ⟨hout.definitions,
              hout.grows.trans hout.definitions (grows_kept hnone₁ hd₁ hfound hmade),
              fun k hk => ?_, fun m hm => ?_, fun e he => by cases he⟩
            · have hne : canonicalModuleId id ≠ k := by
                rintro rfl
                exact hkey hk
              rw [module?_kept hnone₁, if_neg hne]
              exact hunmade k hk
            · cases hm
              rw [module?_kept hnone₁, if_pos rfl]

/-- A load with enough room comes to what it should: the room is never used up, since there are at
least as many definitions as identifiers on the way. -/
theorem loadBelow_outcome {room : Nat} (hway : b.Way chain)
    (hroom : b.definitions.length + 2 ≤ room + chain.length) (id : String) :
    Outcome chain id b ((loadBelow room chain id).run.run b).1
      ((loadBelow room chain id).run.run b).2 := by
  induction room generalizing chain id b with
  | zero =>
      have hlength := hway.length_le
      omega
  | succ room ih =>
      by_cases hkey : canonicalModuleId id ∈ chain
      · rw [run_loadBelow_of_mem room hkey]
        refine ⟨rfl, .refl, hway.unmade, fun m hm => (by cases hm), fun e he => ?_⟩
        cases he
        refine ⟨_, .cycle hkey, fun k hk => ?_⟩
        rw [List.mem_singleton.mp hk]
        exact hway.unmade _ hkey
      cases hm : b.module? (canonicalModuleId id) with
      | some m =>
          rw [run_loadBelow_of_module? room hkey hm]
          refine ⟨rfl, grows_lookedUp b _, fun k hk => ?_, fun m' hm' => ?_, fun e he => nomatch he⟩
          · rw [module?_lookedUp]
            exact hway.unmade k hk
          · cases hm'
            rw [module?_lookedUp]
            exact hm
      | none =>
          rw [run_loadBelow_of_none room hkey hm]
          have hlooked : (b.lookedUp (canonicalModuleId id)).Way chain :=
            ⟨hway.nodup, hway.defined, fun k hk => (module?_lookedUp b _ k).trans (hway.unmade k hk)⟩
          have hout := outcome_make (fun id' b' hway' hdefinitions => ih hway' (by
            rw [hdefinitions, List.length_append, List.length_singleton]
            show b.definitions.length + 2 ≤ _
            omega) id') hlooked hkey ((module?_lookedUp b _ _).trans hm)
          exact ⟨hout.definitions, (grows_lookedUp b _).trans rfl hout.grows, hout.unmade, hout.ok,
            hout.error⟩

theorem run_load (id : String) (b : Bundle) :
    (load id).run.run b = (loadBelow (b.definitions.length + 2) [] id).run.run b := by
  rw [load, Activity.run_bind_of_ok (Activity.run_get b)]

theorem load_outcome (id : String) (b : Bundle) :
    Outcome [] id b ((load id).run.run b).1 ((load id).run.run b).2 := by
  rw [run_load]
  exact loadBelow_outcome (way_nil b) (Nat.le_refl _) id

theorem loadAll_outcomes (ids : List String) (b : Bundle) :
    Outcomes [] ids b ((loadAll ids).run.run b).1 ((loadAll ids).run.run b).2 :=
  outcomes_mapM (fun id b _ _ => load_outcome id b) (way_nil b) rfl ids

/-- What a bundle is used for. -/
inductive Operation
  | add (text : String)
  | load (id : String)
  | resolve (ids : List String)

/-- The bundle after it was used for something. -/
def perform (b : Bundle) : Operation → Bundle
  | .add text => ((add text).run.run b).2
  | .load id => ((load id).run.run b).2
  | .resolve ids => ((loadAll ids).run.run b).2

/-- The bundle after it was used for several things, one after another. -/
def run (b : Bundle) (ops : List Operation) : Bundle := ops.foldl perform b

theorem run_concat (b : Bundle) (ops : List Operation) (op : Operation) :
    b.run (ops ++ [op]) = (b.run ops).perform op := by
  rw [run, List.foldl_concat]
  rfl

theorem run_add_of_ok {text : String} (h : ModuleDefinition.ofText text = .ok d) (b : Bundle) :
    (add text).run.run b = (.ok (canonicalModuleId d.id),
      { b with definitions := b.definitions.insert (canonicalModuleId d.id) d }) := by
  rw [add, h]
  rfl

theorem run_add_of_error {text : String} {e : Error} (h : ModuleDefinition.ofText text = .error e)
    (b : Bundle) : (add text).run.run b = (.error e, b) := by
  rw [add, h]
  rfl

end Bundle

end Stencil
