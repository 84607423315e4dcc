/-
Bundles that serve a graph.

A bundle serves a graph of templates if it has, for every key of the graph but the empty one, the
definition that is written for the template there, and every module that it made is like the tree
of its key.  Such a bundle makes of every key with a tree a module like the tree: what a definition
is compiled to is what it was written for, and its dependencies are found under the identifiers of
the partials' keys.  A chain of modules never holds one of them twice, so the room is never used
up.
-/
import Mathlib
import Stencil.Bundle
import Stencil.Proofs.Activity
import Stencil.Proofs.Build.ModuleText
import Stencil.Proofs.Closure.Alike
import Stencil.Proofs.Loader.Record
import Stencil.Proofs.Path
import Stencil.Proofs.Piece

namespace Stencil

open Closure (Alike AlikePartials SameTemplate)

namespace ModuleDefinition

end ModuleDefinition

namespace Bundle

/-- The bundle has the definition that is written for a record.  Of its options the switch is
settled. -/
def Holds (plugin : String) (b : Bundle) (r : BuildRecord) : Prop :=
  ∃ options, b.definitions.get? (moduleId plugin r.templateId) =
      some (ModuleDefinition.ofRecord plugin r options) ∧
    options.autoescape = r.options.autoescape

/-- The bundle serves the graph. -/
structure Serves (g : Graph) (plugin : String) (b : Bundle) : Prop where
  defined : ∀ k s, g k = .ok s → k ≠ "" → b.Holds plugin (s.record k)
  cached : ∀ k m, b.cache.entries.get? (moduleId plugin k) = some m →
    ∃ c, g.Unfolds k c ∧ Alike c m.closure

variable {g : Graph} {plugin key : String} {b : Bundle} {c : Closure} {chain : List String}
  {o : Options}

/-! ## Definitions -/

/-- A bundle after a definition was added for a record. -/
def defined (plugin : String) (r : BuildRecord) (options : Options) (b : Bundle) : Bundle :=
  { b with
    definitions := b.definitions.insert (moduleId plugin r.templateId)
      (ModuleDefinition.ofRecord plugin r options) }

/-- A definition for another record stays. -/
theorem Holds.defined {r r' : BuildRecord} {options : Options}
    (hne : r'.templateId ≠ r.templateId) (h : b.Holds plugin r) :
    (b.defined plugin r' options).Holds plugin r := by
  obtain ⟨o, hget, hswitch⟩ := h
  refine ⟨o, ?_, hswitch⟩
  rw [Bundle.defined, Dict.get?_insert_ne fun heq => hne (moduleId_injective plugin heq), hget]

/-- The module that is kept under a canonical identifier. -/
def module? (b : Bundle) (key : String) : Option Module := b.cache.entries.get? key

/-- A bundle after a look-up. -/
def lookedUp (b : Bundle) (key : String) : Bundle := { b with cache := (b.cache.find key).2 }

/-- A bundle after a module was made. -/
def kept (b : Bundle) (key : String) (m : Module) : Bundle :=
  { b with cache := (b.cache.keep key m).2, made := b.made + 1 }

theorem Serves.exists_definition {s : Source} (h : Serves g plugin b) (hs : g key = .ok s)
    (hne : key ≠ "") :
    ∃ options, b.definitions.get? (moduleId plugin key) =
        some (ModuleDefinition.ofRecord plugin (s.record key) options) ∧
      options.autoescape = s.template.options.autoescape :=
  h.defined key s hs hne

theorem Serves.lookedUp (h : Serves g plugin b) (key : String) :
    Serves g plugin (b.lookedUp key) := by
  refine ⟨h.defined, fun k m hm => h.cached k m ?_⟩
  rwa [Bundle.lookedUp, Cache.entries_find] at hm

/-- A bundle goes on to serve a graph when it makes a module that is like the tree of its key. -/
theorem Serves.kept (h : Serves g plugin b) {m : Module} (hc : g.Unfolds key c)
    (hm : Alike c m.closure) : Serves g plugin (b.kept (moduleId plugin key) m) := by
  refine ⟨h.defined, fun k m' hm' => ?_⟩
  rcases Cache.get?_keep hm' with hm' | ⟨hk, rfl⟩
  · exact h.cached k m' hm'
  · rw [moduleId_injective plugin hk]
    exact ⟨c, hc, hm⟩

theorem run_cached? (key : String) (b : Bundle) :
    (cached? key).run.run b =
      (.ok (b.cache.entries.get? key), b.lookedUp key) := by
  rw [cached?, Activity.run_modifyGet, Cache.find_fst]
  rfl

theorem run_definition {id : String} {d : ModuleDefinition}
    (h : b.definitions.get? key = some d) : (definition id key).run.run b = (.ok d, b) := by
  rw [definition, Activity.run_bind, Activity.run_get]
  dsimp only
  rw [h]
  rfl

theorem run_definition_of_none {id : String} (h : b.definitions.get? key = none) :
    (definition id key).run.run b = (.error (.moduleNotFound id (b.suggestions key)), b) := by
  rw [definition, Activity.run_bind, Activity.run_get]
  dsimp only
  rw [h]
  rfl

theorem run_keep {d : ModuleDefinition} {found : List Module} {t : Template} {p : Dict Module}
    (h : d.bind found >>= d.instantiate = .ok (t, p)) :
    (keep key d found).run.run b =
      (.ok (b.cache.keep key (.mk b.made t p)).1, b.kept key (.mk b.made t p)) := by
  rw [keep, h]
  rfl

theorem run_keep_of_error {d : ModuleDefinition} {found : List Module} {e : Error}
    (h : d.bind found >>= d.instantiate = .error e) :
    (keep key d found).run.run b = (.error e, b) := by
  rw [keep, h]
  rfl

theorem run_loadBelow_of_mem {id : String} (room : Nat)
    (hkey : canonicalModuleId id ∈ chain) (b : Bundle) :
    (loadBelow (room + 1) chain id).run.run b =
      (.error (.circularPartial (chain ++ [canonicalModuleId id])), b) := by
  rw [loadBelow]
  simp only [hkey, if_true]
  rfl

theorem run_loadBelow_of_module? {id : String} {m : Module} (room : Nat)
    (hkey : canonicalModuleId id ∉ chain) (hm : b.module? (canonicalModuleId id) = some m) :
    (loadBelow (room + 1) chain id).run.run b = (.ok m, b.lookedUp (canonicalModuleId id)) := by
  change b.cache.entries.get? (canonicalModuleId id) = some m at hm
  rw [loadBelow]
  simp only [hkey, if_false]
  rw [Activity.run_bind_of_ok (run_cached? _ b), hm]
  rfl

/-- What a load does for an identifier that has no module yet. -/
def make (room : Nat) (chain : List String) (id : String) : Bundling Module := do
  let d ← definition id (canonicalModuleId id)
  let found ← d.dependencyIds.mapM (loadBelow room (chain ++ [canonicalModuleId id]))
  keep (canonicalModuleId id) d found

theorem run_loadBelow_of_none {id : String} (room : Nat)
    (hkey : canonicalModuleId id ∉ chain)
    (hnone : b.module? (canonicalModuleId id) = none) :
    (loadBelow (room + 1) chain id).run.run b =
      (make room chain id).run.run (b.lookedUp (canonicalModuleId id)) := by
  change b.cache.entries.get? (canonicalModuleId id) = none at hnone
  rw [loadBelow]
  simp only [hkey, if_false]
  rw [Activity.run_bind_of_ok (run_cached? _ b), hnone]
  rfl

/-- The chain on the way down to a key: keys of the graph, none of them twice. -/
structure Chain (g : Graph) (chain : List String) (key : String) : Prop where
  leadsTo : g.LeadsTo chain key
  nodup : chain.Nodup
  defined : ∀ k ∈ chain, k ≠ "" ∧ ∃ s, g k = .ok s

theorem Chain.snoc {s : Source} {r : Reference} (h : Chain g chain key) (hkey : key ∉ chain)
    (hs : g key = .ok s) (hne : key ≠ "") (hr : r ∈ s.references) :
    Chain g (chain ++ [key]) r.key := by
  refine ⟨h.leadsTo.snoc (Graph.edge_of_mem hs hr), ?_, fun k hk => ?_⟩
  · rw [List.nodup_append]
    refine ⟨h.nodup, List.nodup_singleton _, fun a ha b hb => ?_⟩
    rw [List.mem_singleton.mp hb]
    rintro rfl
    exact hkey ha
  · rcases List.mem_append.mp hk with hk | hk
    · exact h.defined k hk
    · rw [List.mem_singleton.mp hk]
      exact ⟨hne, s, hs⟩

/-- There are at least as many definitions as modules on a chain. -/
theorem Chain.length_le (h : Chain g chain key) (hb : Serves g plugin b) :
    chain.length ≤ b.definitions.length := by
  have hnodup : (chain.map (moduleId plugin)).Nodup :=
    h.nodup.map (moduleId_injective plugin)
  have hsub : chain.map (moduleId plugin) ⊆ Dict.keys b.definitions := by
    intro id hid
    obtain ⟨k, hk, rfl⟩ := List.mem_map.mp hid
    obtain ⟨hne, s, hs⟩ := h.defined k hk
    obtain ⟨options, hoptions, -⟩ := hb.exists_definition hs hne
    exact Dict.mem_keys_of_get?_eq_some hoptions
  have hle := (hnodup.subperm hsub).length_le
  rwa [List.length_map, Dict.keys, List.length_map] at hle

end Bundle

end Stencil
