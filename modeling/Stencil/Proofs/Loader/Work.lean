/-
The work of a load.

A template may be a partial of many others, and the ways that lead to it can be far more than the
templates, but a load expands each template once.  That is a matter of bookkeeping.  A look-up that
misses is the start of a new module, so there are as many misses as modules; and a look-up is made
for the name that was asked for, or for a partial of a module that was made, so the look-ups are
one more than all partials of all modules.  Both balances hold for any number of loads on the way
down from any chain, and that is what makes them provable: a module closes its own account when it
is kept, and by then the accounts of its partials are closed.
-/
import Mathlib
import Stencil.Proofs.Loader.Session

namespace Stencil

/-! ## Dictionaries and shelves -/

namespace Dict

variable {α : Type}

/-- A value under a new key is one more entry, wherever the order puts it. -/
theorem perm_insert {key : String} {d : Dict α} (h : d.get? key = none) (v : α) :
    (d.insert key v).Perm ((key, v) :: d) := by
  induction d with
  | nil => exact .refl _
  | cons entry d ih =>
      obtain ⟨k, w⟩ := entry
      rw [get?_cons] at h
      have hne : k ≠ key := by
        rintro rfl
        simp at h
      rw [if_neg hne] at h
      rw [insert, if_neg fun hk => hne hk.symm]
      split
      · exact .refl _
      · exact ((ih h).cons _).trans (.swap _ _ _)

/-- A value in place of another one changes a sum by the difference of the two. -/
theorem sum_insert {d : Dict Nat} (hd : Ascending d) (key : String) (v : Nat) :
    ((d.insert key v).map Prod.snd).sum + (d.get? key).getD 0 = (d.map Prod.snd).sum + v := by
  induction d with
  | nil => simp [insert]
  | cons entry d ih =>
      obtain ⟨k, w⟩ := entry
      have hd' : (∀ k' ∈ keys d, k < k') ∧ Ascending d := List.pairwise_cons.mp hd
      by_cases hk : key = k
      · simp only [insert, get?_cons, hk, if_true, List.map_cons, List.sum_cons, Option.getD_some]
        omega
      have hk' : ¬ k = key := fun h => hk h.symm
      by_cases hlt : key < k
      · have hnone : get? key d = none := by
          rw [get?_eq_none_iff]
          intro hmem
          exact absurd (hd'.1 key hmem) (not_lt.mpr hlt.le)
        simp only [insert, get?_cons, hk, hk', hlt, hnone, if_true, if_false, List.map_cons,
          List.sum_cons, Option.getD_none]
        omega
      · have hrest := ih hd'.2
        simp only [insert, get?_cons, hk, hk', hlt, if_false, List.map_cons, List.sum_cons]
        omega

end Dict

namespace Shelf

theorem total_eq (s : Shelf) : s.total = (s.fetches.map Prod.snd).sum := by
  rw [total, List.sum_eq_foldl, List.foldl_map]

/-- A fetch adds one to the fetches. -/
theorem total_tick {s : Shelf} (h : Dict.Ascending s.fetches) (address : String) :
    (s.tick address).total = s.total + 1 := by
  have hsum := Dict.sum_insert h address (s.count address + 1)
  rw [total_eq, total_eq, tick]
  rw [count] at hsum ⊢
  dsimp only
  omega

end Shelf

/-- The number of partials of the template under a key. -/
def Graph.fanOut (g : Graph) (key : String) : Nat :=
  match g key with
  | .ok s => s.references.length
  | .error _ => 0

theorem Graph.fanOut_of_ok {g : Graph} {key : String} {s : Source} (h : g key = .ok s) :
    g.fanOut key = s.references.length := by
  rw [fanOut, h]

namespace Loader

variable {files : FileSystem} {l l' l'' : Loader} {chain names more keys : List String}
  {key name : String} {r : Except Error (List Module)} {s : Source} {m : Module}

/-- Fetches of a memory are counted, each of them once. -/
theorem total_fetchAll (files : FileSystem) (c : Config) {shelf : Shelf}
    (h : Dict.Ascending shelf.fetches) (keys : List String) :
    (fetchAll files c (.memory shelf) keys).shelf.total = shelf.total + keys.length := by
  induction keys generalizing shelf with
  | nil => rfl
  | cons key keys ih =>
      have hcons : fetchAll files c (.memory shelf) (key :: keys) =
          fetchAll files c (.memory (shelf.tick (Place.memory.address (c.fetchPath key)))) keys :=
        rfl
      have htick : Dict.Ascending (shelf.tick (Place.memory.address (c.fetchPath key))).fetches :=
        h.insert _ _
      rw [hcons, ih htick, Shelf.total_tick h, List.length_cons]
      omega

/-! ## The balance of a run -/

/-- The number of partials of all modules that are kept. -/
def linked (l : Loader) : Nat := (l.cache.entries.map fun entry => entry.2.partials.length).sum

/-- The number of look-ups. -/
def lookUps (l : Loader) : Nat := l.cache.hits + l.cache.misses

/-- What loads of some names cost: there is a miss for each module that was made, and a look-up
for each of the names and for each partial of a module that was made. -/
structure Balanced (names : List String) (l l' : Loader) : Prop where
  misses : l'.cache.misses + l.cache.entries.length = l.cache.misses + l'.cache.entries.length
  lookUps : l'.lookUps + l.linked = l.lookUps + names.length + l'.linked

theorem Balanced.nil (l : Loader) : Balanced [] l l := ⟨rfl, rfl⟩

theorem Balanced.append (h : Balanced names l l') (h' : Balanced more l' l'') :
    Balanced (names ++ more) l l'' := by
  obtain ⟨hmisses, hlookUps⟩ := h
  obtain ⟨hmisses', hlookUps'⟩ := h'
  refine ⟨by omega, ?_⟩
  rw [List.length_append]
  omega

/-- A name that is kept costs a look-up that finds it. -/
theorem balanced_lookedUp (hm : l.module? key = some m) :
    Balanced [name] l (l.lookedUp key) := by
  have hfound : l.lookedUp key =
      { l with cache := { l.cache with hits := l.cache.hits + 1 } } := by
    change l.cache.entries.get? key = some m at hm
    rw [lookedUp, Cache.find, hm]
  rw [hfound]
  refine ⟨rfl, ?_⟩
  simp only [Loader.lookUps, linked, List.length_singleton]
  omega

/-- What a look-up costs that finds nothing. -/
theorem cache_lookedUp_of_none (hnone : l.module? key = none) :
    (l.lookedUp key).cache = { l.cache with misses := l.cache.misses + 1 } := by
  change l.cache.entries.get? key = none at hnone
  rw [lookedUp, Cache.find, hnone]

/-- A module that is made for a key that is not kept is one more entry. -/
theorem perm_entries_kept (hnone : l.module? key = none) (m : Module) :
    (l.kept key m).cache.entries.Perm ((key, m) :: l.cache.entries) := by
  rw [kept, Cache.keep_of_none hnone]
  exact Dict.perm_insert hnone m

theorem length_entries_kept (hnone : l.module? key = none) (m : Module) :
    (l.kept key m).cache.entries.length = l.cache.entries.length + 1 :=
  (perm_entries_kept hnone m).length_eq

theorem linked_kept (hnone : l.module? key = none) (m : Module) :
    (l.kept key m).linked = l.linked + m.partials.length := by
  have hsum := ((perm_entries_kept hnone m).map fun entry => entry.2.partials.length).sum_eq
  rw [linked, hsum, List.map_cons, List.sum_cons, linked, Nat.add_comm]

/-- A module has a partial for each reference of its source. -/
theorem length_partials_composed {found : List Module}
    (hnodup : (s.references.map Reference.name).Nodup)
    (hlength : found.length = s.references.length) :
    (l.composed s found).partials.length = s.references.length := by
  have hkeys : Dict.keys ((s.references.map Reference.name).zip found) =
      s.references.map Reference.name := List.map_fst_zip (by simp [hlength])
  show (Dict.ofPairs ((s.references.map Reference.name).zip found)).length = _
  rw [Dict.length_ofPairs (by rwa [hkeys])]
  simp [hlength]

/-- A key that is not kept costs a look-up that misses, the loads of its partials, and a module
with these partials. -/
theorem balanced_kept {l₁ l₂ : Loader} {found : List Module} (hnone : l.module? key = none)
    (hcache : l₁.cache = (l.lookedUp key).cache)
    (hnodup : (s.references.map Reference.name).Nodup)
    (hlength : found.length = s.references.length)
    (hbelow : Balanced (s.references.map Reference.canonicalId) l₁ l₂)
    (hnone₂ : l₂.module? key = none) :
    Balanced [name] l (l₂.kept key (l₂.composed s found)) := by
  obtain ⟨hmisses, hlookUps⟩ := hbelow
  have hentries := length_entries_kept hnone₂ (l₂.composed s found)
  have hlinked := linked_kept hnone₂ (l₂.composed s found)
  have hcounts : (l₂.kept key (l₂.composed s found)).cache.misses = l₂.cache.misses ∧
      (l₂.kept key (l₂.composed s found)).lookUps = l₂.lookUps := by
    rw [Loader.lookUps, kept, Cache.keep_of_none hnone₂]
    exact ⟨rfl, rfl⟩
  rw [length_partials_composed hnodup hlength] at hlinked
  simp only [Loader.lookUps, linked, hcache, cache_lookedUp_of_none hnone, List.length_map]
    at hmisses hlookUps hlinked hcounts ⊢
  refine ⟨by omega, ?_⟩
  simp only [Loader.lookUps, linked, List.length_singleton]
  omega

/-- A run that succeeds is balanced, if no key on its chain is kept. -/
theorem Course.balanced (h : Course files chain names l keys r l') (hl : Registry l)
    (hchain : ∀ k ∈ chain, l.module? k = none) {ms : List Module} (hr : r = .ok ms) :
    Balanced names l l' := by
  induction h generalizing ms with
  | nil chain l => exact .nil l
  | cycle => cases hr
  | @cached chain name names l hkey m hm keys r l' hrest ih =>
      obtain ⟨rest, rfl, -⟩ := Activity.map_eq_ok.mp hr
      refine (balanced_lookedUp hm).append (ih (hl.lookedUp _) ?_ rfl)
      intro k hk
      rw [module?_lookedUp]
      exact hchain k hk
  | noSource => cases hr
  | noPartial => cases hr
  | @kept chain name names l hkey hnone s l₁ hs keys found l₂ hbelow more r l' hrest ih ih' =>
      obtain ⟨rest, rfl, -⟩ := Activity.map_eq_ok.mp hr
      have hchain' : ∀ k ∈ chain ++ [Path.normalize name], l.module? k = none := by
        intro k hk
        rcases List.mem_append.mp hk with hk | hk
        · exact hchain k hk
        · rw [List.mem_singleton.mp hk]
          exact hnone
      obtain ⟨hl₁, -, -, hsource, -⟩ := source_grows (hl.lookedUp _) hs
      have hchain₁ := not_kept_of_source hl hchain' hs
      obtain ⟨-, -, hchain₂, -⟩ :=
        (loadBelow_registers files _).mapM hl₁ hchain₁ hbelow.run
      have hkept := registersTo_kept (loadBelow_registers files _) hl hchain' hkey hs hbelow.run
      have hnodup : (s.references.map Reference.name).Nodup := by
        rw [(hl₁.sources _ s (hsource s rfl)).2]
        exact (Reference.sound_resolvePartials _ _).nodup
      have hlength := Activity.length_of_run_mapM? hbelow.run
      rw [List.length_map] at hlength
      have hfirst : Balanced [name] l (l₂.kept (Path.normalize name) (l₂.composed s found)) :=
        balanced_kept hnone (cache_of_source hs) hnodup hlength (ih hl₁ hchain₁ rfl)
          (hchain₂ _ List.mem_append_cons_self)
      exact hfirst.append (ih' hkept.registry hkept.unkept rfl)

/-! ## A load of a fresh loader -/

/-- Modules are kept in the order of their keys. -/
theorem Step.ascending (h : Step files l l') (hl : Dict.Ascending l.cache.entries) :
    Dict.Ascending l'.cache.entries := by
  cases h with
  | lookUp key => rwa [lookedUp, Cache.entries_find]
  | fetch => exact hl
  | remember => exact hl
  | @keep key m _ =>
      rw [kept, Cache.keep]
      split
      · exact hl
      · exact hl.insert _ _

theorem Steps.ascending (h : Steps files l l') (hl : Dict.Ascending l.cache.entries) :
    Dict.Ascending l'.cache.entries := by
  induction h with
  | refl => exact hl
  | tail _ hstep ih => exact hstep.ascending ih

/-- A loader that was just made has done nothing. -/
theorem eq_of_ofConfig {config : Config} {store : TextStore} {recording : Bool}
    (h : ofConfig config store recording = .ok l) :
    l = { config := config, store := store, recording := recording } := by
  rw [ofConfig] at h
  obtain ⟨⟨⟩, -, h⟩ := Activity.bind_eq_ok.mp h
  exact (Except.ok.inj h).symm

/-- A load that succeeds has a course. -/
theorem exists_course_of_load (h : ((load files name).run.run l).1 = .ok m) :
    ∃ keys, Course files [] [name] l keys (.ok [m]) ((load files name).run.run l).2 := by
  rw [run_load] at h ⊢
  cases hout : loadBelow files [] name l with
  | none =>
      rw [hout] at h
      cases h
  | some out =>
      obtain ⟨r, l'⟩ := out
      rw [hout] at h
      change r = .ok m at h
      subst h
      exact exists_course_loadBelow hout

/-- A module has as many partials as the template of its key. -/
theorem length_partials_of_unfolds {g : Graph} (h : g.Unfolds key m.closure)
    (hnodup : ∀ s, g key = .ok s → (s.references.map Reference.name).Nodup) :
    m.partials.length = g.fanOut key := by
  generalize hc : m.closure = c at h
  cases h with
  | @node _ s child hs hchild =>
      have hpartials := congrArg Closure.partials hc
      have hkeys : Dict.keys (s.references.map fun r => (r.name, child r)) =
          s.references.map Reference.name := by
        simp [Dict.keys]
      rw [Module.partials_closure] at hpartials
      calc m.partials.length
          = (Dict.mapValues Module.closure m.partials).length := by simp [Dict.mapValues]
        _ = (Dict.ofPairs (s.references.map fun r => (r.name, child r))).length := by
            rw [hpartials]
            rfl
        _ = s.references.length := by
            rw [Dict.length_ofPairs (by rw [hkeys]; exact hnodup s hs), List.length_map]
        _ = g.fanOut key := (Graph.fanOut_of_ok hs).symm

/-- A fresh loader that loaded a name has fetched exactly the keys that are reached, each of them
once, and what it fetched it has made a module of. -/
theorem Course.expands {config : Config} {store : TextStore} {recording : Bool}
    (h : ofConfig config store recording = .ok l)
    (hcourse : Course files [] [name] l keys (.ok [m]) l') :
    (∀ k, k ∈ keys ↔ (graph files config store).Reaches (Path.normalize name) k) ∧
      (∀ k, k ∈ l'.cache.entries.keys ↔ k ∈ keys) ∧
      ∀ k m', l'.module? k = some m' → (graph files config store).Unfolds k m'.closure := by
  obtain ⟨hsound, hconfig, hstore, -, hsources, -⟩ := sound_of_ofConfig files h
  have hl : Coherent l := hsound.coherent
  have hcurrent : l.current files = graph files config store := by
    rw [hsound.current_eq, hconfig, hstore]
  have hsteps := hcourse.steps hl
  have hwithin := remembered_within_current files l'
  rw [Steps.current hsteps, hcurrent] at hwithin
  have hmodules : ∀ k m', l'.module? k = some m' →
      (graph files config store).Unfolds k m'.closure := by
    intro k m' hm'
    exact (Steps.coherent hsteps hl k m' hm').mono hwithin
  have hreached : ∀ k, k ∈ keys ↔ (graph files config store).Reaches (Path.normalize name) k := by
    intro k
    rw [← hcurrent]
    constructor
    · intro hk
      obtain ⟨name', hname', hreaches⟩ := hcourse.reaches hl k hk
      rwa [List.mem_singleton.mp hname'] at hreaches
    · intro hreaches
      exact hcourse.mem_of_reaches hl List.mem_cons_self hreaches (by rw [hsources]; rfl)
  refine ⟨hreached, fun k => ?_, hmodules⟩
  rw [← Dict.hasKey_iff_mem_keys, Dict.hasKey_iff_exists]
  constructor
  · rintro ⟨m', hm'⟩
    obtain ⟨s, hs⟩ := (Steps.coherent hsteps hl k m' hm').exists_source
    rw [remembered_eq_ok, hcourse.leaves.sources, hsources] at hs
    split at hs
    · assumption
    · cases hs
  · intro hk
    -- What was fetched is remembered, and everything that is reached has a tree.
    obtain ⟨s, hs⟩ := hcourse.leaves.found [m] rfl k hk
    have hremembered : l'.sources.get? k = some s := by
      rw [hcourse.leaves.sources, if_pos hk, hs]
      rfl
    have hnothing : Settled files [] l := by
      intro k' s' hs'
      rw [hsources] at hs'
      cases hs'
    have hsettled := hcourse.settled hl (fun _ _ => Graph.leadsTo_nil) hnothing k s hremembered
    obtain ⟨-, htrees⟩ := (loadBelow_loads files []).mapM hl hcourse.run
    obtain ⟨m', -, htree⟩ := Activity.exists_of_forall₂ htrees (List.mem_cons_self (a := name))
    obtain ⟨c, hc⟩ := (htree.mono hwithin).exists_of_reaches ((hreached k).mp hk)
    rcases hsettled with hnil | hm' | hnone
    · cases hnil
    · exact hm'
    · rw [Steps.current hsteps, hcurrent] at hnone
      exact absurd hc (hnone c)

/-- A load of a fresh loader over a memory that succeeds does work in proportion to what it
reaches: it fetches every key that is reached exactly once, records it once, and makes one module
of it, in one look-up that misses; and all look-ups are one for the name and one for each partial of
each template that is reached, however many ways lead there. -/
theorem load_expands_each_once {config : Config} {shelf : Shelf} {recording : Bool}
    (h : ofConfig config (.memory shelf) recording = .ok l)
    (hshelf : Dict.Ascending shelf.fetches)
    (hload : ((load files name).run.run l).1 = .ok m) :
    let g := graph files config (.memory shelf)
    let l' := ((load files name).run.run l).2
    ∃ keys : List String, keys.Nodup ∧
      (∀ k, k ∈ keys ↔ g.Reaches (Path.normalize name) k) ∧
      Course files [] [name] l keys (.ok [m]) l' ∧
      l'.cache.misses = keys.length ∧
      l'.cache.ids.Perm keys ∧
      l'.store.shelf.total = shelf.total + keys.length ∧
      (recording = true → (Dict.keys l'.session).Perm keys) ∧
      l'.cache.hits + l'.cache.misses = 1 + (keys.map g.fanOut).sum := by
  have hfresh := eq_of_ofConfig h
  subst hfresh
  intro g l'
  obtain ⟨keys, hcourse⟩ := exists_course_of_load hload
  obtain ⟨hreached, hentries, hmodules⟩ := hcourse.expands h
  have hl := Coherent.of_ofConfig h
  have hsteps := hcourse.steps hl
  obtain ⟨hmisses, hlookUps⟩ :=
    hcourse.balanced (Reachable.make h).registry (fun _ hk => nomatch hk) rfl
  have hascending : Dict.Ascending l'.cache.entries :=
    Steps.ascending hsteps Dict.ascending_nil
  have hnodup := hcourse.leaves.nodup
  have hperm : l'.cache.entries.keys.Perm keys :=
    (List.perm_ext_iff_of_nodup hascending.nodup hnodup).mpr hentries
  have hlength : l'.cache.entries.length = keys.length := by
    simpa [Dict.keys] using hperm.length_eq
  have hlinked : l'.linked = (keys.map g.fanOut).sum := by
    have hentry : ∀ entry ∈ l'.cache.entries, entry.2.partials.length = g.fanOut entry.1 := by
      intro entry hentry
      have hm' := (Dict.get?_eq_some_iff_mem hascending.nodup).mpr hentry
      refine length_partials_of_unfolds (hmodules _ _ hm') fun s hs => ?_
      obtain ⟨-, t, -, -, rfl⟩ := graph_eq_ok hs
      exact (Reference.sound_resolvePartials _ _).nodup
    rw [linked, List.map_congr_left hentry, ← (hperm.map g.fanOut).sum_eq, Dict.keys,
      List.map_map]
    rfl
  refine ⟨keys, hnodup, hreached, hcourse, ?_, hperm, ?_, fun hrecording => ?_, ?_⟩
  · rw [← hlength]
    simpa using hmisses
  · rw [hcourse.leaves.store]
    exact total_fetchAll files config hshelf keys
  · have hrecorded : Recorded l' := Steps.recorded hsteps hrecording (.of_ofConfig h)
    refine (List.perm_ext_iff_of_nodup hrecorded.ascending.nodup hnodup).mpr fun k => ?_
    rw [← Dict.hasKey_iff_mem_keys, Dict.hasKey, hrecorded.session, Option.isSome_map,
      hcourse.leaves.sources]
    split
    next hk =>
      obtain ⟨s, hs⟩ := hcourse.leaves.found [m] rfl k hk
      simp [hs, hk, Except.toOption]
    next hk => simp [hk]
  · rw [hlinked] at hlookUps
    simpa [Loader.lookUps, linked] using hlookUps

/-! ## A diamond -/

/-- A store with a page whose two partials share one. -/
def diamondStore : TextStore :=
  .memory { texts := [("a.mustache", "[{{> shared}}]"), ("b.mustache", "[{{> shared}}]"),
    ("page.mustache", "[{{> a}}{{> b}}]"), ("shared.mustache", "x")] }

theorem exists_graph_diamond :
    ∃ page a b shared : Template,
      graph .empty {} diamondStore "page" = .ok ⟨page, [⟨"a", "a", 1⟩, ⟨"b", "b", 2⟩]⟩ ∧
      graph .empty {} diamondStore "a" = .ok ⟨a, [⟨"shared", "shared", 1⟩]⟩ ∧
      graph .empty {} diamondStore "b" = .ok ⟨b, [⟨"shared", "shared", 1⟩]⟩ ∧
      graph .empty {} diamondStore "shared" = .ok ⟨shared, []⟩ :=
  ⟨_, _, _, _, graph_of_isPlain "[{{> a}}{{> b}}]" (by decide) (by decide) (by decide),
    graph_of_isPlain "[{{> shared}}]" (by decide) (by decide) (by decide),
    graph_of_isPlain "[{{> shared}}]" (by decide) (by decide) (by decide),
    graph_of_isPlain "x" (by decide) (by decide) (by decide)⟩

/-- The page of the diamond leads to four keys, has a tree, and four partials are referred to. -/
theorem reaches_diamond :
    (∃ c, (graph .empty {} diamondStore).Unfolds "page" c) ∧
      (∀ k, (graph .empty {} diamondStore).Reaches "page" k ↔ k ∈ ["page", "a", "b", "shared"]) ∧
      (["page", "a", "b", "shared"].map (graph .empty {} diamondStore).fanOut).sum = 4 := by
  obtain ⟨page, a, b, shared, hpage, ha, hb, hshared⟩ := exists_graph_diamond
  have hkeyA : Reference.key ⟨"a", "a", 1⟩ = "a" := by decide
  have hkeyB : Reference.key ⟨"b", "b", 2⟩ = "b" := by decide
  have hkeyShared : Reference.key ⟨"shared", "shared", 1⟩ = "shared" := by decide
  have hedges : ∀ k, ((graph .empty {} diamondStore).Edge "page" k ↔ k = "a" ∨ k = "b") ∧
      ((graph .empty {} diamondStore).Edge "a" k ↔ k = "shared") ∧
      ((graph .empty {} diamondStore).Edge "b" k ↔ k = "shared") ∧
      ¬ (graph .empty {} diamondStore).Edge "shared" k := by
    intro k
    simp [Graph.Edge, hpage, ha, hb, hshared, hkeyA, hkeyB, hkeyShared, eq_comm]
  refine ⟨?_, fun k => ⟨fun h => ?_, fun h => ?_⟩, ?_⟩
  · have hleaf : ∃ c, (graph .empty {} diamondStore).Unfolds "shared" c :=
      Graph.exists_unfolds_of_forall hshared (by simp)
    have hleft : ∃ c, (graph .empty {} diamondStore).Unfolds "a" c :=
      Graph.exists_unfolds_of_forall ha (by simpa [hkeyShared] using hleaf)
    have hright : ∃ c, (graph .empty {} diamondStore).Unfolds "b" c :=
      Graph.exists_unfolds_of_forall hb (by simpa [hkeyShared] using hleaf)
    exact Graph.exists_unfolds_of_forall hpage (by simpa [hkeyA, hkeyB] using ⟨hleft, hright⟩)
  · induction h with
    | refl => exact List.mem_cons_self
    | @tail k k' _ hedge ih =>
        simp only [List.mem_cons, List.not_mem_nil, or_false] at ih
        rcases ih with rfl | rfl | rfl | rfl
        · rcases (hedges k').1.mp hedge with rfl | rfl
          · simp
          · simp
        · rw [(hedges k').2.1.mp hedge]
          simp
        · rw [(hedges k').2.2.1.mp hedge]
          simp
        · exact absurd hedge (hedges k').2.2.2
  · have hleft : (graph .empty {} diamondStore).Reaches "page" "a" :=
      .single ((hedges "a").1.mpr (.inl rfl))
    have hright : (graph .empty {} diamondStore).Reaches "page" "b" :=
      .single ((hedges "b").1.mpr (.inr rfl))
    simp only [List.mem_cons, List.not_mem_nil, or_false] at h
    rcases h with rfl | rfl | rfl | rfl
    · exact .refl
    · exact hleft
    · exact hright
    · exact hleft.tail ((hedges "shared").2.1.mpr rfl)
  · simp [Graph.fanOut, hpage, ha, hb, hshared]

/-- The diamond is loaded in four look-ups that miss and one that finds the shared partial. -/
theorem load_expands_each_once_diamond :
    ∃ l m, ofConfig {} diamondStore true = .ok l ∧ ((load .empty "page").run.run l).1 = .ok m ∧
      ((load .empty "page").run.run l).2.cache.misses = 4 ∧
      ((load .empty "page").run.run l).2.cache.hits = 1 ∧
      ((load .empty "page").run.run l).2.store.shelf.total = 4 := by
  have hl : ofConfig {} diamondStore true =
      .ok { config := {}, store := diamondStore, recording := true } := rfl
  have hkey : Path.normalize "page" = "page" := by decide
  obtain ⟨⟨c, hc⟩, hreached, hsum⟩ := reaches_diamond
  obtain ⟨hsound, -⟩ := sound_of_ofConfig .empty hl
  have hunfolds : (graph .empty {} diamondStore).Unfolds (Path.normalize "page") c := by
    rw [hkey]
    exact hc
  obtain ⟨m, hm⟩ := exists_load_of_unfolds hsound hunfolds
  obtain ⟨keys, hnodup, hkeys, -, hmisses, -, htotal, -, hlookUps⟩ :=
    load_expands_each_once hl Dict.ascending_nil hm
  have hperm : keys.Perm ["page", "a", "b", "shared"] := by
    refine (List.perm_ext_iff_of_nodup hnodup (by decide)).mpr fun k => ?_
    rw [hkeys, hkey]
    exact hreached k
  have hlength : keys.length = 4 := hperm.length_eq
  have hedges := (hperm.map (graph .empty {} diamondStore).fanOut).sum_eq
  change (keys.map (graph .empty {} diamondStore).fanOut).sum = _ at hedges
  rw [hsum] at hedges
  refine ⟨_, m, hl, hm, hmisses.trans hlength, ?_, ?_⟩
  · change _ = 1 + (keys.map (graph .empty {} diamondStore).fanOut).sum at hlookUps
    omega
  · rw [htotal, hlength]
    rfl

end Loader

end Stencil
