/-
Courses of loads.

An outcome of a load does not tell what was fetched on the way to it.  A course does: it is the
derivation of a run, one rule for each thing that can come of a name, and it lists the keys in the
order in which they were fetched.  A run has an outcome exactly if it has a course, so what is
proved by induction on courses holds of all runs that come to an end.

A key is fetched if its source is asked for and not remembered.  If the fetch fails the whole run
is over, and otherwise the source is remembered from then on.  So no run fetches a key twice, and
what a run leaves behind is settled by the keys that it fetched.
-/
import Mathlib
import Stencil.Proofs.Loader.Registry

namespace Stencil.Loader

/-- The keys that are fetched when the source of a key is asked for. -/
def asked (l : Loader) (key : String) : List String :=
  if l.sources.hasKey key then [] else [key]

/-- A store after the texts of some keys were fetched from it, one after another. -/
def fetchAll (files : FileSystem) (c : Config) (store : TextStore) (keys : List String) :
    TextStore :=
  keys.foldl (fun store key =>
    (store.fetch files (store.place.address (c.fetchPath key))).2) store

/-- Loads several templates on the way down from those in a chain, one after another. -/
def loadAllBelow (files : FileSystem) (chain names : List String) : Descending (List Module) :=
  names.mapM (loadBelow files chain : String → Descending Module)

/-- The course of loads of some names, one after another, on the way down from a chain: the keys
that are fetched, the outcome and the loader that is left.  A name is met on its own chain, or it
is kept, or its source cannot be had, or some partial of it cannot be loaded, or it is kept now. -/
inductive Course (files : FileSystem) : List String → List String → Loader → List String →
    Except Error (List Module) → Loader → Prop
  | nil (chain : List String) (l : Loader) : Course files chain [] l [] (.ok []) l
  | cycle {chain : List String} {name : String} (names : List String) (l : Loader)
      (hkey : Path.normalize name ∈ chain) :
      Course files chain (name :: names) l []
        (.error (.circularPartial (chain ++ [Path.normalize name]))) l
  | cached {chain : List String} {name : String} {names : List String} {l : Loader}
      (hkey : Path.normalize name ∉ chain) {m : Module}
      (hm : l.module? (Path.normalize name) = some m) {keys : List String}
      {r : Except Error (List Module)} {l' : Loader}
      (hrest : Course files chain names (l.lookedUp (Path.normalize name)) keys r l') :
      Course files chain (name :: names) l keys (r.map (m :: ·)) l'
  | noSource {chain : List String} {name : String} (names : List String) {l : Loader}
      (hkey : Path.normalize name ∉ chain) (hnone : l.module? (Path.normalize name) = none)
      {e : Error} {l' : Loader}
      (he : (source files (Path.normalize name)).run.run (l.lookedUp (Path.normalize name)) =
        (.error e, l')) :
      Course files chain (name :: names) l (l.asked (Path.normalize name)) (.error e) l'
  | noPartial {chain : List String} {name : String} (names : List String) {l : Loader}
      (hkey : Path.normalize name ∉ chain) (hnone : l.module? (Path.normalize name) = none)
      {s : Source} {l₁ : Loader}
      (hs : (source files (Path.normalize name)).run.run (l.lookedUp (Path.normalize name)) =
        (.ok s, l₁)) {keys : List String} {e : Error} {l' : Loader}
      (hbelow : Course files (chain ++ [Path.normalize name])
        (s.references.map Reference.canonicalId) l₁ keys (.error e) l') :
      Course files chain (name :: names) l (l.asked (Path.normalize name) ++ keys) (.error e) l'
  | kept {chain : List String} {name : String} {names : List String} {l : Loader}
      (hkey : Path.normalize name ∉ chain) (hnone : l.module? (Path.normalize name) = none)
      {s : Source} {l₁ : Loader}
      (hs : (source files (Path.normalize name)).run.run (l.lookedUp (Path.normalize name)) =
        (.ok s, l₁)) {keys : List String} {found : List Module} {l₂ : Loader}
      (hbelow : Course files (chain ++ [Path.normalize name])
        (s.references.map Reference.canonicalId) l₁ keys (.ok found) l₂)
      {more : List String} {r : Except Error (List Module)} {l' : Loader}
      (hrest : Course files chain names
        (l₂.kept (Path.normalize name) (l₂.composed s found)) more r l') :
      Course files chain (name :: names) l (l.asked (Path.normalize name) ++ keys ++ more)
        (r.map ((l₂.cache.keep (Path.normalize name) (l₂.composed s found)).1 :: ·)) l'

variable {files : FileSystem} {l l' l'' : Loader} {chain names keys more : List String}
  {key name : String} {r : Except Error (List Module)} {s : Source} {e : Error}
  {below : List String → String → Descending Module}

/-! ## Courses and runs -/

/-- What is done on one level for a key that is neither on the chain nor kept. -/
theorem run_descend_of_module?_none (hkey : Path.normalize name ∉ chain)
    (hnone : l.module? (Path.normalize name) = none) :
    (descend files below chain name).run.run l =
      match (source files (Path.normalize name)).run.run (l.lookedUp (Path.normalize name)) with
      | (.error e, l₁) => some (.error e, l₁)
      | (.ok s, l₁) =>
        match ((s.references.map Reference.canonicalId).mapM
          (below (chain ++ [Path.normalize name]))).run.run l₁ with
        | none => none
        | some (.error e, l₂) => some (.error e, l₂)
        | some (.ok found, l₂) =>
          some (.ok (l₂.cache.keep (Path.normalize name) (l₂.composed s found)).1,
            l₂.kept (Path.normalize name) (l₂.composed s found)) := by
  rw [descend]
  simp only [hkey, if_false]
  rw [Activity.run_bind?, run_lift, run_cached?]
  change l.cache.entries.get? (Path.normalize name) = none at hnone
  rw [hnone]
  dsimp only
  rw [Activity.run_bind?, run_lift]
  rcases (source files (Path.normalize name)).run.run (l.lookedUp (Path.normalize name))
    with ⟨e | s, l₁⟩
  · rfl
  · dsimp only
    rw [Activity.run_bind?]
    rcases hfound : ((s.references.map Reference.canonicalId).mapM
      (below (chain ++ [Path.normalize name]))).run.run l₁ with _ | ⟨e | found, l₂⟩
    · rfl
    · rfl
    · dsimp only
      have hlength := Activity.length_of_run_mapM? hfound
      rw [List.length_map] at hlength
      rw [bindResults_of_length _ hlength, pure_bind, run_lift, run_keep]
      rfl

theorem run_descend_of_mem (hkey : Path.normalize name ∈ chain) :
    (descend files below chain name).run.run l =
      some (.error (.circularPartial (chain ++ [Path.normalize name])), l) := by
  rw [descend]
  simp only [hkey, if_true]
  rfl

/-- A run for a list of names, its first name first. -/
theorem run_mapM_cons (f : String → Descending Module) (name : String) (names : List String)
    (l : Loader) :
    ((name :: names).mapM f).run.run l =
      match (f name).run.run l with
      | none => none
      | some (.error e, u) => some (.error e, u)
      | some (.ok m, u) =>
        match (names.mapM f).run.run u with
        | none => none
        | some (r, v) => some (r.map (m :: ·), v) := by
  rw [List.mapM_cons, Activity.run_bind?]
  rcases (f name).run.run l with _ | ⟨e | m, u⟩
  · rfl
  · rfl
  · dsimp only
    rw [Activity.run_bind?]
    rcases (names.mapM f).run.run u with _ | ⟨e | ms, v⟩ <;> rfl

theorem run_loadAllBelow_cons (files : FileSystem) (chain : List String) (name : String)
    (names : List String) (l : Loader) :
    (loadAllBelow files chain (name :: names)).run.run l =
      match loadBelow files chain name l with
      | none => none
      | some (.error e, u) => some (.error e, u)
      | some (.ok m, u) =>
        match (loadAllBelow files chain names).run.run u with
        | none => none
        | some (r, v) => some (r.map (m :: ·), v) := run_mapM_cons _ name names l

/-- A course is a run. -/
theorem Course.run (h : Course files chain names l keys r l') :
    (loadAllBelow files chain names).run.run l = some (r, l') := by
  induction h with
  | nil => rfl
  | cycle names l hkey => rw [run_loadAllBelow_cons, loadBelow_eq, run_descend_of_mem hkey]
  | cached hkey hm _ ih =>
      rw [run_loadAllBelow_cons, loadBelow_eq, run_descend_of_module? hkey hm]
      dsimp only
      rw [ih]
  | noSource names hkey hnone he =>
      rw [run_loadAllBelow_cons, loadBelow_eq, run_descend_of_module?_none hkey hnone, he]
  | noPartial names hkey hnone hs _ ih =>
      rw [run_loadAllBelow_cons, loadBelow_eq, run_descend_of_module?_none hkey hnone, hs]
      rw [loadAllBelow] at ih
      dsimp only
      rw [ih]
  | kept hkey hnone hs _ _ ih ih' =>
      rw [run_loadAllBelow_cons, loadBelow_eq, run_descend_of_module?_none hkey hnone, hs]
      rw [loadAllBelow] at ih
      dsimp only
      rw [ih]
      dsimp only
      rw [ih']

/-- The course of one name goes on with that of the names behind it. -/
theorem Course.append_rest (h : Course files chain [name] l keys r l') :
    (∀ e, r = .error e → Course files chain (name :: names) l keys (.error e) l') ∧
      ∀ ms, r = .ok ms → ∀ more r' l'', Course files chain names l' more r' l'' →
        Course files chain (name :: names) l (keys ++ more) (r'.map (ms ++ ·)) l'' := by
  cases h with
  | cycle _ _ hkey =>
      refine ⟨fun e he => ?_, fun ms hms => nomatch hms⟩
      cases he
      exact .cycle names l hkey
  | cached hkey hm hrest =>
      cases hrest
      refine ⟨fun e he => (nomatch he), fun ms hms more r' l'' hmore => ?_⟩
      cases hms
      exact .cached hkey hm hmore
  | noSource _ hkey hnone he =>
      refine ⟨fun e' he' => ?_, fun ms hms => nomatch hms⟩
      cases he'
      exact .noSource names hkey hnone he
  | noPartial _ hkey hnone hs hbelow =>
      refine ⟨fun e' he' => ?_, fun ms hms => nomatch hms⟩
      cases he'
      exact .noPartial names hkey hnone hs hbelow
  | kept hkey hnone hs hbelow hrest =>
      cases hrest
      refine ⟨fun e he => (nomatch he), fun ms hms more r' l'' hmore => ?_⟩
      cases hms
      rw [List.append_nil]
      exact .kept hkey hnone hs hbelow hmore

/-- If every run for one name has a course, so has every run for a list of names. -/
theorem exists_course_mapM {f : String → Descending Module}
    (hf : ∀ name l r l', (f name).run.run l = some (r, l') →
      ∃ keys, Course files chain [name] l keys (r.map ([·])) l') {l : Loader}
    (h : (names.mapM f).run.run l = some (r, l')) : ∃ keys, Course files chain names l keys r l' := by
  induction names generalizing l r with
  | nil =>
      cases h
      exact ⟨[], .nil _ _⟩
  | cons name names ih =>
      rw [run_mapM_cons] at h
      rcases hname : (f name).run.run l with _ | ⟨e | m, u⟩
      · rw [hname] at h
        cases h
      · rw [hname] at h
        cases h
        obtain ⟨keys, hkeys⟩ := hf _ _ _ _ hname
        exact ⟨keys, hkeys.append_rest.1 e rfl⟩
      · rw [hname] at h
        dsimp only at h
        rcases hnames : (names.mapM f).run.run u with _ | ⟨r', v⟩
        · rw [hnames] at h
          cases h
        · rw [hnames] at h
          cases h
          obtain ⟨keys, hkeys⟩ := hf _ _ _ _ hname
          obtain ⟨more, hmore⟩ := ih hnames
          exact ⟨keys ++ more, hkeys.append_rest.2 [m] rfl more r' l' hmore⟩

/-- If every run below has a course, so has a run on this level. -/
theorem exists_course_descend
    (hbelow : ∀ chain name l r l', (below chain name).run.run l = some (r, l') →
      ∃ keys, Course files chain [name] l keys (r.map ([·])) l') {l : Loader}
    {r : Except Error Module}
    (h : (descend files below chain name).run.run l = some (r, l')) :
    ∃ keys, Course files chain [name] l keys (r.map ([·])) l' := by
  by_cases hkey : Path.normalize name ∈ chain
  · rw [run_descend_of_mem hkey] at h
    cases h
    exact ⟨[], .cycle [] _ hkey⟩
  cases hm : l.module? (Path.normalize name) with
  | some m =>
      rw [run_descend_of_module? hkey hm] at h
      cases h
      exact ⟨[], .cached hkey hm (.nil _ _)⟩
  | none =>
      rw [run_descend_of_module?_none hkey hm] at h
      rcases hs : (source files (Path.normalize name)).run.run
        (l.lookedUp (Path.normalize name)) with ⟨e | s, l₁⟩
      · rw [hs] at h
        cases h
        exact ⟨_, .noSource [] hkey hm hs⟩
      · rw [hs] at h
        dsimp only at h
        rcases hrefs : ((s.references.map Reference.canonicalId).mapM
          (below (chain ++ [Path.normalize name]))).run.run l₁ with _ | ⟨e | found, l₂⟩
        · rw [hrefs] at h
          cases h
        · rw [hrefs] at h
          cases h
          obtain ⟨keys, hkeys⟩ := exists_course_mapM (hbelow _) hrefs
          exact ⟨_, .noPartial [] hkey hm hs hkeys⟩
        · rw [hrefs] at h
          cases h
          obtain ⟨keys, hkeys⟩ := exists_course_mapM (hbelow _) hrefs
          exact ⟨_, .kept hkey hm hs hkeys (.nil _ _)⟩

/-- A run with an outcome is finite, so it has a course. -/
theorem exists_course_loadBelow {r : Except Error Module}
    (h : loadBelow files chain name l = some (r, l')) :
    ∃ keys, Course files chain [name] l keys (r.map ([·])) l' := by
  refine loadBelow.partial_correctness files (fun chain name l out =>
    ∃ keys, Course files chain [name] l keys (out.1.map ([·])) out.2) ?_ chain name l (r, l') h
  intro below ih chain name l out h
  have hbelow : ∀ chain name l r l', (show Descending Module from below chain name).run.run l =
      some (r, l') → ∃ keys, Course files chain [name] l keys (r.map ([·])) l' :=
    fun chain name l r l' h => ih chain name l (r, l') h
  exact exists_course_descend hbelow h

/-- Loads have an outcome exactly if they have a course. -/
theorem run_eq_some_iff :
    (loadAllBelow files chain names).run.run l = some (r, l') ↔
      ∃ keys, Course files chain names l keys r l' := by
  constructor
  · exact exists_course_mapM fun _ _ _ _ h => exists_course_loadBelow h
  · rintro ⟨keys, hkeys⟩
    exact hkeys.run

/-! ## What a course leaves behind -/

theorem fetchAll_append (files : FileSystem) (c : Config) (store : TextStore)
    (keys more : List String) :
    fetchAll files c store (keys ++ more) = fetchAll files c (fetchAll files c store keys) more :=
  List.foldl_append

/-- Fetches leave the graph of a store as it is. -/
theorem graph_fetchAll (files : FileSystem) (c : Config) (store : TextStore)
    (keys : List String) : graph files c (fetchAll files c store keys) = graph files c store := by
  induction keys generalizing store with
  | nil => rfl
  | cons key keys ih =>
      refine (ih _).trans ?_
      funext k
      rw [graph, graph, TextStore.place_fetch, TextStore.text_fetch]

/-- What a run leaves behind that fetched some keys: it fetched each of them once, and none that
was remembered before; they are remembered as they are in the store, if there is a template under
them, and there is one under each of them if the run succeeded. -/
structure Leaves (files : FileSystem) (l : Loader) (keys : List String) {α : Type}
    (r : Except Error α) (l' : Loader) : Prop where
  nodup : keys.Nodup
  fresh : ∀ k ∈ keys, l.sources.get? k = none
  sources : ∀ k, l'.sources.get? k =
    if k ∈ keys then (graph files l.config l.store k).toOption else l.sources.get? k
  config : l'.config = l.config
  store : l'.store = fetchAll files l.config l.store keys
  found : ∀ a, r = .ok a → ∀ k ∈ keys, ∃ s, graph files l.config l.store k = .ok s

variable {α β : Type}

theorem Leaves.refl (files : FileSystem) (l : Loader) (r : Except Error α) :
    Leaves files l [] r l :=
  ⟨.nil, (fun _ hk => nomatch hk), fun _ => rfl, rfl, rfl, fun _ _ _ hk => nomatch hk⟩

theorem Leaves.graph {r : Except Error α} (h : Leaves files l keys r l') :
    graph files l'.config l'.store = graph files l.config l.store := by
  rw [h.config, h.store, graph_fetchAll]

/-- A run that goes on after another one that succeeded. -/
theorem Leaves.trans {a : α} {r : Except Error β} (h : Leaves files l keys (.ok a) l')
    (h' : Leaves files l' more r l'') : Leaves files l (keys ++ more) r l'' := by
  have hmore : ∀ k ∈ more, k ∉ keys ∧ l.sources.get? k = none := by
    intro k hk
    have hnone := h'.fresh k hk
    rw [h.sources] at hnone
    split at hnone
    next hmem =>
      obtain ⟨s, hs⟩ := h.found a rfl k hmem
      rw [hs] at hnone
      cases hnone
    next hmem => exact ⟨hmem, hnone⟩
  refine ⟨List.nodup_append'.mpr ⟨h.nodup, h'.nodup, fun k hk hk' => (hmore k hk').1 hk⟩,
    fun k hk => ?_, fun k => ?_, h'.config.trans h.config, ?_, fun b hb k hk => ?_⟩
  · rcases List.mem_append.mp hk with hk | hk
    · exact h.fresh k hk
    · exact (hmore k hk).2
  · rw [h'.sources, h.graph, h.sources]
    by_cases hk' : k ∈ more
    · rw [if_pos hk', if_pos (List.mem_append_right _ hk')]
    · rw [if_neg hk']
      by_cases hk : k ∈ keys
      · rw [if_pos hk, if_pos (List.mem_append_left _ hk)]
      · rw [if_neg hk, if_neg (by simp [hk, hk'])]
  · rw [h'.store, h.config, h.store, fetchAll_append]
  · rcases List.mem_append.mp hk with hk | hk
    · exact h.found a rfl k hk
    · obtain ⟨s, hs⟩ := h'.found b hb k hk
      exact ⟨s, h.graph ▸ hs⟩

/-- What is left does not depend on what is made of a success. -/
theorem Leaves.map {r : Except Error α} (f : α → β) (h : Leaves files l keys r l') :
    Leaves files l keys (r.map f) l' := by
  refine ⟨h.nodup, h.fresh, h.sources, h.config, h.store, fun b hb => ?_⟩
  cases r with
  | error e => cases hb
  | ok a => exact h.found a rfl

/-- What is left does not depend on what was kept before. -/
theorem Leaves.congr {u : Loader} {r : Except Error α} (h : Leaves files u keys r l')
    (hsources : u.sources = l.sources) (hconfig : u.config = l.config)
    (hstore : u.store = l.store) : Leaves files l keys r l' := by
  obtain ⟨hnodup, hfresh, hsources', hconfig', hstore', hfound⟩ := h
  rw [hsources] at hfresh hsources'
  rw [hconfig] at hsources' hconfig' hstore' hfound
  rw [hstore] at hsources' hstore' hfound
  exact ⟨hnodup, hfresh, hsources', hconfig', hstore', hfound⟩

/-- A source that is asked for is fetched unless it is remembered. -/
theorem leaves_source {r : Except Error Source}
    (h : (source files key).run.run l = (r, l')) : Leaves files l (l.asked key) r l' := by
  rw [run_source] at h
  cases hs : l.sources.get? key with
  | some s =>
      have hasked : l.asked key = [] := by
        rw [asked, Dict.hasKey, hs]
        rfl
      rw [hs] at h
      cases h
      rw [hasked]
      exact .refl files l _
  | none =>
      have hasked : l.asked key = [key] := by
        rw [asked, Dict.hasKey, hs]
        rfl
      rw [hs] at h
      dsimp only at h
      have hfresh : ∀ k ∈ [key], l.sources.get? k = none := by
        intro k hk
        rw [List.mem_singleton.mp hk, hs]
      -- Nothing is remembered if there is no template.
      have hfailed : ∀ e, Loader.graph files l.config l.store key = .error e →
          Leaves files l (l.asked key) (.error e : Except Error Source)
            (l.fetched files (l.address key)) := by
        intro e he
        rw [hasked]
        refine ⟨List.nodup_singleton _, hfresh, fun k => ?_, rfl, rfl,
          fun _ ha => (by cases ha)⟩
        show l.sources.get? k = _
        split
        next hk => rw [List.mem_singleton.mp hk, he, hs]; rfl
        next _ => rfl
      rcases htext : l.store.text files (l.address key) with e | text
      · rw [htext] at h
        cases h
        exact hfailed e (by rw [address] at htext; simp only [Loader.graph, htext])
      rw [htext] at h
      dsimp only at h
      rcases ht : Template.compile key text l.config.options with e | t
      · rw [ht] at h
        cases h
        exact hfailed e (by rw [address] at htext; simp only [Loader.graph, htext, ht])
      rw [ht] at h
      cases h
      have hgraph := graph_of_compile htext ht
      rw [hasked]
      refine ⟨List.nodup_singleton _, hfresh, fun k => ?_, rfl, rfl, fun _ _ k hk => ?_⟩
      · show (l.sources.insert key _).get? k = _
        rw [Dict.get?_insert]
        by_cases hk : key = k
        · subst hk
          rw [if_pos rfl, if_pos List.mem_cons_self, hgraph]
          rfl
        · rw [if_neg hk, if_neg (by simpa [eq_comm] using hk)]
      · rw [List.mem_singleton.mp hk]
        exact ⟨_, hgraph⟩

theorem leaves_source_lookedUp {r : Except Error Source} {key' : String}
    (h : (source files key).run.run (l.lookedUp key') = (r, l')) :
    Leaves files l (l.asked key) r l' := (leaves_source h).congr rfl rfl rfl

/-- A course fetches a key only if it is not remembered, and never twice. -/
theorem Course.leaves (h : Course files chain names l keys r l') : Leaves files l keys r l' := by
  induction h with
  | nil chain l => exact .refl files l _
  | cycle names l _ => exact .refl files l _
  | cached _ _ _ ih => exact (ih.map _).congr rfl rfl rfl
  | noSource names _ _ he => exact (leaves_source_lookedUp he).map fun _ => []
  | noPartial names _ _ hs _ ih => exact (leaves_source_lookedUp hs).trans ih
  | kept _ _ hs _ _ ih ih' =>
      exact ((leaves_source_lookedUp hs).trans ih).trans ((ih'.map _).congr rfl rfl rfl)

/-! ## Courses from a coherent loader -/

/-- Loads of several templates take steps, and an error is met at one of them. -/
theorem Loads.mapM_meets {f : String → Descending Module} (hf : Loads files chain f)
    (hl : Coherent l) (h : (names.mapM f).run.run l = some (r, l')) :
    Steps files l l' ∧
      ∀ e, r = .error e → ∃ name ∈ names, (l.current files).Meets chain (Path.normalize name) e := by
  cases r with
  | ok found => exact ⟨(hf.mapM hl h).1, fun e he => nomatch he⟩
  | error e =>
      obtain ⟨before, id, after, found, u, rfl, hbefore, hid⟩ :=
        Activity.exists_of_run_mapM?_error h
      obtain ⟨hsteps, -⟩ := hf.mapM hl hbefore
      obtain ⟨hsteps', -, hmeets⟩ := hf _ _ _ _ (Steps.coherent hsteps hl) hid
      refine ⟨hsteps.trans hsteps', fun e' he' => ⟨id, List.mem_append_cons_self, ?_⟩⟩
      cases he'
      rw [← Steps.current hsteps]
      exact hmeets e rfl

theorem Course.steps (h : Course files chain names l keys r l') (hl : Coherent l) :
    Steps files l l' := ((loadBelow_loads files chain).mapM_meets hl h.run).1

theorem Course.meets (h : Course files chain names l keys r l') (hl : Coherent l)
    (he : r = .error e) : ∃ name ∈ names, (l.current files).Meets chain (Path.normalize name) e :=
  ((loadBelow_loads files chain).mapM_meets hl h.run).2 e he

/-- The source that a key was found to have is the one that the loader goes by, before and
after. -/
theorem steps_of_source (hs : (source files (Path.normalize name)).run.run
      (l.lookedUp (Path.normalize name)) = (.ok s, l')) :
    Steps files l l' ∧ l.current files (Path.normalize name) = .ok s := by
  have hlook : Step files l (l.lookedUp (Path.normalize name)) := .lookUp l _
  obtain ⟨hsteps, hsource⟩ := source_steps hs
  refine ⟨.head hlook hsteps, ?_⟩
  rw [← Steps.current (.head hlook hsteps)]
  exact remembered_within_current files l' _ _ (hsource s rfl)

/-- The partials that were loaded for a source make a module, which is the tree of its key. -/
theorem steps_of_kept {found : List Module} (hl : Coherent l)
    (hs : (source files (Path.normalize name)).run.run (l.lookedUp (Path.normalize name)) =
      (.ok s, l'))
    (hbelow : Course files chain (s.references.map Reference.canonicalId) l' keys (.ok found) l'') :
    Steps files l (l''.kept (Path.normalize name) (l''.composed s found)) := by
  have hlook : Step files l (l.lookedUp (Path.normalize name)) := .lookUp l _
  obtain ⟨hsteps, hsource⟩ := source_steps hs
  have hall : Steps files l l' := .head hlook hsteps
  obtain ⟨hsteps', htrees⟩ :=
    (loadBelow_loads files chain).mapM (Steps.coherent hall hl) hbelow.run
  have htree := unfolds_composed (Path.normalize name) (hsource s rfl) hsteps' htrees
  exact (hall.trans hsteps').tail (.keep l'' htree)

theorem eq_of_mem_asked {k : String} (h : k ∈ l.asked key) : k = key := by
  rw [asked] at h
  split at h
  · cases h
  · exact List.mem_singleton.mp h

/-- What is fetched for a name and for its partials is reached from the name. -/
theorem reaches_below
    (hs : (source files (Path.normalize name)).run.run (l.lookedUp (Path.normalize name)) =
      (.ok s, l'))
    (hbelow : ∀ k ∈ keys, ∃ id ∈ s.references.map Reference.canonicalId,
      (l'.current files).Reaches (Path.normalize id) k) :
    ∀ k ∈ l.asked (Path.normalize name) ++ keys,
      (l.current files).Reaches (Path.normalize name) k := by
  obtain ⟨hsteps, hsource⟩ := steps_of_source hs
  intro k hk
  rcases List.mem_append.mp hk with hk | hk
  · rw [eq_of_mem_asked hk]
    exact .refl
  · obtain ⟨id, hid, hreaches⟩ := hbelow k hk
    obtain ⟨r, hr, rfl⟩ := List.mem_map.mp hid
    rw [Steps.current hsteps] at hreaches
    exact .head (Graph.edge_of_mem hsource hr) hreaches

/-- A key that is fetched is reached from one of the names. -/
theorem Course.reaches (h : Course files chain names l keys r l') (hl : Coherent l) :
    ∀ k ∈ keys, ∃ name ∈ names, (l.current files).Reaches (Path.normalize name) k := by
  induction h with
  | nil => exact fun _ hk => nomatch hk
  | cycle => exact fun _ hk => nomatch hk
  | @cached _ name _ l _ _ _ _ _ _ _ ih =>
      have hlook : Step files l (l.lookedUp (Path.normalize name)) := .lookUp l _
      intro k hk
      obtain ⟨name', hname', hreaches⟩ := ih (hlook.coherent hl) k hk
      rw [hlook.current] at hreaches
      exact ⟨name', List.mem_cons_of_mem _ hname', hreaches⟩
  | noSource =>
      intro k hk
      rw [eq_of_mem_asked hk]
      exact ⟨_, List.mem_cons_self, .refl⟩
  | noPartial _ _ _ hs _ ih =>
      have hl₁ := Steps.coherent (steps_of_source hs).1 hl
      exact fun k hk => ⟨_, List.mem_cons_self, reaches_below hs (ih hl₁) k hk⟩
  | kept _ _ hs hbelow _ ih ih' =>
      have hl₁ := Steps.coherent (steps_of_source hs).1 hl
      have hsteps := steps_of_kept hl hs hbelow
      intro k hk
      rcases List.mem_append.mp hk with hk | hk
      · exact ⟨_, List.mem_cons_self, reaches_below hs (ih hl₁) k hk⟩
      · obtain ⟨name', hname', hreaches⟩ := ih' (Steps.coherent hsteps hl) k hk
        rw [Steps.current hsteps] at hreaches
        exact ⟨name', List.mem_cons_of_mem _ hname', hreaches⟩

/-- A run that succeeds remembers all that is reached, so it fetched what was not remembered. -/
theorem Course.mem_of_reaches {found : List Module} {k : String}
    (h : Course files chain names l keys (.ok found) l') (hl : Coherent l) (hname : name ∈ names)
    (hreaches : (l.current files).Reaches (Path.normalize name) k)
    (hnone : l.sources.get? k = none) : k ∈ keys := by
  obtain ⟨hsteps, htrees⟩ := (loadBelow_loads files chain).mapM hl h.run
  obtain ⟨m, -, htree⟩ := Activity.exists_of_forall₂ htrees hname
  rw [← Steps.current hsteps] at hreaches
  obtain ⟨d, hd⟩ := htree.exists_of_reaches_within (remembered_within_current files l') hreaches
  obtain ⟨s, hs⟩ := hd.exists_source
  rw [remembered_eq_ok, h.leaves.sources] at hs
  split at hs
  · assumption
  · rw [hnone] at hs
    cases hs

/-- Loads from the top come to what they come to on the way down from no one. -/
theorem loadAll_of_run (h : (loadAllBelow files [] names).run.run l = some (r, l')) :
    (loadAll files names).run.run l = (r, l') := by
  induction names generalizing l r with
  | nil =>
      cases h
      rfl
  | cons name names ih =>
      rw [run_loadAllBelow_cons] at h
      rw [loadAll, List.mapM_cons, Activity.run_bind, run_load]
      rcases hname : loadBelow files [] name l with _ | ⟨e | m, u⟩
      · rw [hname] at h
        cases h
      · rw [hname] at h
        cases h
        rfl
      · rw [hname] at h
        dsimp only [Option.getD_some] at h ⊢
        rw [Activity.run_bind]
        rcases hnames : (loadAllBelow files [] names).run.run u with _ | ⟨r', v⟩
        · rw [hnames] at h
          cases h
        · rw [hnames] at h
          cases h
          have hrest := ih hnames
          rw [loadAll] at hrest
          rw [hrest]
          cases r' <;> rfl

theorem Course.loadAll (h : Course files [] names l keys r l') :
    (loadAll files names).run.run l = (r, l') := loadAll_of_run h.run

/-- Loads have a course, or one of them goes on without end.  Then those in front of it have a
course, and the loader is left after them. -/
theorem exists_course_loadAll (files : FileSystem) (names : List String) (l : Loader) :
    (∃ keys r l', Course files [] names l keys r l') ∨
      ∃ before name after keys found u, names = before ++ name :: after ∧
        Course files [] before l keys (.ok found) u ∧ loadBelow files [] name u = none ∧
        (loadAll files names).run.run l = (.error endless, u) := by
  rcases h : (loadAllBelow files [] names).run.run l with _ | ⟨r, l'⟩
  · obtain ⟨before, name, after, found, u, rfl, hbefore, hnone⟩ :=
      Activity.exists_of_run_mapM?_none h
    obtain ⟨keys, hkeys⟩ := run_eq_some_iff.mp hbefore
    refine .inr ⟨before, name, after, keys, found, u, rfl, hkeys, hnone, ?_⟩
    have hfront := hkeys.loadAll
    rw [Loader.loadAll] at hfront ⊢
    have hload : (load files name).run.run u = (.error endless, u) := by
      rw [run_load]
      exact congrArg (Option.getD · _) hnone
    rw [List.mapM_append, Activity.run_bind_of_ok hfront]
    refine Activity.run_bind_of_error ?_ _
    rw [List.mapM_cons]
    exact Activity.run_bind_of_error hload _
  · obtain ⟨keys, hkeys⟩ := run_eq_some_iff.mp h
    exact .inl ⟨keys, r, l', hkeys⟩

/-- What a loader is used for comes to an end without an error. -/
def Succeeds (files : FileSystem) (l : Loader) : Operation → Prop
  | .load name => ∃ m, ((load files name).run.run l).1 = .ok m
  | .resolve ids => ∃ found, ((Loader.loadAll files ids).run.run l).1 = .ok found
  | .forget => True

/-- Whatever a loader is used for, except forgetting, it is left after a course, which succeeds if
that does. -/
theorem exists_course_perform (files : FileSystem) (l : Loader) {op : Operation}
    (hop : op ≠ .forget) :
    ∃ names keys r, Course files [] names l keys r (l.perform files op) ∧
      (l.Succeeds files op → ∃ found, r = .ok found) := by
  cases op with
  | load name =>
      show ∃ names keys r, Course files [] names l keys r ((load files name).run.run l).2 ∧
        ((∃ m, ((load files name).run.run l).1 = .ok m) → ∃ found, r = .ok found)
      rw [run_load]
      rcases h : loadBelow files [] name l with _ | ⟨r, l'⟩
      · exact ⟨[], [], .ok [], .nil [] l, fun _ => ⟨[], rfl⟩⟩
      · obtain ⟨keys, hkeys⟩ := exists_course_loadBelow h
        refine ⟨_, keys, _, hkeys, ?_⟩
        rintro ⟨m, hm⟩
        exact ⟨[m], congrArg (Except.map ([·])) hm⟩
  | resolve ids =>
      show ∃ names keys r,
        Course files [] names l keys r ((Loader.loadAll files ids).run.run l).2 ∧
          ((∃ found, ((Loader.loadAll files ids).run.run l).1 = .ok found) →
            ∃ found, r = .ok found)
      rcases exists_course_loadAll files ids l with ⟨keys, r, l', hkeys⟩ |
        ⟨before, -, -, keys, found, u, -, hkeys, -, hrun⟩
      · rw [hkeys.loadAll]
        exact ⟨ids, keys, r, hkeys, id⟩
      · rw [hrun]
        exact ⟨before, keys, .ok found, hkeys, fun _ => ⟨found, rfl⟩⟩
  | forget => exact absurd rfl hop

end Stencil.Loader
