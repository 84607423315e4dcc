/-
The registry of a loader.

A loader keeps one module for each key and shares it between all that refer to it.  What is kept
under a key was made from the one source that is remembered for the key, and its partials are the
very modules that are kept under the keys of the references.  This holds in every state that a
loader gets into, also if its store is changed behind its back, so nothing here is said about the
texts of the store.

A load keeps the keys on its chain out of the registry: a key that is met again on the way down is
an error before it is looked up.  So no key on the way to a failure is kept, and nothing that is
kept leads to one.
-/
import Mathlib
import Stencil.Proofs.Loader.History

namespace Stencil

theorem Cache.keep_of_none {α : Type} {c : Cache α} {id : String} (h : c.entries.get? id = none)
    (value : α) : c.keep id value = (value, { c with entries := c.entries.insert id value }) := by
  rw [keep, h]

namespace Loader

variable {files : FileSystem} {l l' l'' : Loader} {chain : List String} {key name : String}
  {m : Module}

/-- The module that is kept under a key. -/
def module? (l : Loader) (key : String) : Option Module := l.cache.entries.get? key

/-- A module fits the registry: its key is in normal form, it was made from the source that is
remembered for the key, with the references that the tags of the template resolve to, and it has a
partial for the name of each reference and no other, which is the module that is kept for the
reference. -/
structure Registered (l : Loader) (key : String) (m : Module) : Prop where
  normal : Path.normalize key = key
  source : l.sources.get? key = some (sourceOf l.config key m.template)
  names : ∀ name, m.partials.hasKey name ↔
    ∃ r ∈ (sourceOf l.config key m.template).references, r.name = name
  shared : ∀ r ∈ (sourceOf l.config key m.template).references,
    ∃ p, m.partials.get? r.name = some p ∧ l.module? r.key = some p

/-- Everything that is kept fits the registry, and the numbers tell all modules apart. -/
structure Registry (l : Loader) : Prop where
  sources : ∀ key s, l.sources.get? key = some s →
    Path.normalize key = key ∧ s = sourceOf l.config key s.template
  registered : ∀ key m, l.module? key = some m → l.Registered key m
  serial_lt : ∀ key m, l.module? key = some m → m.serial < l.made
  serial_injective : ∀ key key' m m', l.module? key = some m → l.module? key' = some m' →
    m.serial = m'.serial → key = key'

/-- A later state of a loader: what was remembered and what was kept is still there, under the same
configuration, and the store has the same graph. -/
structure Grows (files : FileSystem) (l l' : Loader) : Prop where
  sources : ∀ key s, l.sources.get? key = some s → l'.sources.get? key = some s
  modules : ∀ key m, l.module? key = some m → l'.module? key = some m
  config : l'.config = l.config
  graph : graph files l'.config l'.store = graph files l.config l.store

theorem Grows.refl : Grows files l l := ⟨fun _ _ h => h, fun _ _ h => h, rfl, rfl⟩

theorem Grows.trans (h : Grows files l l') (h' : Grows files l' l'') : Grows files l l'' :=
  ⟨fun k s hs => h'.sources k s (h.sources k s hs), fun k m hm => h'.modules k m (h.modules k m hm),
    h'.config.trans h.config, h'.graph.trans h.graph⟩

theorem Registered.mono (h : l.Registered key m) (hgrows : Grows files l l') :
    l'.Registered key m := by
  obtain ⟨hnormal, hsource, hnames, hshared⟩ := h
  rw [← hgrows.config] at hsource hnames hshared
  refine ⟨hnormal, hgrows.sources _ _ hsource, hnames, fun r hr => ?_⟩
  obtain ⟨p, hp, hkept⟩ := hshared r hr
  exact ⟨p, hp, hgrows.modules _ _ hkept⟩

/-! ## One change -/

/-- The registry is a matter of what is remembered and what is kept. -/
theorem Registry.congr (h : Registry l) (hconfig : l'.config = l.config)
    (hsources : l'.sources = l.sources) (hmodules : l'.cache.entries = l.cache.entries)
    (hmade : l'.made = l.made) : Registry l' := by
  obtain ⟨config, store, ⟨entries, hits, misses⟩, sources, recording, session, made⟩ := l
  obtain ⟨config', store', ⟨entries', hits', misses'⟩, sources', recording', session', made'⟩ := l'
  cases hconfig
  cases hsources
  cases hmodules
  cases hmade
  exact ⟨h.sources, fun k m hm => ⟨(h.registered k m hm).normal, (h.registered k m hm).source,
    (h.registered k m hm).names, (h.registered k m hm).shared⟩, h.serial_lt, h.serial_injective⟩

theorem Registry.lookedUp (h : Registry l) (key : String) : Registry (l.lookedUp key) :=
  h.congr rfl rfl (Cache.entries_find _ _) rfl

theorem module?_lookedUp (l : Loader) (key key' : String) :
    (l.lookedUp key).module? key' = l.module? key' := by
  rw [module?, lookedUp, Cache.entries_find]
  rfl

theorem grows_lookedUp (l : Loader) (key : String) : Grows files l (l.lookedUp key) := by
  refine ⟨fun _ _ h => h, fun k m hm => ?_, rfl, rfl⟩
  rw [module?_lookedUp]
  exact hm

theorem Registry.fetched (h : Registry l) (address : String) :
    Registry (l.fetched files address) := h.congr rfl rfl rfl rfl

theorem grows_fetched (files : FileSystem) (l : Loader) (address : String) :
    Grows files l (l.fetched files address) :=
  ⟨fun _ _ h => h, fun _ _ h => h, rfl, (Step.fetch l address).graph⟩

theorem grows_remember {s : Source} (hnew : l.sources.get? key = none) :
    Grows files l (remember key s l) := by
  refine ⟨fun k s' hs' => ?_, fun _ _ h => h, rfl, rfl⟩
  have hne : key ≠ k := by
    rintro rfl
    rw [hnew] at hs'
    cases hs'
  exact (Dict.get?_insert_ne hne s l.sources).trans hs'

theorem Registry.remember (h : Registry l) (hnew : l.sources.get? key = none)
    (hkey : Path.normalize key = key) (t : Template) :
    Registry (remember key (sourceOf l.config key t) l) := by
  have hgrows : Grows .empty l (Loader.remember key (sourceOf l.config key t) l) :=
    grows_remember hnew
  refine ⟨fun k s hs => ?_, fun k m hm => (h.registered k m hm).mono hgrows, h.serial_lt,
    h.serial_injective⟩
  change (l.sources.insert _ _).get? k = some s at hs
  rw [Dict.get?_insert] at hs
  split at hs
  next hk =>
    cases hk
    cases hs
    exact ⟨hkey, rfl⟩
  next _ => exact h.sources k s hs

theorem module?_kept (hnone : l.module? key = none) (m : Module) (key' : String) :
    (l.kept key m).module? key' = if key = key' then some m else l.module? key' := by
  rw [module?, kept, Cache.keep_of_none hnone, Dict.get?_insert]
  rfl

theorem grows_kept (files : FileSystem) (hnone : l.module? key = none) (m : Module) :
    Grows files l (l.kept key m) := by
  refine ⟨fun _ _ h => h, fun k m' hm' => ?_, rfl, rfl⟩
  have hne : key ≠ k := by
    rintro rfl
    rw [hnone] at hm'
    cases hm'
  rw [module?_kept hnone, if_neg hne]
  exact hm'

/-- The module that is made of a source and the modules kept for its references is registered. -/
theorem registered_composed (h : Registry l) {s : Source} {found : List Module}
    (hs : l.sources.get? key = some s) (hnone : l.module? key = none)
    (hfound : List.Forall₂ (fun r m => l.module? r.key = some m) s.references found) :
    (l.kept key (l.composed s found)).Registered key (l.composed s found) := by
  obtain ⟨hkey, hsource⟩ := h.sources key s hs
  have hnodup : (s.references.map Reference.name).Nodup := by
    rw [hsource]
    exact (Reference.sound_resolvePartials _ _).nodup
  have hkeys : Dict.keys ((s.references.map Reference.name).zip found) =
      s.references.map Reference.name :=
    List.map_fst_zip (by rw [List.length_map, hfound.length_eq])
  have htemplate : sourceOf (l.kept key (l.composed s found)).config key
      (l.composed s found).template = s := hsource.symm
  refine ⟨hkey, ?_, fun name => ?_, fun r hr => ?_⟩
  · rw [htemplate]
    exact hs
  · rw [htemplate, Dict.hasKey_iff_mem_keys]
    show name ∈ (Dict.ofPairs ((s.references.map Reference.name).zip found)).keys ↔ _
    rw [Dict.mem_keys_ofPairs (by rwa [hkeys]), hkeys, List.mem_map]
  · rw [htemplate] at hr
    obtain ⟨p, hp, hkept⟩ := Dict.exists_get?_ofPairs_zip hnodup hfound hr
    exact ⟨p, hp, (grows_kept .empty hnone _).modules _ _ hkept⟩

theorem Registry.kept (h : Registry l) {s : Source} {found : List Module}
    (hs : l.sources.get? key = some s) (hnone : l.module? key = none)
    (hfound : List.Forall₂ (fun r m => l.module? r.key = some m) s.references found) :
    Registry (l.kept key (l.composed s found)) := by
  have hcases : ∀ k m, (l.kept key (l.composed s found)).module? k = some m →
      key = k ∧ m = l.composed s found ∨ l.module? k = some m := by
    intro k m hm
    rw [module?_kept hnone] at hm
    split at hm
    next hk => exact .inl ⟨hk, (Option.some.inj hm).symm⟩
    next _ => exact .inr hm
  refine ⟨h.sources, fun k m hm => ?_, fun k m hm => ?_, fun k k' m m' hm hm' hserial => ?_⟩
  · rcases hcases k m hm with ⟨rfl, rfl⟩ | hm
    · exact registered_composed h hs hnone hfound
    · exact (h.registered k m hm).mono (grows_kept .empty hnone _)
  · rcases hcases k m hm with ⟨-, rfl⟩ | hm
    · exact Nat.lt_succ_self _
    · exact Nat.lt_succ_of_lt (h.serial_lt k m hm)
  · rcases hcases k m hm with ⟨rfl, rfl⟩ | hm
    · rcases hcases k' m' hm' with ⟨rfl, -⟩ | hm'
      · rfl
      · exact absurd hserial (Nat.ne_of_gt (h.serial_lt k' m' hm'))
    · rcases hcases k' m' hm' with ⟨rfl, rfl⟩ | hm'
      · exact absurd hserial (Nat.ne_of_lt (h.serial_lt k m hm))
      · exact h.serial_injective k k' m m' hm hm' hserial

/-! ## Loads -/

/-- The way down to what a load failed for, from a key that was met on the way down from those in a
chain.  It ends at a key on its own chain, or at one that no template can be had for.  The partials
in front of it were loaded. -/
inductive FailingPath (files : FileSystem) (l : Loader) :
    List String → String → Error → List String → Prop
  | cycle {chain : List String} {key : String} (hkey : key ∈ chain) :
      FailingPath files l chain key (.circularPartial (chain ++ [key])) [key]
  | missing {chain : List String} {key : String} {e : Error} (hkey : key ∉ chain)
      (hnone : l.sources.get? key = none) (he : graph files l.config l.store key = .error e) :
      FailingPath files l chain key e [key]
  | deeper {chain : List String} {key : String} {s : Source} {before after : List Reference}
      {r : Reference} {e : Error} {path : List String} (hkey : key ∉ chain)
      (hs : l.sources.get? key = some s) (hrefs : s.references = before ++ r :: after)
      (hbefore : ∀ b ∈ before, ∃ m, l.module? b.key = some m)
      (hpath : FailingPath files l (chain ++ [key]) r.key e path) :
      FailingPath files l chain key e (key :: path)

/-- What comes of the source of a key: it is remembered in the end, or it cannot be had. -/
theorem source_grows {r : Except Error Source} (h : Registry l)
    (hrun : (source files (Path.normalize name)).run.run l = (r, l')) :
    Registry l' ∧ Grows files l l' ∧ (∀ k, l'.module? k = l.module? k) ∧
      (∀ s, r = .ok s → l'.sources.get? (Path.normalize name) = some s) ∧
      ∀ e, r = .error e → l'.sources.get? (Path.normalize name) = none ∧
        graph files l'.config l'.store (Path.normalize name) = .error e := by
  have herror : ∀ e, r = .error e →
      graph files l.config l.store (Path.normalize name) = .error e := by
    rintro e rfl
    exact graph_of_source_error hrun
  rw [run_source] at hrun
  split at hrun
  next s hs =>
    cases hrun
    refine ⟨h, .refl, fun _ => rfl, fun s' hs' => ?_, fun e he => nomatch he⟩
    cases hs'
    exact hs
  next hnone =>
    have hfetched : Registry (l.fetched files (l.address (Path.normalize name))) := h.fetched _
    have hgrows := grows_fetched files l (l.address (Path.normalize name))
    have hfail : ∀ e, r = .error e →
        (l.fetched files (l.address (Path.normalize name))).sources.get? (Path.normalize name) =
          none ∧ graph files (l.fetched files (l.address (Path.normalize name))).config
            (l.fetched files (l.address (Path.normalize name))).store (Path.normalize name) =
              .error e := by
      intro e he
      rw [hgrows.graph]
      exact ⟨hnone, herror e he⟩
    split at hrun
    next e _ =>
      cases hrun
      exact ⟨hfetched, hgrows, fun _ => rfl, (fun s hs => nomatch hs), hfail⟩
    next text _ =>
      split at hrun
      next e _ =>
        cases hrun
        exact ⟨hfetched, hgrows, fun _ => rfl, (fun s hs => nomatch hs), hfail⟩
      next t _ =>
        cases hrun
        refine ⟨hfetched.remember hnone (Path.normalize_normalize name) t,
          hgrows.trans (grows_remember hnone), fun _ => rfl, fun s hs => ?_, fun e he => nomatch he⟩
        cases hs
        exact Dict.get?_insert_self _ _ _

/-- What a load on the way down from a chain does to the registry, if no key on the chain is kept:
it only adds to it, and none of these keys; the module that it returns is kept; and if it fails, no
key on the way to the failure is kept. -/
def Registers (files : FileSystem) (chain : List String) (f : String → Descending Module) : Prop :=
  ∀ name l r l', Registry l → (∀ k ∈ chain, l.module? k = none) →
    (f name).run.run l = some (r, l') →
      Registry l' ∧ Grows files l l' ∧ (∀ k ∈ chain, l'.module? k = none) ∧
        (∀ m, r = .ok m → l'.module? (Path.normalize name) = some m) ∧
        ∀ e, r = .error e → ∃ path, FailingPath files l' chain (Path.normalize name) e path ∧
          ∀ k ∈ path, l'.module? k = none

variable {f : String → Descending Module}

/-- Loads of several templates keep the modules of all of them. -/
theorem Registers.mapM (hf : Registers files chain f) {names : List String} {l l' : Loader}
    {found : List Module} (hl : Registry l) (hchain : ∀ k ∈ chain, l.module? k = none)
    (h : (names.mapM f).run.run l = some (.ok found, l')) :
    Registry l' ∧ Grows files l l' ∧ (∀ k ∈ chain, l'.module? k = none) ∧
      List.Forall₂ (fun name m => l'.module? (Path.normalize name) = some m) names found := by
  obtain ⟨⟨hl', hchain'⟩, hgrows, hfound⟩ := Activity.forall₂_of_run_mapM?
    (P := fun l => Registry l ∧ ∀ k ∈ chain, l.module? k = none) (R := Grows files)
    (Q := fun l name m => l.module? (Path.normalize name) = some m) (fun _ => .refl)
    (fun hgrows hgrows' => hgrows.trans hgrows') (fun hgrows hm => hgrows.modules _ _ hm)
    (fun {name m l l'} hl hname => by
      obtain ⟨hl', hgrows, hchain', hm, -⟩ := hf name l _ _ hl.1 hl.2 hname
      exact ⟨⟨hl', hchain'⟩, hgrows, hm m rfl⟩) ⟨hl, hchain⟩ h
  exact ⟨hl', hgrows, hchain', hfound⟩

/-- A key that is kept and not on the chain is only looked up. -/
theorem run_descend_of_module? {below : List String → String → Descending Module}
    (hkey : Path.normalize name ∉ chain) (hm : l.module? (Path.normalize name) = some m) :
    (descend files below chain name).run.run l =
      some (.ok m, l.lookedUp (Path.normalize name)) := by
  rw [descend]
  simp only [hkey, if_false]
  rw [Activity.run_bind?, run_lift, run_cached?]
  change l.cache.entries.get? (Path.normalize name) = some m at hm
  rw [hm]
  rfl

/-- What a load of a key does to the registry on the way down from a chain. -/
structure RegistersTo (files : FileSystem) (chain : List String) (key : String) (l : Loader)
    (r : Except Error Module) (l' : Loader) : Prop where
  registry : Registry l'
  grows : Grows files l l'
  unkept : ∀ k ∈ chain, l'.module? k = none
  ok : ∀ m, r = .ok m → l'.module? key = some m
  error : ∀ e, r = .error e →
    ∃ path, FailingPath files l' chain key e path ∧ ∀ k ∈ path, l'.module? k = none

theorem registersTo_cycle (files : FileSystem) (hl : Registry l)
    (hchain : ∀ k ∈ chain, l.module? k = none) (hkey : key ∈ chain) :
    RegistersTo files chain key l (.error (.circularPartial (chain ++ [key]))) l := by
  refine ⟨hl, .refl, hchain, (fun m hm => nomatch hm), fun e he => ?_⟩
  cases he
  refine ⟨[key], .cycle hkey, fun k hk => ?_⟩
  rw [List.mem_singleton.mp hk]
  exact hchain _ hkey

theorem registersTo_cached (files : FileSystem) (hl : Registry l)
    (hchain : ∀ k ∈ chain, l.module? k = none) (hm : l.module? key = some m) :
    RegistersTo files chain key l (.ok m) (l.lookedUp key) := by
  refine ⟨hl.lookedUp key, grows_lookedUp l key, fun k hk => ?_, fun m' hm' => ?_,
    fun e he => nomatch he⟩
  · rw [module?_lookedUp]
    exact hchain k hk
  · cases hm'
    rw [module?_lookedUp]
    exact hm

/-- The source of a key that is not kept: the chain of what is below has this key too, and none of
its keys is kept. -/
theorem not_kept_of_source {r : Except Error Source} (hl : Registry l)
    (hchain : ∀ k ∈ chain ++ [Path.normalize name], l.module? k = none)
    (hrun : (source files (Path.normalize name)).run.run (l.lookedUp (Path.normalize name)) =
      (r, l')) : ∀ k ∈ chain ++ [Path.normalize name], l'.module? k = none := by
  obtain ⟨-, -, hsame, -⟩ := source_grows (hl.lookedUp _) hrun
  intro k hk
  rw [hsame, module?_lookedUp]
  exact hchain k hk

theorem registersTo_noSource {e : Error} (hl : Registry l)
    (hchain : ∀ k ∈ chain ++ [Path.normalize name], l.module? k = none)
    (hkey : Path.normalize name ∉ chain)
    (he : (source files (Path.normalize name)).run.run (l.lookedUp (Path.normalize name)) =
      (.error e, l')) : RegistersTo files chain (Path.normalize name) l (.error e) l' := by
  obtain ⟨hl', hgrows, -, -, herror⟩ := source_grows (hl.lookedUp _) he
  have hnone := not_kept_of_source hl hchain he
  refine ⟨hl', (grows_lookedUp l _).trans hgrows, fun k hk => hnone k (List.mem_append_left _ hk),
    (fun m hm => nomatch hm), fun e' he' => ?_⟩
  cases he'
  obtain ⟨hsource, hgraph⟩ := herror _ rfl
  exact ⟨[Path.normalize name], .missing hkey hsource hgraph,
    fun k hk => hnone k (List.mem_append_right _ hk)⟩

theorem registersTo_noPartial {below : String → Descending Module} {s : Source} {l₁ : Loader}
    {e : Error} (hbelow : Registers files (chain ++ [Path.normalize name]) below)
    (hl : Registry l) (hchain : ∀ k ∈ chain ++ [Path.normalize name], l.module? k = none)
    (hkey : Path.normalize name ∉ chain)
    (hs : (source files (Path.normalize name)).run.run (l.lookedUp (Path.normalize name)) =
      (.ok s, l₁))
    (he : ((s.references.map Reference.canonicalId).mapM below).run.run l₁ =
      some (.error e, l')) : RegistersTo files chain (Path.normalize name) l (.error e) l' := by
  obtain ⟨hl₁, hgrows₁, -, hsource, -⟩ := source_grows (hl.lookedUp _) hs
  have hchain₁ := not_kept_of_source hl hchain hs
  -- Some reference failed, behind others that were loaded.
  obtain ⟨before, id, after, found, u, hrefs, hbefore, hid⟩ := Activity.exists_of_run_mapM?_error he
  obtain ⟨hu, hgrows₂, hchain₂, hkept⟩ := hbelow.mapM hl₁ hchain₁ hbefore
  obtain ⟨hl', hgrows₃, hchain₃, -, hfail⟩ := hbelow _ _ _ _ hu hchain₂ hid
  obtain ⟨front, rest, hsplit, rfl, hrest⟩ := List.map_eq_append_iff.mp hrefs
  obtain ⟨r, back, rfl, rfl, -⟩ := List.map_eq_cons_iff.mp hrest
  refine ⟨hl', (grows_lookedUp l _).trans (hgrows₁.trans (hgrows₂.trans hgrows₃)),
    fun k hk => hchain₃ k (List.mem_append_left _ hk), (fun m hm => nomatch hm),
    fun e' he' => ?_⟩
  cases he'
  obtain ⟨path, hpath, hnone⟩ := hfail e rfl
  have hremembered := hgrows₃.sources _ _ (hgrows₂.sources _ _ (hsource s rfl))
  refine ⟨Path.normalize name :: path, .deeper hkey hremembered hsplit (fun b hb => ?_) hpath,
    fun k hk => ?_⟩
  · obtain ⟨m, -, hm⟩ := Activity.exists_of_forall₂ hkept (List.mem_map_of_mem hb)
    exact ⟨m, hgrows₃.modules _ _ hm⟩
  · rcases List.mem_cons.mp hk with rfl | hk
    · exact hchain₃ _ List.mem_append_cons_self
    · exact hnone k hk

theorem registersTo_kept {below : String → Descending Module} {s : Source} {l₁ l₂ : Loader}
    {found : List Module} (hbelow : Registers files (chain ++ [Path.normalize name]) below)
    (hl : Registry l) (hchain : ∀ k ∈ chain ++ [Path.normalize name], l.module? k = none)
    (hkey : Path.normalize name ∉ chain)
    (hs : (source files (Path.normalize name)).run.run (l.lookedUp (Path.normalize name)) =
      (.ok s, l₁))
    (hfound : ((s.references.map Reference.canonicalId).mapM below).run.run l₁ =
      some (.ok found, l₂)) :
    RegistersTo files chain (Path.normalize name) l
      (.ok (l₂.cache.keep (Path.normalize name) (l₂.composed s found)).1)
      (l₂.kept (Path.normalize name) (l₂.composed s found)) := by
  obtain ⟨hl₁, hgrows₁, -, hsource, -⟩ := source_grows (hl.lookedUp _) hs
  have hchain₁ := not_kept_of_source hl hchain hs
  obtain ⟨hl₂, hgrows₂, hchain₂, hkept⟩ := hbelow.mapM hl₁ hchain₁ hfound
  have hnone : l₂.module? (Path.normalize name) = none := hchain₂ _ List.mem_append_cons_self
  have hremembered := hgrows₂.sources _ _ (hsource s rfl)
  refine ⟨hl₂.kept hremembered hnone (List.forall₂_map_left_iff.mp hkept),
    (grows_lookedUp l _).trans (hgrows₁.trans (hgrows₂.trans (grows_kept files hnone _))),
    fun k hk => ?_, fun m hm => ?_, fun e he => nomatch he⟩
  · have hne : Path.normalize name ≠ k := by
      rintro rfl
      exact hkey hk
    rw [module?_kept hnone, if_neg hne]
    exact hchain₂ k (List.mem_append_left _ hk)
  · cases hm
    rw [module?_kept hnone, if_pos rfl, Cache.keep_of_none hnone]

/-- If what is below is registered as it should be, so is a template. -/
theorem descend_registers {below : List String → String → Descending Module}
    (hbelow : ∀ chain, Registers files chain (below chain)) (chain : List String) :
    Registers files chain (descend files below chain) := by
  intro name l r l' hl hchain h
  have hregisters : RegistersTo files chain (Path.normalize name) l r l' := by
    cases hm : l.module? (Path.normalize name) with
    | some m =>
        have hkey : Path.normalize name ∉ chain := by
          intro hkey
          rw [hchain _ hkey] at hm
          cases hm
        rw [run_descend_of_module? hkey hm] at h
        cases h
        exact registersTo_cached files hl hchain hm
    | none =>
        have hchain' : ∀ k ∈ chain ++ [Path.normalize name], l.module? k = none := by
          intro k hk
          rcases List.mem_append.mp hk with hk | hk
          · exact hchain k hk
          · rw [List.mem_singleton.mp hk]
            exact hm
        have hout := outcome_descend files below chain name l
        rw [h] at hout
        cases hout with
        | cycle hkey => exact registersTo_cycle files hl hchain hkey
        | cached _ hm' =>
            rw [module?, hm'] at hm
            cases hm
        | noSource hkey he => exact registersTo_noSource hl hchain' hkey he
        | noPartial hkey hs he => exact registersTo_noPartial (hbelow _) hl hchain' hkey hs he
        | kept hkey hs hfound => exact registersTo_kept (hbelow _) hl hchain' hkey hs hfound
  exact ⟨hregisters.registry, hregisters.grows, hregisters.unkept, hregisters.ok, hregisters.error⟩

/-- A load registers what it makes.  A load with an outcome is finite, so this is an induction on
it. -/
theorem loadBelow_registers (files : FileSystem) (chain : List String) :
    Registers files chain (loadBelow files chain) := by
  intro name l r l' hl hchain h
  refine loadBelow.partial_correctness files (fun chain name l out => Registry l →
    (∀ k ∈ chain, l.module? k = none) →
      Registry out.2 ∧ Grows files l out.2 ∧ (∀ k ∈ chain, out.2.module? k = none) ∧
        (∀ m, out.1 = .ok m → out.2.module? (Path.normalize name) = some m) ∧
        ∀ e, out.1 = .error e → ∃ path,
          FailingPath files out.2 chain (Path.normalize name) e path ∧
            ∀ k ∈ path, out.2.module? k = none)
    ?_ chain name l (r, l') h hl hchain
  intro below ih chain name l out h hl hchain
  have hbelow : ∀ chain, Registers files chain (below chain) :=
    fun chain name l r l' hl hchain h => ih chain name l (r, l') h hl hchain
  exact descend_registers hbelow chain name l out.1 out.2 hl hchain h

/-- What a load does to the registry. -/
theorem load_registers (hl : Registry l) (files : FileSystem) (name : String) :
    Registry ((load files name).run.run l).2 ∧ Grows files l ((load files name).run.run l).2 ∧
      (∀ m, ((load files name).run.run l).1 = .ok m →
        ((load files name).run.run l).2.module? (Path.normalize name) = some m) ∧
      ∀ e, ((load files name).run.run l).1 = .error e →
        e = endless ∧ ((load files name).run.run l).2 = l ∨
        ∃ path, FailingPath files ((load files name).run.run l).2 [] (Path.normalize name) e path ∧
          ∀ k ∈ path, ((load files name).run.run l).2.module? k = none := by
  rcases run_load_cases files name l with hout | ⟨-, hout⟩
  · obtain ⟨hl', hgrows, -, hok, herror⟩ :=
      loadBelow_registers files [] name l _ _ hl (fun _ hk => nomatch hk) hout
    exact ⟨hl', hgrows, hok, fun e he => .inr (herror e he)⟩
  · rw [hout]
    refine ⟨hl, .refl, (fun m hm => nomatch hm), fun e he => ?_⟩
    cases he
    exact .inl ⟨rfl, rfl⟩

/-- A loader that was made and used somehow, while its store changed now and then. -/
inductive Reachable : Loader → Prop
  | make {config : Config} {store : TextStore} {recording : Bool} {l : Loader}
      (h : ofConfig config store recording = .ok l) : Reachable l
  | perform {l : Loader} (h : Reachable l) (files : FileSystem) (op : Operation) :
      Reachable (l.perform files op)
  | update {l : Loader} (h : Reachable l) (store : TextStore) : Reachable { l with store := store }

theorem loadAll_registers (hl : Registry l) (files : FileSystem) (ids : List String) :
    Registry ((loadAll files ids).run.run l).2 ∧
      Grows files l ((loadAll files ids).run.run l).2 := by
  refine Activity.run_mapM_induction (P := fun u => Registry u ∧ Grows files l u)
    (fun id _ u hu => ?_) ⟨hl, .refl⟩
  obtain ⟨hl', hgrows, -⟩ := load_registers hu.1 files id
  exact ⟨hl', hu.2.trans hgrows⟩

theorem Registry.forget (h : Registry l) : Registry l.forget :=
  ⟨h.sources, (fun _ _ hm => nomatch hm), (fun _ _ hm => nomatch hm), fun _ _ _ _ hm => nomatch hm⟩

theorem Registry.perform (h : Registry l) (files : FileSystem) (op : Operation) :
    Registry (l.perform files op) := by
  cases op with
  | load name => exact (load_registers h files name).1
  | resolve ids => exact (loadAll_registers h files ids).1
  | forget => exact h.forget

theorem Reachable.registry (h : Reachable l) : Registry l := by
  induction h with
  | @make config store recording l h =>
      rw [ofConfig] at h
      obtain ⟨⟨⟩, -, h⟩ := Activity.bind_eq_ok.mp h
      cases h
      exact ⟨fun _ _ hs => (by cases hs), fun _ _ hm => (by cases hm), fun _ _ hm => (by cases hm),
        fun _ _ _ _ hm => (by cases hm)⟩
  | perform _ files op ih => exact ih.perform files op
  | update _ store ih => exact ih.congr rfl rfl rfl rfl

/-- What a kept module leads to is kept. -/
theorem Registry.exists_of_reaches (h : Registry l) (hm : l.module? key = some m) {key' : String}
    (hreaches : l.remembered.Reaches key key') : ∃ m', l.module? key' = some m' := by
  induction hreaches with
  | refl => exact ⟨m, hm⟩
  | tail _ hedge ih =>
      obtain ⟨m', hm'⟩ := ih
      obtain ⟨s, hs, r, hr, rfl⟩ := hedge
      obtain ⟨-, hsource, -, hshared⟩ := h.registered _ _ hm'
      rw [remembered_eq_ok, hsource] at hs
      cases hs
      obtain ⟨p, -, hp⟩ := hshared r hr
      exact ⟨p, hp⟩

end Loader

end Stencil
