/-
Runs of a loader.

A load changes a loader in four ways only: it looks a module up, fetches a text, remembers a
template, or keeps a module.  What a template is remembered as never changes, and a module is kept
only once everything below it is remembered, so every module in the cache is the tree of its key
in the graph of what is remembered.  That holds of a fresh loader and of every step, hence after
any number of loads, failed ones included, and whatever became of the store meanwhile.

What a load goes by is the graph of what is remembered, and of the store where nothing is.  While
the texts of the store stay as they are, what is remembered is a part of the graph of the store,
and the two graphs are the same.
-/
import Mathlib
import Stencil.Proofs.Activity
import Stencil.Proofs.Loader.Graph
import Stencil.Proofs.Module

namespace Stencil

namespace Cache

variable {α : Type}

theorem entries_find (c : Cache α) (id : String) : (c.find id).2.entries = c.entries := by
  rw [find]
  split <;> rfl

theorem find_fst (c : Cache α) (id : String) : (c.find id).1 = c.entries.get? id := by
  rw [find]
  split <;> simp_all

/-- What is kept is the new value, or the old one under the same identifier. -/
theorem get?_keep {c : Cache α} {id key : String} {value v : α}
    (h : (c.keep id value).2.entries.get? key = some v) :
    c.entries.get? key = some v ∨ key = id ∧ v = value := by
  rw [keep] at h
  split at h
  · exact .inl h
  · rw [Dict.get?_insert] at h
    split at h
    next hid =>
      cases h
      exact .inr ⟨hid.symm, rfl⟩
    next _ => exact .inl h

/-- What `keep` returns is the new value, or the old one under the same identifier. -/
theorem keep_fst (c : Cache α) (id : String) (value : α) :
    c.entries.get? id = some (c.keep id value).1 ∨ (c.keep id value).1 = value := by
  rw [keep]
  split
  next kept hkept => exact .inl hkept
  next _ => exact .inr rfl

end Cache

namespace Loader

/-- The templates that a loader remembers. -/
def remembered (l : Loader) : Graph := fun key =>
  match l.sources.get? key with
  | some s => .ok s
  | none => .error (.moduleNotFound key [])

/-- A loader after a look-up. -/
def lookedUp (l : Loader) (key : String) : Loader := { l with cache := (l.cache.find key).2 }

/-- A loader after a fetch. -/
def fetched (files : FileSystem) (l : Loader) (address : String) : Loader :=
  { l with store := (l.store.fetch files address).2 }

/-- A loader after a module was made. -/
def kept (l : Loader) (key : String) (m : Module) : Loader :=
  { l with cache := (l.cache.keep key m).2, made := l.made + 1 }

/-- The changes that a load makes. -/
inductive Step (files : FileSystem) : Loader → Loader → Prop
  | lookUp (l : Loader) (key : String) : Step files l (l.lookedUp key)
  | fetch (l : Loader) (address : String) : Step files l (l.fetched files address)
  | remember (l : Loader) {name text : String} {t : Template}
      (hnew : l.sources.get? (Path.normalize name) = none)
      (htext : l.store.text files (l.address (Path.normalize name)) = .ok text)
      (hcompile : Template.compile (Path.normalize name) text l.config.options = .ok t) :
      Step files l
        (remember (Path.normalize name) (sourceOf l.config (Path.normalize name) t) l)
  | keep (l : Loader) {key : String} {m : Module} (hm : l.remembered.Unfolds key m.closure) :
      Step files l (l.kept key m)

/-- Any number of changes. -/
abbrev Steps (files : FileSystem) : Loader → Loader → Prop := Relation.ReflTransGen (Step files)

/-- Every module in the cache is the tree of its key in what is remembered. -/
def Coherent (l : Loader) : Prop :=
  ∀ key m, l.cache.entries.get? key = some m → l.remembered.Unfolds key m.closure

/-- What is under each key for a loader: what is remembered, and otherwise what is in the store. -/
def current (files : FileSystem) (l : Loader) : Graph := fun key =>
  match l.sources.get? key with
  | some s => .ok s
  | none => graph files l.config l.store key

/-- What is remembered agrees with the store, and every module in the cache is the tree of its
key. -/
structure Sound (files : FileSystem) (l : Loader) : Prop where
  within : l.remembered.Within (graph files l.config l.store)
  cached : ∀ key m, l.cache.entries.get? key = some m → l.remembered.Unfolds key m.closure

variable {files : FileSystem} {l l' : Loader} {key : String}

/-! ## One step -/

theorem remembered_eq_ok {s : Source} :
    l.remembered key = .ok s ↔ l.sources.get? key = some s := by
  rw [remembered]
  cases l.sources.get? key with
  | none => simp
  | some s' => simp

theorem current_of_get? {s : Source} (hs : l.sources.get? key = some s) :
    l.current files key = .ok s := by
  rw [current, hs]

theorem current_of_none (hnone : l.sources.get? key = none) :
    l.current files key = graph files l.config l.store key := by
  rw [current, hnone]

theorem remembered_within_current (files : FileSystem) (l : Loader) :
    l.remembered.Within (l.current files) :=
  fun _ _ hs => current_of_get? (remembered_eq_ok.mp hs)

theorem Sound.coherent (hl : Sound files l) : Coherent l := hl.cached

/-- A sound loader goes by the graph of its store. -/
theorem Sound.current_eq (hl : Sound files l) :
    l.current files = Loader.graph files l.config l.store := by
  funext k
  cases hs : l.sources.get? k with
  | none => exact current_of_none hs
  | some s => rw [current_of_get? hs, hl.within k s (remembered_eq_ok.mpr hs)]

/-- What is remembered stays. -/
theorem Step.within (h : Step files l l') : l.remembered.Within l'.remembered := by
  intro k s hs
  rw [remembered_eq_ok] at hs ⊢
  cases h with
  | lookUp => exact hs
  | fetch => exact hs
  | @remember name text t hnew _ _ =>
      have hne : Path.normalize name ≠ k := by
        rintro rfl
        rw [hnew] at hs
        cases hs
      show (l.sources.insert _ _).get? k = some s
      rw [Dict.get?_insert_ne hne, hs]
  | keep => exact hs

/-- The graph of the store stays. -/
theorem Step.graph (h : Step files l l') :
    graph files l'.config l'.store = graph files l.config l.store := by
  cases h with
  | lookUp => rfl
  | fetch address =>
      funext key
      rw [Loader.graph, Loader.graph, fetched, TextStore.place_fetch, TextStore.text_fetch]
  | remember => rfl
  | keep => rfl

/-- What a loader goes by stays: a template is remembered as what was in the store. -/
theorem Step.current (h : Step files l l') : l'.current files = l.current files := by
  funext k
  cases h with
  | lookUp => rfl
  | fetch address =>
      have hfetch : Step files l (l.fetched files address) := .fetch l address
      rw [Loader.current, Loader.current, hfetch.graph]
      rfl
  | @remember name text t hnew htext hcompile =>
      by_cases hk : Path.normalize name = k
      · subst hk
        rw [current_of_none hnew, Loader.graph_of_compile htext hcompile]
        exact current_of_get? (Dict.get?_insert_self _ _ _)
      · rw [Loader.current, Loader.current]
        show (match (l.sources.insert _ _).get? k with
          | some s => Except.ok s
          | none => Loader.graph files l.config l.store k) = _
        rw [Dict.get?_insert_ne hk]
  | keep => rfl

theorem Step.coherent (h : Step files l l') (hl : Coherent l) : Coherent l' := by
  intro k m hm
  have hmono : ∀ c, l.remembered.Unfolds k c → l'.remembered.Unfolds k c :=
    fun c hc => hc.mono h.within
  cases h with
  | lookUp key =>
      rw [lookedUp, Cache.entries_find] at hm
      exact hmono _ (hl k m hm)
  | fetch => exact hmono _ (hl k m hm)
  | remember => exact hmono _ (hl k m hm)
  | @keep key m' hm' =>
      rcases Cache.get?_keep hm with hm | ⟨rfl, rfl⟩
      · exact hmono _ (hl k m hm)
      · exact hmono _ hm'

theorem Step.sound (h : Step files l l') (hl : Sound files l) : Sound files l' := by
  refine ⟨fun k s hs => ?_, h.coherent hl.coherent⟩
  rw [h.graph, ← hl.current_eq, ← h.current]
  exact remembered_within_current files l' k s hs

theorem Step.recording (h : Step files l l') : l'.recording = l.recording := by
  cases h <;> rfl

/-! ## Any number of steps -/

theorem Steps.within (h : Steps files l l') : l.remembered.Within l'.remembered := by
  induction h with
  | refl => exact fun _ _ hs => hs
  | tail _ hstep ih => exact fun k s hs => hstep.within k s (ih k s hs)

theorem Steps.graph (h : Steps files l l') :
    graph files l'.config l'.store = graph files l.config l.store := by
  induction h with
  | refl => rfl
  | tail _ hstep ih => rw [hstep.graph, ih]

theorem Steps.current (h : Steps files l l') : l'.current files = l.current files := by
  induction h with
  | refl => rfl
  | tail _ hstep ih => rw [hstep.current, ih]

theorem Steps.coherent (h : Steps files l l') (hl : Coherent l) : Coherent l' := by
  induction h with
  | refl => exact hl
  | tail _ hstep ih => exact hstep.coherent ih

theorem Steps.sound (h : Steps files l l') (hl : Sound files l) : Sound files l' := by
  induction h with
  | refl => exact hl
  | tail _ hstep ih => exact hstep.sound ih

theorem Steps.recording (h : Steps files l l') : l'.recording = l.recording := by
  induction h with
  | refl => rfl
  | tail _ hstep ih => rw [hstep.recording, ih]

/-! ## The parts of a load -/

theorem run_cached? (key : String) (l : Loader) :
    (cached? key).run.run l = (.ok (l.cache.entries.get? key), l.lookedUp key) := by
  rw [cached?, Activity.run_modifyGet, Cache.find_fst]
  rfl

theorem run_fetch (files : FileSystem) (address : String) (l : Loader) :
    (fetch files address).run.run l = (l.store.text files address, l.fetched files address) := by
  rw [fetch, Activity.run_bind, Activity.run_modifyGet]
  dsimp only
  rw [TextStore.text]
  cases (l.store.fetch files address).1 with
  | ok text => rfl
  | error e => rfl

/-- What the template under a key is taken from: it is remembered, or it cannot be fetched, or it
cannot be compiled, or it is remembered now. -/
theorem run_source (files : FileSystem) (key : String) (l : Loader) :
    (source files key).run.run l =
      match l.sources.get? key with
      | some s => (.ok s, l)
      | none =>
        match l.store.text files (l.address key) with
        | .error e => (.error e, l.fetched files (l.address key))
        | .ok text =>
          match Template.compile key text l.config.options with
          | .error e => (.error e, l.fetched files (l.address key))
          | .ok t => (.ok (sourceOf l.config key t),
              remember key (sourceOf l.config key t) (l.fetched files (l.address key))) := by
  rw [source, Activity.run_bind, Activity.run_get]
  dsimp only
  cases hs : l.sources.get? key with
  | some s => rfl
  | none =>
      dsimp only
      rw [Activity.run_bind, run_fetch]
      cases l.store.text files (l.address key) with
      | error e => rfl
      | ok text =>
          dsimp only
          cases Template.compile key text l.config.options with
          | error e => rfl
          | ok t => rfl

theorem run_keep (key : String) (t : Template) (p : Dict Module) (l : Loader) :
    (keep key t p).run.run l =
      (.ok (l.cache.keep key (.mk l.made t p)).1, l.kept key (.mk l.made t p)) := rfl

theorem run_lift {α : Type} (act : Loading α) (l : Loader) :
    (liftM act : Descending α).run.run l = some (act.run.run l) := rfl

/-- Binding results to the names of references never fails if there is one for each of them. -/
theorem bindResults_of_length {m : Type → Type} [Monad m] {α : Type} (key : String)
    {refs : List Reference} {found : List α} (h : found.length = refs.length) :
    (bindResults key refs found : ExceptT Error m (Dict α)) =
      pure (Dict.ofPairs ((refs.map Reference.name).zip found)) := by
  rw [bindResults, bindReferences, if_pos h]

/-- The module that is made of a template and the modules found for its references. -/
def composed (l : Loader) (s : Source) (found : List Module) : Module :=
  .mk l.made s.template (Dict.ofPairs ((s.references.map Reference.name).zip found))

/-- What a load does on one level, where `below` does what is below it. -/
def descend (files : FileSystem) (below : List String → String → Descending Module)
    (chain : List String) (name : String) : Descending Module := do
  let key := Path.normalize name
  if key ∈ chain then throw (.circularPartial (chain ++ [key]))
  match ← cached? key with
  | some m => return m
  | none =>
    let source ← source files key
    let found ← (source.references.map Reference.canonicalId).mapM (below (chain ++ [key]))
    let partials ← bindResults key source.references found
    keep key source.template partials

theorem loadBelow_eq (files : FileSystem) (chain : List String) (name : String) (l : Loader) :
    loadBelow files chain name l = (descend files (loadBelow files) chain name).run.run l := by
  rw [loadBelow]
  rfl

/-- What comes of a load on some level: it meets its key on the chain, it finds the module, it has
no template, it cannot load a partial, it goes on without end, or it makes the module. -/
inductive Outcome (files : FileSystem) (below : List String → String → Descending Module)
    (chain : List String) (key : String) (l : Loader) :
    Option (Except Error Module × Loader) → Prop
  | cycle (hkey : key ∈ chain) :
      Outcome files below chain key l (some (.error (.circularPartial (chain ++ [key])), l))
  | cached (hkey : key ∉ chain) {m : Module} (hm : l.cache.entries.get? key = some m) :
      Outcome files below chain key l (some (.ok m, l.lookedUp key))
  | noSource (hkey : key ∉ chain) {e : Error} {l' : Loader}
      (he : (source files key).run.run (l.lookedUp key) = (.error e, l')) :
      Outcome files below chain key l (some (.error e, l'))
  | noPartial (hkey : key ∉ chain) {s : Source} {l₁ : Loader}
      (hs : (source files key).run.run (l.lookedUp key) = (.ok s, l₁)) {e : Error} {l' : Loader}
      (he : ((s.references.map Reference.canonicalId).mapM (below (chain ++ [key]))).run.run l₁ =
        some (.error e, l')) :
      Outcome files below chain key l (some (.error e, l'))
  | endless (hkey : key ∉ chain) {s : Source} {l₁ : Loader}
      (hs : (source files key).run.run (l.lookedUp key) = (.ok s, l₁))
      (hnone : ((s.references.map Reference.canonicalId).mapM
        (below (chain ++ [key]))).run.run l₁ = none) :
      Outcome files below chain key l none
  | kept (hkey : key ∉ chain) {s : Source} {l₁ : Loader}
      (hs : (source files key).run.run (l.lookedUp key) = (.ok s, l₁)) {found : List Module}
      {l₂ : Loader}
      (hfound : ((s.references.map Reference.canonicalId).mapM
        (below (chain ++ [key]))).run.run l₁ = some (.ok found, l₂)) :
      Outcome files below chain key l
        (some (.ok (l₂.cache.keep key (l₂.composed s found)).1, l₂.kept key (l₂.composed s found)))

theorem outcome_descend (files : FileSystem) (below : List String → String → Descending Module)
    (chain : List String) (name : String) (l : Loader) :
    Outcome files below chain (Path.normalize name) l
      ((descend files below chain name).run.run l) := by
  rw [descend]
  by_cases hkey : Path.normalize name ∈ chain
  · simp only [hkey, if_true]
    exact .cycle hkey
  · simp only [hkey, if_false]
    rw [Activity.run_bind?, run_lift, run_cached?]
    dsimp only
    cases hm : l.cache.entries.get? (Path.normalize name) with
    | some m => exact .cached hkey hm
    | none =>
        dsimp only
        rw [Activity.run_bind?, run_lift]
        rcases hs : (source files (Path.normalize name)).run.run
          (l.lookedUp (Path.normalize name)) with ⟨e | s, l₁⟩
        · exact .noSource hkey hs
        · dsimp only
          rw [Activity.run_bind?]
          rcases hfound : ((s.references.map Reference.canonicalId).mapM
            (below (chain ++ [Path.normalize name]))).run.run l₁ with _ | ⟨e | found, l₂⟩
          · exact .endless hkey hs hfound
          · exact .noPartial hkey hs hfound
          · dsimp only
            have hlength := Activity.length_of_run_mapM? hfound
            rw [List.length_map] at hlength
            rw [bindResults_of_length _ hlength, pure_bind, run_lift, run_keep]
            exact .kept hkey hs hfound

/-! ## Loads -/

theorem source_steps {l : Loader} {name : String} {r : Except Error Source}
    (h : (source files (Path.normalize name)).run.run l = (r, l')) :
    Steps files l l' ∧ ∀ s, r = .ok s → l'.remembered (Path.normalize name) = .ok s := by
  rw [run_source] at h
  split at h
  next s hs =>
    cases h
    refine ⟨.refl, fun s' hs' => ?_⟩
    cases hs'
    exact remembered_eq_ok.mpr hs
  next hnone =>
    have hfetch : Steps files l (l.fetched files (l.address (Path.normalize name))) :=
      .single (.fetch l _)
    split at h
    next e _ =>
      cases h
      exact ⟨hfetch, fun s hs => nomatch hs⟩
    next text htext =>
      split at h
      next e _ =>
        cases h
        exact ⟨hfetch, fun s hs => nomatch hs⟩
      next t ht =>
        cases h
        refine ⟨hfetch.tail (.remember (l.fetched files _) hnone ?_ ht), fun s hs => ?_⟩
        · show ((l.store.fetch files _).2).text files
            ((l.store.fetch files _).2.place.address _) = _
          rw [TextStore.place_fetch, TextStore.text_fetch]
          exact htext
        · cases hs
          exact remembered_eq_ok.mpr (Dict.get?_insert_self _ _ _)

/-- Where a template cannot be had there is an error in the graph, and nothing is remembered. -/
theorem get?_of_source_error {l : Loader} {key : String} {e : Error}
    (h : (source files key).run.run l = (.error e, l')) : l.sources.get? key = none := by
  rw [run_source] at h
  split at h
  · cases h
  next hnone => exact hnone

theorem graph_of_source_error {l : Loader} {key : String} {e : Error}
    (h : (source files key).run.run l = (.error e, l')) :
    graph files l.config l.store key = .error e := by
  rw [run_source] at h
  split at h
  · cases h
  · split at h
    next e' he =>
      cases h
      rw [address] at he
      simp only [graph, he]
    next text htext =>
      rw [address] at htext
      split at h
      next e' he =>
        cases h
        simp only [graph, htext, he]
      next t ht => cases h

/-- What a load on the way down from a chain does to a coherent loader: it takes steps, a module
that it returns is the tree of its key in what is then remembered, and an error is met in the graph
that the loader goes by. -/
def Loads (files : FileSystem) (chain : List String) (f : String → Descending Module) : Prop :=
  ∀ name l r l', Coherent l → (f name).run.run l = some (r, l') →
    Steps files l l' ∧ (∀ m, r = .ok m → l'.remembered.Unfolds (Path.normalize name) m.closure) ∧
      ∀ e, r = .error e → (l.current files).Meets chain (Path.normalize name) e

variable {chain : List String} {f : String → Descending Module}

/-- Loads of several templates, one after another, take steps too, and all their results are
trees in what is remembered at the end. -/
theorem Loads.mapM (hf : Loads files chain f) {names : List String} {l l' : Loader}
    {found : List Module} (hl : Coherent l)
    (h : (names.mapM f).run.run l = some (.ok found, l')) :
    Steps files l l' ∧
      List.Forall₂ (fun name m => l'.remembered.Unfolds (Path.normalize name) m.closure)
        names found := by
  obtain ⟨-, hsteps, hfound⟩ := Activity.forall₂_of_run_mapM? (P := Coherent) (R := Steps files)
    (Q := fun l name m => l.remembered.Unfolds (Path.normalize name) m.closure) (fun _ => .refl)
    (fun hsteps hsteps' => hsteps.trans hsteps')
    (fun hsteps hm => Graph.Unfolds.mono hm (Steps.within hsteps))
    (fun {name m l l'} hl hname => by
      obtain ⟨hsteps, hm, -⟩ := hf name l _ _ hl hname
      exact ⟨Steps.coherent hsteps hl, hsteps, hm m rfl⟩) hl h
  exact ⟨hsteps, hfound⟩

/-- The partials in front of some partial are loaded, from where the load of that one starts. -/
theorem Loads.mapM_before (hf : Loads files chain f) {refs : List Reference} {l u : Loader}
    {before after : List String} {id : String} {found : List Module} (hl : Coherent l)
    (hrefs : refs.map Reference.canonicalId = before ++ id :: after)
    (hbefore : (before.mapM f).run.run l = some (.ok found, u)) :
    Steps files l u ∧ ∃ front r back, refs = front ++ r :: back ∧ r.canonicalId = id ∧
      ∀ b ∈ front, ∃ c, u.remembered.Unfolds b.key c := by
  obtain ⟨hsteps, htrees⟩ := hf.mapM hl hbefore
  obtain ⟨front, rest, rfl, hfront, hrest⟩ := List.map_eq_append_iff.mp hrefs
  obtain ⟨r, back, rfl, hr, -⟩ := List.map_eq_cons_iff.mp hrest
  refine ⟨hsteps, front, r, back, rfl, hr, fun b hb => ?_⟩
  subst hfront
  obtain ⟨m, -, hm⟩ := Activity.exists_of_forall₂ htrees (List.mem_map_of_mem hb)
  exact ⟨_, hm⟩

/-- The module made of a template and its partials is the tree of the template's key. -/
theorem unfolds_composed {l₁ l₂ : Loader} {s : Source} {found : List Module} (key : String)
    (hs : l₁.remembered key = .ok s) (hsteps : Steps files l₁ l₂)
    (hfound : List.Forall₂ (fun name m => l₂.remembered.Unfolds (Path.normalize name) m.closure)
      (s.references.map Reference.canonicalId) found) :
    l₂.remembered.Unfolds key (l₂.composed s found).closure := by
  rw [composed, Module.closure_mk_ofPairs]
  refine Graph.exists_unfolds (Steps.within hsteps _ _ hs) ?_
  rw [List.forall₂_map_right_iff]
  exact List.forall₂_map_left_iff.mp hfound

/-- If what is below is loaded as it should be, so is a template. -/
theorem descend_loads {below : List String → String → Descending Module}
    (hbelow : ∀ chain, Loads files chain (below chain)) (chain : List String) :
    Loads files chain (descend files below chain) := by
  intro name l r l' hl h
  have hlook : Step files l (l.lookedUp (Path.normalize name)) := .lookUp l _
  have hlooked := hlook.coherent hl
  have hout := outcome_descend files below chain name l
  rw [h] at hout
  cases hout with
  | cycle hkey =>
      refine ⟨.refl, (fun m hm => nomatch hm), fun e he => ?_⟩
      cases he
      exact .cycle hkey
  | cached _ hm =>
      refine ⟨.single hlook, fun m' hm' => ?_, fun e he => nomatch he⟩
      cases hm'
      exact (hl _ _ hm).mono hlook.within
  | noSource hkey he =>
      refine ⟨.head hlook (source_steps he).1, (fun m hm => nomatch hm), fun e' he' => ?_⟩
      cases he'
      have hnone := graph_of_source_error he
      rw [← current_of_none (get?_of_source_error he), hlook.current] at hnone
      exact .node hkey hnone
  | @noPartial hkey s l₁ hs e _ he =>
      obtain ⟨hsteps₁, hsource⟩ := source_steps hs
      have hl₁ := Steps.coherent hsteps₁ hlooked
      obtain ⟨before, id, after, found, u, hrefs, hbefore, hid⟩ :=
        Activity.exists_of_run_mapM?_error he
      obtain ⟨hsteps₂, front, r, back, hsplit, rfl, htrees⟩ :=
        (hbelow _).mapM_before hl₁ hrefs hbefore
      have hu := Steps.coherent hsteps₂ hl₁
      obtain ⟨hsteps₃, -, hmeets⟩ := hbelow _ _ _ _ _ hu hid
      have hall : Steps files l u := .head hlook (hsteps₁.trans hsteps₂)
      refine ⟨hall.trans hsteps₃, (fun m hm => nomatch hm), fun e' he' => ?_⟩
      cases he'
      have hcurrent := Steps.current hall
      have hwithin := remembered_within_current files u
      rw [hcurrent] at hmeets hwithin
      refine .deeper hkey (hwithin _ _ (Steps.within hsteps₂ _ _ (hsource s rfl))) hsplit
        (fun b hb => ?_) (hmeets e rfl)
      obtain ⟨c, hc⟩ := htrees b hb
      exact ⟨c, hc.mono hwithin⟩
  | @kept _ s l₁ hs found l₂ hfound =>
      obtain ⟨hsteps₁, hsource⟩ := source_steps hs
      have hl₁ := Steps.coherent hsteps₁ hlooked
      obtain ⟨hsteps₂, htrees⟩ := (hbelow _).mapM hl₁ hfound
      have htree := unfolds_composed (Path.normalize name) (hsource s rfl) hsteps₂ htrees
      have hkeep : Step files l₂ _ := .keep l₂ htree
      refine ⟨.head hlook (hsteps₁.trans (hsteps₂.tail hkeep)), fun m hm => ?_,
        fun e he => nomatch he⟩
      cases hm
      rcases Cache.keep_fst l₂.cache (Path.normalize name) (l₂.composed s found) with hold | hnew
      · exact (Steps.coherent hsteps₂ hl₁ _ _ hold).mono hkeep.within
      · rw [hnew]
        exact htree.mono hkeep.within

/-- A load takes steps, a module that it returns is the tree of its key, and an error is met in
the graph that the loader goes by.  A load with an outcome is finite, so this is an induction on
it. -/
theorem loadBelow_loads (files : FileSystem) (chain : List String) :
    Loads files chain (loadBelow files chain) := by
  intro name l r l' hl h
  refine loadBelow.partial_correctness files (fun chain name l out => Coherent l →
    Steps files l out.2 ∧
      (∀ m, out.1 = .ok m → out.2.remembered.Unfolds (Path.normalize name) m.closure) ∧
      ∀ e, out.1 = .error e → (l.current files).Meets chain (Path.normalize name) e)
    ?_ chain name l (r, l') h hl
  intro below ih chain name l out h hl
  have hbelow : ∀ chain, Loads files chain (below chain) :=
    fun chain name l r l' hl h => ih chain name l (r, l') h hl
  exact descend_loads hbelow chain name l out.1 out.2 hl h

theorem run_load (files : FileSystem) (name : String) (l : Loader) :
    (load files name).run.run l = (loadBelow files [] name l).getD (.error endless, l) := rfl

/-- A load from the top comes to what it comes to on the way down from no one, or that goes on
without end. -/
theorem run_load_cases (files : FileSystem) (name : String) (l : Loader) :
    loadBelow files [] name l = some ((load files name).run.run l) ∨
      loadBelow files [] name l = none ∧ (load files name).run.run l = (.error endless, l) := by
  rw [run_load]
  cases loadBelow files [] name l with
  | none => exact .inr ⟨rfl, rfl⟩
  | some out => exact .inl rfl

end Loader

end Stencil
