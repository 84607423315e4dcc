/-
What a build records.

A template is recorded when its source is had, which is before its partials are loaded.  So a load
that fails leaves records of the templates on the way to the failure, though none of them has a
module.  What can be said of them is that they have no tree in the store: while a run goes on,
everything that is remembered is on its chain, or has a module, or has no tree, and at the end
nothing is on the chain.  A record has no module only if something that the template leads to is
missing, or leads back to itself, or goes on without end; and if no load failed, the records are
those of the modules.
-/
import Mathlib
import Stencil.Proofs.Loader.Memory

namespace Stencil.Loader

/-- Everything that is remembered is on the chain, or has a module, or has no tree. -/
def Settled (files : FileSystem) (chain : List String) (l : Loader) : Prop :=
  ∀ k s, l.sources.get? k = some s →
    k ∈ chain ∨ (∃ m, l.module? k = some m) ∨ ∀ c, ¬ (l.current files).Unfolds k c

variable {files : FileSystem} {l l' : Loader} {chain names keys : List String}
  {key name : String} {r : Except Error (List Module)} {s : Source} {g : Graph}

/-! ## One level -/

theorem cache_of_source {r : Except Error Source} (h : (source files key).run.run l = (r, l')) :
    l'.cache = l.cache := by
  rw [run_source] at h
  split at h
  · cases h
    rfl
  · split at h
    · cases h
      rfl
    · split at h <;>
      · cases h
        rfl

/-- Modules stay when another one is kept, which is then there. -/
theorem exists_module?_kept (m : Module) {k : String}
    (h : k = key ∨ ∃ m', l.module? k = some m') : ∃ m', (l.kept key m).module? k = some m' := by
  cases hm : l.module? key with
  | some old =>
      have hsame : (l.kept key m).module? k = l.module? k := by
        change l.cache.entries.get? key = some old at hm
        rw [module?, kept, Cache.keep, hm]
        rfl
      rw [hsame]
      rcases h with rfl | h
      · exact ⟨old, hm⟩
      · exact h
  | none =>
      rw [module?_kept hm]
      rcases h with rfl | h
      · exact ⟨m, if_pos rfl⟩
      · split
        · exact ⟨m, rfl⟩
        · exact h

/-- The source that was had for a key is new on the chain. -/
theorem Settled.onChain (h : Settled files chain l)
    (hs : (source files (Path.normalize name)).run.run (l.lookedUp (Path.normalize name)) =
      (.ok s, l')) : Settled files (chain ++ [Path.normalize name]) l' := by
  intro k s' hs'
  have hmodule : l'.module? k = l.module? k := by
    rw [module?, cache_of_source hs]
    exact module?_lookedUp l _ k
  rw [hmodule, Steps.current (steps_of_source hs).1]
  rw [(leaves_source_lookedUp hs).sources] at hs'
  split at hs'
  next hk =>
    rw [eq_of_mem_asked hk]
    exact .inl List.mem_append_cons_self
  next _ => exact (h k s' hs').imp_left (List.mem_append_left _ ·)

/-- Nothing is remembered of a key without a source. -/
theorem Settled.noSource {e : Error} (h : Settled files chain l)
    (he : (source files (Path.normalize name)).run.run (l.lookedUp (Path.normalize name)) =
      (.error e, l')) : Settled files chain l' := by
  have hlook : Step files l (l.lookedUp (Path.normalize name)) := .lookUp l _
  have hsteps : Steps files l l' := .head hlook (source_steps he).1
  intro k s' hs'
  have hmodule : l'.module? k = l.module? k := by
    rw [module?, cache_of_source he]
    exact module?_lookedUp l _ k
  rw [hmodule, Steps.current hsteps]
  refine h k s' ?_
  rw [(leaves_source_lookedUp he).sources] at hs'
  split at hs'
  next hk =>
    rw [eq_of_mem_asked hk] at hs'
    have hgraph := graph_of_source_error he
    change Loader.graph files l.config l.store _ = _ at hgraph
    rw [hgraph] at hs'
    cases hs'
  next _ => exact hs'

/-- A key that could not be loaded has no tree. -/
theorem Settled.noPartial {e : Error} {u : Loader} (hl : Coherent l)
    (hleads : (l.current files).LeadsTo chain (Path.normalize name))
    (hs : (source files (Path.normalize name)).run.run
      (l.lookedUp (Path.normalize name)) = (.ok s, u))
    (hbelow : Course files (chain ++ [Path.normalize name])
      (s.references.map Reference.canonicalId) u keys (.error e) l')
    (h : Settled files (chain ++ [Path.normalize name]) l') : Settled files chain l' := by
  obtain ⟨hsteps, hsource⟩ := steps_of_source hs
  have hu := Steps.coherent hsteps hl
  have hcurrent := Steps.current (hsteps.trans (hbelow.steps hu))
  intro k s' hs'
  rcases h k s' hs' with hk | hk
  · rcases List.mem_append.mp hk with hk | hk
    · exact .inl hk
    · rw [List.mem_singleton.mp hk, hcurrent]
      refine .inr (.inr fun c hc => ?_)
      -- A partial meets the error, so it has no tree.
      obtain ⟨id, hid, hmeets⟩ := hbelow.meets hu rfl
      obtain ⟨ref, href, rfl⟩ := List.mem_map.mp hid
      rw [Steps.current hsteps] at hmeets
      have hedge := Graph.edge_of_mem hsource href
      obtain ⟨d, hd⟩ := hc.exists_of_edge hedge
      exact hd.not_meets (hleads.snoc hedge) hmeets
  · exact .inr hk

/-- The key that is kept leaves the chain. -/
theorem Settled.kept (h : Settled files (chain ++ [key]) l) (m : Module)
    (hcurrent : (l.kept key m).current files = l.current files) :
    Settled files chain (l.kept key m) := by
  intro k s hs
  rw [hcurrent]
  rcases h k s hs with hk | hk | hk
  · rcases List.mem_append.mp hk with hk | hk
    · exact .inl hk
    · exact .inr (.inl (exists_module?_kept m (.inl (List.mem_singleton.mp hk))))
  · exact .inr (.inl (exists_module?_kept m (.inr hk)))
  · exact .inr (.inr hk)

/-! ## Runs -/

/-- What is remembered stays settled in a run. -/
theorem Course.settled (h : Course files chain names l keys r l') (hl : Coherent l)
    (hleads : ∀ name ∈ names, (l.current files).LeadsTo chain (Path.normalize name))
    (hsettled : Settled files chain l) : Settled files chain l' := by
  have hbelow : ∀ {chain : List String} {name : String} {s : Source} {l u : Loader},
      (l.current files).LeadsTo chain (Path.normalize name) →
      (source files (Path.normalize name)).run.run (l.lookedUp (Path.normalize name)) =
        (.ok s, u) → ∀ id ∈ s.references.map Reference.canonicalId,
          (u.current files).LeadsTo (chain ++ [Path.normalize name]) (Path.normalize id) := by
    intro chain name s l u hleads hs id hid
    obtain ⟨hsteps, hsource⟩ := steps_of_source hs
    obtain ⟨ref, href, rfl⟩ := List.mem_map.mp hid
    rw [Steps.current hsteps]
    exact hleads.snoc (Graph.edge_of_mem hsource href)
  induction h with
  | nil => exact hsettled
  | cycle => exact hsettled
  | @cached _ name _ l _ _ _ _ _ _ _ ih =>
      have hlook : Step files l (l.lookedUp (Path.normalize name)) := .lookUp l _
      refine ih (hlook.coherent hl) (fun name' hname' => ?_) fun k s hs => ?_
      · rw [hlook.current]
        exact hleads name' (List.mem_cons_of_mem _ hname')
      · rw [module?_lookedUp, hlook.current]
        exact hsettled k s hs
  | noSource _ _ _ he => exact hsettled.noSource he
  | noPartial _ _ _ hs hcourse ih =>
      have hname := hleads _ List.mem_cons_self
      have hu := Steps.coherent (steps_of_source hs).1 hl
      exact .noPartial hl hname hs hcourse (ih hu (hbelow hname hs) (hsettled.onChain hs))
  | @kept _ _ _ l _ _ s l₁ hs _ found l₂ hcourse _ _ _ _ ih ih' =>
      have hname := hleads _ List.mem_cons_self
      have hsteps := steps_of_kept hl hs hcourse
      have hu := Steps.coherent (steps_of_source hs).1 hl
      have hcurrent : l₂.current files = l.current files :=
        Steps.current ((steps_of_source hs).1.trans (hcourse.steps hu))
      refine ih' (Steps.coherent hsteps hl) (fun name' hname' => ?_) ?_
      · rw [Steps.current hsteps]
        exact hleads name' (List.mem_cons_of_mem _ hname')
      · exact (ih hu (hbelow hname hs) (hsettled.onChain hs)).kept _
          ((Steps.current hsteps).trans hcurrent.symm)

/-! ## Histories -/

/-- A loader that records, over a store with this graph, and that has never forgotten a module. -/
structure Booked (files : FileSystem) (g : Graph) (l : Loader) : Prop where
  coherent : Coherent l
  registry : Registry l
  recorded : Recorded l
  recording : l.recording = true
  current : l.current files = g
  settled : Settled files [] l

theorem Booked.perform (h : Booked files g l) {op : Operation} (hop : op ≠ .forget) :
    Booked files g (l.perform files op) := by
  obtain ⟨names, keys, r, hcourse, -⟩ := exists_course_perform files l hop
  have hsteps := hcourse.steps h.coherent
  exact ⟨Steps.coherent hsteps h.coherent, h.registry.perform files op,
    Steps.recorded hsteps h.recording h.recorded, (Steps.recording hsteps).trans h.recording,
    (Steps.current hsteps).trans h.current,
    hcourse.settled h.coherent (fun _ _ => Graph.leadsTo_nil) h.settled⟩

theorem Booked.performAll (h : Booked files g l) {history : List Operation}
    (hforget : ∀ op ∈ history, op ≠ .forget) : Booked files g (l.performAll files history) := by
  induction history generalizing l with
  | nil => exact h
  | cons op history ih =>
      exact ih (h.perform (hforget op List.mem_cons_self))
        fun op' hop' => hforget op' (List.mem_cons_of_mem _ hop')

end Stencil.Loader
