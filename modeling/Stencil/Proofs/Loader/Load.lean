/-
What a load gives.

The graph of a store settles what a fresh loader makes of a name.  If every key below the name has
a template, no key below it leads back to itself and no way down is without end, the load gives the
tree of the name, and otherwise the first error that a walk meets which goes down before it goes
on, or none because the walk does not come to an end.
-/
import Mathlib
import Stencil.Proofs.Loader.Depth
import Stencil.Proofs.Loader.Run

namespace Stencil.Loader

variable {files : FileSystem} {l : Loader} {g : Graph} {chain : List String} {name : String}

/-- If a load goes on without end, so does the load of one of the partials, and those in front of
it have trees. -/
theorem exists_below_of_none (hl : Coherent l) (h : loadBelow files chain name l = none) :
    Path.normalize name ∉ chain ∧ ∃ s before r after l',
      l.current files (Path.normalize name) = .ok s ∧ s.references = before ++ r :: after ∧
      (∀ b ∈ before, ∃ c, (l.current files).Unfolds b.key c) ∧
      Coherent l' ∧ l'.current files = l.current files ∧
      loadBelow files (chain ++ [Path.normalize name]) r.canonicalId l' = none := by
  rw [loadBelow_eq] at h
  have hout := outcome_descend files (loadBelow files) chain name l
  rw [h] at hout
  cases hout with
  | @endless hkey s l₁ hs hnone =>
      have hlook : Step files l (l.lookedUp (Path.normalize name)) := .lookUp l _
      obtain ⟨hsteps₁, hsource⟩ := source_steps hs
      have hl₁ := Steps.coherent hsteps₁ (hlook.coherent hl)
      obtain ⟨before, id, after, found, u, hrefs, hbefore, hid⟩ :=
        Activity.exists_of_run_mapM?_none hnone
      obtain ⟨hsteps₂, front, r, back, hsplit, rfl, htrees⟩ :=
        (loadBelow_loads files _).mapM_before hl₁ hrefs hbefore
      have hu := Steps.coherent hsteps₂ hl₁
      have hcurrent := Steps.current (.head hlook (hsteps₁.trans hsteps₂))
      have hwithin := remembered_within_current files u
      rw [hcurrent] at hwithin
      refine ⟨hkey, s, front, r, back, u,
        hwithin _ _ (Steps.within hsteps₂ _ _ (hsource s rfl)), hsplit, fun b hb => ?_, hu,
        hcurrent, hid⟩
      obtain ⟨c, hc⟩ := htrees b hb
      exact ⟨c, hc.mono hwithin⟩

/-- A load goes on without end only if a way down does. -/
theorem endless_of_none (hl : Coherent l) (h : loadBelow files [] name l = none) :
    (l.current files).Endless (Path.normalize name) := by
  refine Graph.endless_of_progress (P := fun chain key => ∃ name l', Path.normalize name = key ∧
    Coherent l' ∧ l'.current files = l.current files ∧
    loadBelow files chain name l' = none) ?_ ⟨name, l, rfl, hl, rfl, h⟩
  rintro chain key ⟨name, l', rfl, hl', hcurrent, hnone⟩
  obtain ⟨hkey, s, before, r, after, l'', hs, hrefs, -, hl'', hcurrent', hnone'⟩ :=
    exists_below_of_none hl' hnone
  rw [hcurrent] at hs hcurrent'
  have hr : r ∈ s.references := by
    rw [hrefs]
    exact List.mem_append_cons_self
  exact ⟨hkey, r.key, Graph.edge_of_mem hs hr, r.canonicalId, l'', rfl, hl'', hcurrent', hnone'⟩

/-- A load takes steps. -/
theorem Coherent.load_steps (hl : Coherent l) (files : FileSystem) (name : String) :
    Steps files l ((load files name).run.run l).2 := by
  rcases run_load_cases files name l with hout | ⟨-, hout⟩
  · exact (loadBelow_loads files [] name l _ _ hl hout).1
  · rw [hout]

/-- An error that a load returns is met in what the loader goes by, or the load goes on without
end. -/
theorem Coherent.meets_of_load {e : Error} (hl : Coherent l)
    (h : ((load files name).run.run l).1 = .error e) :
    (l.current files).Meets [] (Path.normalize name) e ∨
      e = endless ∧ (l.current files).Endless (Path.normalize name) := by
  rcases run_load_cases files name l with hout | ⟨hnone, hout⟩
  · exact .inl ((loadBelow_loads files [] name l _ _ hl hout).2.2 e h)
  · rw [hout] at h
    cases h
    exact .inr ⟨rfl, endless_of_none hl hnone⟩

theorem load_steps (hl : Sound files l) (name : String) :
    Steps files l ((load files name).run.run l).2 := hl.coherent.load_steps files name

theorem meets_of_load {e : Error} (hl : Sound files l)
    (h : ((load files name).run.run l).1 = .error e) :
    (graph files l.config l.store).Meets [] (Path.normalize name) e ∨
      e = endless ∧ (graph files l.config l.store).Endless (Path.normalize name) := by
  rw [← hl.current_eq]
  exact hl.coherent.meets_of_load h

/-- A load succeeds if the name has a tree. -/
theorem exists_load_of_unfolds {c : Closure} (hl : Sound files l)
    (h : (graph files l.config l.store).Unfolds (Path.normalize name) c) :
    ∃ m, ((load files name).run.run l).1 = .ok m := by
  rcases hout : ((load files name).run.run l).1 with e | m
  · rcases meets_of_load hl hout with hmeets | ⟨-, hendless⟩
    · exact absurd hmeets (h.not_meets Graph.leadsTo_nil)
    · exact absurd hendless h.not_endless
  · exact ⟨m, rfl⟩

/-! ## Several loads -/

/-- A store with a page and its partial. -/
def pageStore : TextStore :=
  .memory { texts := [("page.mustache", "[{{> part}}]"), ("part.mustache", "x")] }

/-- The page refers to its partial. -/
theorem exists_graph_page :
    ∃ t, graph .empty {} pageStore "page" = .ok ⟨t, [⟨"part", "part", 1⟩]⟩ :=
  ⟨_, graph_of_isPlain "[{{> part}}]" (by decide) (by decide) (by decide)⟩

theorem exists_unfolds_page :
    ∃ c, (graph .empty {} pageStore).Unfolds (Path.normalize "page") c := by
  have hpart : graph .empty {} pageStore "part" = .ok ⟨_, []⟩ :=
    graph_of_isPlain "x" (by decide) (by decide) (by decide)
  have hleaf : ∃ c, (graph .empty {} pageStore).Unfolds "part" c :=
    Graph.exists_unfolds_of_forall hpart (List.forall_mem_nil _)
  have hkey : Path.normalize "page" = "page" := by decide
  obtain ⟨t, hpage⟩ := exists_graph_page
  rw [hkey]
  refine Graph.exists_unfolds_of_forall hpage fun r hr => ?_
  have hpartKey : Reference.key ⟨"part", "part", 1⟩ = "part" := by decide
  rwa [List.mem_singleton.mp hr, hpartKey]

/-! ## Fresh loaders -/

/-- A fresh loader is sound. -/
theorem sound_of_ofConfig (files : FileSystem) {config : Config} {store : TextStore}
    {recording : Bool} (h : ofConfig config store recording = .ok l) :
    Sound files l ∧ l.config = config ∧ l.store = store ∧ l.recording = recording ∧
      l.sources = [] ∧ l.session = [] := by
  rw [ofConfig] at h
  obtain ⟨⟨⟩, -, h⟩ := Activity.bind_eq_ok.mp h
  cases h
  exact ⟨⟨(fun k s hs => nomatch hs), fun k m hm => nomatch hm⟩, rfl, rfl, rfl, rfl, rfl⟩

/-- A fresh loader loads the page. -/
theorem exists_load_page (recording : Bool) :
    ∃ l m, ofConfig {} pageStore recording = .ok l ∧
      ((load .empty "page").run.run l).1 = .ok m := by
  have hl : ofConfig {} pageStore recording =
      .ok { config := {}, store := pageStore, recording := recording } := rfl
  obtain ⟨hsound, -⟩ := sound_of_ofConfig .empty hl
  obtain ⟨c, hc⟩ := exists_unfolds_page
  obtain ⟨m, hm⟩ := exists_load_of_unfolds hsound hc
  exact ⟨_, m, hl, hm⟩

end Stencil.Loader
