/-
Histories of a loader.

What a load gives is a matter of the graph of the store alone.  Whatever a loader did before, and
whether it succeeded, the loader is still sound and its store still has the same graph, so the load
of a name comes to the same tree or the same error as on a fresh loader.  A loader that has loaded
before finds modules and templates where a fresh one goes down, and it stops at a key on its chain
before it looks for a module.  It misses no error in this way, because a module is only kept for a
key with a tree, and no cycle and no missing template is below such a key.
-/
import Mathlib
import Stencil.Proofs.Loader.Load

namespace Stencil

namespace Loader

variable {files : FileSystem} {l l' : Loader} {g : Graph} {chain : List String}
  {key name : String} {c : Closure} {e : Error}

/-! ## Loads with an end -/

/-- The load of a key with a tree comes to an end. -/
theorem loadBelow_ne_none_of_unfolds (hl : Coherent l)
    (hg : l.current files = g) (h : g.Unfolds (Path.normalize name) c) :
    loadBelow files chain name l ≠ none := by
  generalize hkey : Path.normalize name = key at h
  induction h generalizing l chain name with
  | @node key s child hs hchild ih =>
      subst hkey
      intro hnone
      obtain ⟨-, s', before, r, after, l', hs', hrefs, -, hl', hcurrent, hnone'⟩ :=
        exists_below_of_none hl hnone
      rw [hg, hs] at hs'
      cases hs'
      have hr : r ∈ s.references := by
        rw [hrefs]
        exact List.mem_append_cons_self
      exact ih r hr hl' (hcurrent.trans hg) rfl hnone'

/-- A load that has an error to meet comes to an end, because only partials with trees stand in
front of the one that fails. -/
theorem loadBelow_ne_none_of_meets (hl : Coherent l)
    (hg : l.current files = g) (h : g.Meets chain (Path.normalize name) e)
    (hchain : g.LeadsTo chain (Path.normalize name)) : loadBelow files chain name l ≠ none := by
  generalize hkey : Path.normalize name = key at h hchain
  induction h generalizing l name with
  | @cycle chain key hmem =>
      subst hkey
      intro hnone
      exact (exists_below_of_none hl hnone).1 hmem
  | @node chain key e _ he =>
      subst hkey
      intro hnone
      obtain ⟨-, s, before, r, after, l', hs, -⟩ := exists_below_of_none hl hnone
      rw [hg, he] at hs
      cases hs
  | @deeper chain key s before after r e _ hs hrefs hbefore hmeets ih =>
      subst hkey
      intro hnone
      obtain ⟨-, s', before', r', after', l', hs', hrefs', hbefore', hl', hcurrent, hnone'⟩ :=
        exists_below_of_none hl hnone
      rw [hg] at hs' hbefore' hcurrent
      rw [hs] at hs'
      cases hs'
      have hr : r ∈ s.references := by
        rw [hrefs]
        exact List.mem_append_cons_self
      have hedge := hchain.snoc (Graph.edge_of_mem hs hr)
      rcases Graph.mem_or_eq_of_splits (hrefs.symm.trans hrefs') with hmem | hmem | rfl
      · obtain ⟨d, hd⟩ := hbefore' r hmem
        exact hd.not_meets hedge hmeets
      · obtain ⟨d, hd⟩ := hbefore r' hmem
        exact loadBelow_ne_none_of_unfolds hl' hcurrent hd hnone'
      · exact ih hl' hcurrent rfl hedge hnone'

/-! ## What a load has to give -/

/-- What a load of a key has to give: its tree, the error that it meets, or word that it goes on
without end, where there is neither of the two. -/
inductive Gives (g : Graph) (key : String) : Except Error Closure → Prop
  | tree {c : Closure} (h : g.Unfolds key c) : Gives g key (.ok c)
  | error {e : Error} (h : g.Meets [] key e) : Gives g key (.error e)
  | endless (htree : ∀ c, ¬ g.Unfolds key c) (herror : ∀ e, ¬ g.Meets [] key e) :
      Gives g key (.error endless)

theorem Gives.unique {x y : Except Error Closure} (hx : Gives g key x) (hy : Gives g key y) :
    x = y := by
  cases hx with
  | tree h =>
      cases hy with
      | tree h' => exact congrArg _ (h.unique h')
      | error h' => exact absurd h' (h.not_meets Graph.leadsTo_nil)
      | endless htree _ => exact absurd h (htree _)
  | error h =>
      cases hy with
      | tree h' => exact absurd h (h'.not_meets Graph.leadsTo_nil)
      | error h' => exact congrArg _ (h.unique h' Graph.leadsTo_nil)
      | endless _ herror => exact absurd h (herror _)
  | endless htree herror =>
      cases hy with
      | tree h' => exact absurd h' (htree _)
      | error h' => exact absurd h' (herror _)
      | endless _ _ => rfl

/-- A loader gives what the graph that it goes by has to give. -/
theorem Coherent.load_gives (hl : Coherent l) (files : FileSystem) (name : String) :
    Gives (l.current files) (Path.normalize name)
      (((load files name).run.run l).1.map Module.closure) := by
  rcases run_load_cases files name l with hout | ⟨hnone, hout⟩
  · rcases hrun : (load files name).run.run l with ⟨r, l'⟩
    rw [hrun] at hout
    obtain ⟨hsteps, htree, herror⟩ := loadBelow_loads files [] name l r l' hl hout
    cases r with
    | ok m =>
        have hwithin := remembered_within_current files l'
        rw [Steps.current hsteps] at hwithin
        exact .tree ((htree m rfl).mono hwithin)
    | error e => exact .error (herror e rfl)
  · rw [hout]
    refine .endless (fun c hc => ?_) fun e he => ?_
    · exact loadBelow_ne_none_of_unfolds hl rfl hc hnone
    · exact loadBelow_ne_none_of_meets hl rfl he Graph.leadsTo_nil hnone

/-- A key that meets an error is not loaded, and gives that error. -/
theorem Coherent.load_of_meets (hl : Coherent l)
    (h : (l.current files).Meets [] (Path.normalize name) e) :
    ((load files name).run.run l).1 = .error e := by
  have hsame := (hl.load_gives files name).unique (.error h)
  rcases hout : ((load files name).run.run l).1 with e' | m
  · rw [hout] at hsame
    exact congrArg _ (Except.error.inj hsame)
  · rw [hout] at hsame
    cases hsame

/-- A sound loader gives what the graph of its store has to give. -/
theorem load_gives (hl : Sound files l) (name : String) :
    Gives (graph files l.config l.store) (Path.normalize name)
      (((load files name).run.run l).1.map Module.closure) := by
  rw [← hl.current_eq]
  exact hl.coherent.load_gives files name

/-! ## Histories -/

/-- What a loader is used for. -/
inductive Operation where
  | load (name : String)
  | resolve (ids : List String)
  | forget

/-- A loader after an operation, whatever became of it. -/
def perform (files : FileSystem) (l : Loader) : Operation → Loader
  | .load name => ((load files name).run.run l).2
  | .resolve ids => ((loadAll files ids).run.run l).2
  | .forget => l.forget

/-- A loader after some operations, one after another. -/
def performAll (files : FileSystem) (l : Loader) (history : List Operation) : Loader :=
  history.foldl (perform files) l

/-- Several loads take steps. -/
theorem Coherent.loadAll_steps (hl : Coherent l) (files : FileSystem) (ids : List String) :
    Steps files l ((loadAll files ids).run.run l).2 := by
  refine Activity.run_mapM_induction (P := Steps files l) (fun id _ u hu => ?_) .refl
  exact hu.trans ((Steps.coherent hu hl).load_steps files id)

theorem loadAll_steps (hl : Sound files l) (ids : List String) :
    Steps files l ((loadAll files ids).run.run l).2 := hl.coherent.loadAll_steps files ids

/-- A loader that forgets its modules is as sound as before. -/
theorem Sound.forget (hl : Sound files l) : Sound files l.forget :=
  ⟨hl.within, fun _ _ hm => nomatch hm⟩

theorem Sound.perform (hl : Sound files l) (op : Operation) :
    Sound files (l.perform files op) ∧
      graph files (l.perform files op).config (l.perform files op).store =
        graph files l.config l.store := by
  cases op with
  | load name =>
      have hsteps := load_steps hl name
      exact ⟨Steps.sound hsteps hl, Steps.graph hsteps⟩
  | resolve ids =>
      have hsteps := loadAll_steps hl ids
      exact ⟨Steps.sound hsteps hl, Steps.graph hsteps⟩
  | forget => exact ⟨hl.forget, rfl⟩

theorem Sound.performAll (hl : Sound files l) (history : List Operation) :
    Sound files (l.performAll files history) ∧
      graph files (l.performAll files history).config (l.performAll files history).store =
        graph files l.config l.store := by
  induction history generalizing l with
  | nil => exact ⟨hl, rfl⟩
  | cons op history ih =>
      obtain ⟨hop, hgraph⟩ := hl.perform op
      obtain ⟨hall, hgraphs⟩ := ih hop
      exact ⟨hall, hgraphs.trans hgraph⟩

end Loader

end Stencil
