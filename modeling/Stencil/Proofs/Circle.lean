/-
Circles.

A load hands the keys that it has met on the way down to the loads below it, and a key that is met
again ends the load: what is reported is the whole way.  The key that closes the circle need not be
the one where the way starts, so what the way has the shape of is a lasso.  The way is a list that
grows at its end, while the failing load is described from the top.  `Descent` relates the two, for
loaders and bundles alike: it goes along one relation, which is all that they differ in.
-/
import Mathlib
import Stencil.Proofs.Build.Definition

namespace Stencil

/-- A way along a relation from a start that ends as soon as it meets a place for the second
time. -/
structure IsLasso {α : Type} (Edge : α → α → Prop) (start : α) (way : List α) : Prop where
  head : way.head? = some start
  chain : way.IsChain Edge
  nodup : way.dropLast.Nodup
  closed : ∃ k ∈ way.dropLast, way.getLast? = some k

/-- The end of a lasso is not its start alone. -/
theorem IsLasso.two_le_length {α : Type} {Edge : α → α → Prop} {start : α} {way : List α}
    (h : IsLasso Edge start way) : 2 ≤ way.length := by
  obtain ⟨k, hk, -⟩ := h.closed
  have hpos := List.length_pos_of_mem hk
  rw [List.length_dropLast] at hpos
  omega

/-- A way down along a relation, from a place that was met on the way down from those in a chain,
to one that is on its own chain. -/
inductive Descent {α : Type} (Edge : α → α → Prop) : List α → α → List α → Prop
  | meets {chain : List α} {a : α} (ha : a ∈ chain) : Descent Edge chain a [a]
  | deeper {chain way : List α} {a b : α} (ha : a ∉ chain) (hedge : Edge a b)
      (hway : Descent Edge (chain ++ [a]) b way) : Descent Edge chain a (a :: way)

namespace Descent

variable {α : Type} {Edge : α → α → Prop} {chain way : List α} {a : α}

theorem exists_cons (h : Descent Edge chain a way) : ∃ rest, way = a :: rest := by
  cases h with
  | meets _ => exact ⟨[], rfl⟩
  | deeper _ _ _ => exact ⟨_, rfl⟩

theorem isChain (h : Descent Edge chain a way) : way.IsChain Edge := by
  induction h with
  | meets _ => exact .singleton _
  | deeper _ hedge hway ih =>
      obtain ⟨rest, rfl⟩ := hway.exists_cons
      exact ih.cons_cons hedge

/-- The chain and the places in front of the last one are the chain of the last one. -/
theorem nodup_append_dropLast (h : Descent Edge chain a way) (hchain : chain.Nodup) :
    (chain ++ way.dropLast).Nodup := by
  induction h with
  | meets _ => rwa [List.dropLast_singleton, List.append_nil]
  | @deeper chain way a b ha _ hway ih =>
      obtain ⟨rest, rfl⟩ := hway.exists_cons
      rw [List.dropLast_cons_cons, ← List.singleton_append (x := a), ← List.append_assoc]
      refine ih (List.nodup_append.mpr ⟨hchain, List.nodup_singleton a, fun c hc d hd => ?_⟩)
      rw [List.mem_singleton.mp hd]
      rintro rfl
      exact ha hc

theorem exists_getLast?_eq (h : Descent Edge chain a way) :
    ∃ k ∈ chain ++ way.dropLast, way.getLast? = some k := by
  induction h with
  | @meets chain a ha => exact ⟨a, List.mem_append_left _ ha, rfl⟩
  | @deeper chain way a b _ _ hway ih =>
      obtain ⟨rest, rfl⟩ := hway.exists_cons
      obtain ⟨k, hk, hlast⟩ := ih
      rw [List.append_assoc, List.singleton_append] at hk
      exact ⟨k, hk, hlast⟩

/-- A way down from nowhere that comes to its own chain is a lasso. -/
theorem isLasso (h : Descent Edge [] a way) : IsLasso Edge a way := by
  refine ⟨?_, h.isChain, h.nodup_append_dropLast List.nodup_nil, h.exists_getLast?_eq⟩
  obtain ⟨rest, rfl⟩ := h.exists_cons
  rfl

end Descent

/-! ## Loaders -/

namespace Loader

variable {files : FileSystem} {l : Loader} {chain ks path : List String} {key : String} {e : Error}

/-- The second key is the one of a partial that a tag of the template under the first key refers
to. -/
def Includes (l : Loader) (a b : String) : Prop :=
  ∃ t, l.sources.get? a = some (sourceOf l.config a t) ∧
    ∃ r ∈ resolvePartials (ResolutionContext.ofTemplate l.config a) t.tags, r.key = b

/-- A key that no template can be had for is not reported as a circle. -/
theorem graph_ne_circularPartial {store : TextStore} {c : Config} :
    graph files c store key ≠ .error (.circularPartial ks) := by
  intro h
  rcases graph_eq_error h with ⟨address, reason, he⟩ | ⟨fault, he⟩
  · cases he
  · rw [Engine.compileError] at he
    cases he

/-- A circle that is reported is the chain and the way down from it. -/
theorem FailingPath.descent (h : FailingPath files l chain key e path) (hl : Registry l)
    (he : e = .circularPartial ks) : Descent l.Includes chain key path ∧ ks = chain ++ path := by
  induction h with
  | cycle hkey =>
      cases he
      exact ⟨.meets hkey, rfl⟩
  | missing hkey hnone hgraph =>
      rw [he] at hgraph
      exact absurd hgraph graph_ne_circularPartial
  | @deeper chain key s before after r e path hkey hs hrefs _ _ ih =>
      obtain ⟨hdescent, rfl⟩ := ih he
      obtain ⟨-, hsource⟩ := hl.sources key s hs
      have hr : r ∈ s.references := by
        rw [hrefs]
        exact List.mem_append_cons_self
      have hincludes : l.Includes key r.key := by
        rw [hsource] at hs hr
        exact ⟨s.template, hs, r, hr, rfl⟩
      exact ⟨.deeper hkey hincludes hdescent, List.append_assoc _ _ _⟩

end Loader

/-! ## Bundles -/

namespace Bundle

variable {b : Bundle} {chain ks path : List String} {id : String} {e : Error}

/-- The second identifier is the canonical one of a dependency that the definition under the first
one declares. -/
def Depends (b : Bundle) (a c : String) : Prop :=
  ∃ d, b.definitions.get? a = some d ∧ ∃ id ∈ d.dependencyIds, canonicalModuleId id = c

/-- A circle that is reported is the chain and the way down from it. -/
theorem FailingPath.descent (h : FailingPath b chain id e path) (he : e = .circularPartial ks) :
    Descent b.Depends chain (canonicalModuleId id) path ∧ ks = chain ++ path := by
  induction h with
  | cycle hkey =>
      cases he
      exact ⟨.meets hkey, rfl⟩
  | missing _ _ => cases he
  | unusable _ _ _ hmade =>
      rcases ModuleDefinition.error_of_bind_instantiate hmade with ⟨_, _, rfl⟩ | ⟨_, rfl⟩
      · cases he
      · cases he
  | @deeper chain before after path id id' d e hkey hd hids _ _ ih =>
      obtain ⟨hdescent, rfl⟩ := ih he
      have hdepends : b.Depends (canonicalModuleId id) (canonicalModuleId id') := by
        refine ⟨d, hd, id', ?_, rfl⟩
        rw [hids]
        exact List.mem_append_cons_self
      exact ⟨.deeper hkey hdepends hdescent, List.append_assoc _ _ _⟩

end Bundle

/-! ## Result -/

/-- Whatever a loader was used for before, a circle that a load reports is one.  It starts at the
key of the name that was asked for, goes from each key to the one of a partial of its template, and
ends at the first key that it meets for the second time.  No key on it is kept.  The same is true of
a bundle, for the dependencies that the definitions declare. -/
theorem isLasso_of_circularPartial :
    (∀ l, Loader.Reachable l → ∀ files name way,
      ((Loader.load files name).run.run l).1 = .error (.circularPartial way) →
        let l' := ((Loader.load files name).run.run l).2
        2 ≤ way.length ∧ IsLasso l'.Includes (Path.normalize name) way ∧
          ∀ key ∈ way, l'.module? key = none) ∧
    ∀ (b : Bundle) id way,
      ((Bundle.load id).run.run b).1 = .error (.circularPartial way) →
        2 ≤ way.length ∧ IsLasso b.Depends (canonicalModuleId id) way ∧
          ∀ key ∈ way, ((Bundle.load id).run.run b).2.module? key = none := by
  refine ⟨fun l hl files name way h => ?_, fun b id way h => ?_⟩
  · obtain ⟨hl', -, -, herror⟩ := Loader.load_registers hl.registry files name
    rcases herror _ h with ⟨hendless, -⟩ | ⟨path, hpath, hnone⟩
    · cases hendless
    · obtain ⟨hdescent, rfl⟩ := hpath.descent hl' rfl
      exact ⟨hdescent.isLasso.two_le_length, hdescent.isLasso, hnone⟩
  · have hout := Bundle.load_outcome id b
    obtain ⟨path, hpath, hnone⟩ := hout.error _ h
    obtain ⟨hdescent, rfl⟩ := hpath.descent rfl
    have hsame : Bundle.Depends ((Bundle.load id).run.run b).2 = b.Depends := by
      funext a c
      rw [Bundle.Depends, hout.definitions, Bundle.Depends]
    rw [hsame] at hdescent
    exact ⟨hdescent.isLasso.two_le_length, hdescent.isLasso, hnone⟩

/-- A store with a page whose partial refers to itself, by the way from its own directory. -/
def circleStore : TextStore :=
  .memory { texts := [("page.mustache", "[{{> part}}]"), ("part.mustache", "[{{> ./part}}]")] }

/-- A bundle with a page whose dependency depends on itself, under another spelling. -/
def circleBundle : Bundle where
  definitions :=
    [("pages!page", ⟨"pages!page", "pages", [⟨1, "part", "pages!part"⟩], {}, "{{> part}}"⟩),
      ("pages!part", ⟨"pages!part", "pages", [⟨1, "part", "pages!./part"⟩], {}, "{{> part}}"⟩)]

theorem exists_load_circle :
    ∃ l, Loader.ofConfig {} circleStore false = .ok l ∧
      ((Loader.load .empty "page").run.run l).1 =
        .error (.circularPartial ["page", "part", "part"]) := by
  have hl : Loader.ofConfig {} circleStore false = .ok { config := {}, store := circleStore } := rfl
  refine ⟨_, hl, ?_⟩
  have hpage : Loader.graph .empty {} circleStore "page" = .ok ⟨_, [⟨"part", "part", 1⟩]⟩ :=
    Loader.graph_of_isPlain "[{{> part}}]" (by decide) (by decide) (by decide)
  have hpart : Loader.graph .empty {} circleStore "part" = .ok ⟨_, [⟨"./part", "./part", 1⟩]⟩ :=
    Loader.graph_of_isPlain "[{{> ./part}}]" (by decide) (by decide) (by decide)
  have hpageKey : Path.normalize "page" = "page" := by decide
  have hpartKey : Reference.key ⟨"part", "part", 1⟩ = "part" := by decide
  have hagainKey : Reference.key ⟨"./part", "./part", 1⟩ = "part" := by decide
  have hmeets : (Loader.graph .empty {} circleStore).Meets [] (Path.normalize "page")
      (.circularPartial ["page", "part", "part"]) := by
    rw [hpageKey]
    refine .deeper (nomatch ·) hpage (show _ = [] ++ ⟨"part", "part", 1⟩ :: [] from rfl)
      (fun _ h => nomatch h) ?_
    rw [hpartKey]
    refine .deeper (by decide) hpart (show _ = [] ++ ⟨"./part", "./part", 1⟩ :: [] from rfl)
      (fun _ h => nomatch h) ?_
    rw [hagainKey]
    exact .cycle (by decide)
  obtain ⟨hsound, -⟩ := Loader.sound_of_ofConfig .empty hl
  refine hsound.coherent.load_of_meets ?_
  rw [hsound.current_eq]
  exact hmeets

theorem isLasso_of_circularPartial_circle :
    (∃ l, IsLasso (Loader.Includes l) "page" ["page", "part", "part"]) ∧
      IsLasso (Bundle.Depends circleBundle) "pages!page"
        ["pages!page", "pages!part", "pages!part"] := by
  obtain ⟨hloader, hbundle⟩ := isLasso_of_circularPartial
  obtain ⟨l, hl, hload⟩ := exists_load_circle
  have hpageKey : Path.normalize "page" = "page" := by decide
  obtain ⟨-, hlasso, -⟩ := hloader l (.make hl) .empty "page" _ hload
  rw [hpageKey] at hlasso
  refine ⟨⟨_, hlasso⟩, ?_⟩
  have hbelow : ((Bundle.load "pages!page").run.run circleBundle).1 =
      .error (.circularPartial ["pages!page", "pages!part", "pages!part"]) := rfl
  obtain ⟨-, hlasso, -⟩ := hbundle circleBundle "pages!page" _ hbelow
  have hcanonical : canonicalModuleId "pages!page" = "pages!page" := by decide
  rwa [hcanonical] at hlasso

end Stencil
