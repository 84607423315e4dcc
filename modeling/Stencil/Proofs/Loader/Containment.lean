/-
Templates below a root.

A loader of the files below a root reads a template at the root, up as often as the fetch path leads
up, and down through its names.  Nothing keeps a path from leading up: slashes in front of it are
taken away, `..` segments are not, so a tag can lead out of the root, to a file that is read as a
template.  A load during which no path leads up goes by what is below the root alone.  No path does
if the name of the template is absolute and every tag is absolute, too, or relative to its template.
-/
import Mathlib
import Stencil.Proofs.Files.Base
import Stencil.Proofs.Loader.Memory
import Stencil.Proofs.Path.Climbs

namespace Stencil

open Stencil.Path (climbs descent segments baseSegments moving isAbsolute)
open FileSystem (SameBelow)

namespace Loader

variable {files files' : FileSystem} {l l' : Loader} {chain names keys : List String}
  {key name root : String}

/-! ## One address -/

theorem address_directory (hstore : l.store = .directory root) (key : String) :
    l.address key = Path.join root
      (String.ofList
        (Path.relativeChars (Path.normalizeChars (l.config.fetchPath key).toList))) := by
  rw [address, hstore, Path.join, String.toList_ofList]
  rfl

theorem exists_of_locate_address (hstore : l.store = .directory root) {place : List String}
    (h : files.locate (l.address key) = .ok place) :
    ∃ base, files.baseOf root = .ok base ∧
      place = base.take (base.length - climbs (l.config.fetchPath key).toList) ++
        (descent (l.config.fetchPath key).toList).map String.ofList := by
  rw [address_directory hstore] at h
  obtain ⟨base, hbase, hfold⟩ :=
    FileSystem.exists_foldlM_of_locate_join (Path.isAbsolute_relativeChars _) h
  have hmoving := FileSystem.foldlM_moving hfold
  rw [Path.moving_segments_relativeChars] at hmoving
  exact ⟨base, hbase,
    FileSystem.eq_of_foldlM_climb (fun s hs => Path.isName_of_mem_descent hs) hmoving⟩

/-- What is read where a path does not lead up is a matter of what is below the root. -/
theorem readText_address (hsame : SameBelow root files files') (hstore : l.store = .directory root)
    (hclimbs : climbs (l.config.fetchPath key).toList = 0) :
    files.readText (l.address key) = files'.readText (l.address key) := by
  rw [address_directory hstore]
  refine hsame.readText (Path.isAbsolute_relativeChars _) ?_
  intro hparent
  exact (Path.parent_mem_iff (Path.moving_segments_relativeChars _)).mp hparent hclimbs

/-! ## Runs that read the same -/

/-- A fetch from files depends on what is read and leaves the store as it is. -/
theorem fetch_directory_congr (root : String) {address : String}
    (h : files.readText address = files'.readText address) :
    (TextStore.directory root).fetch files address =
      (TextStore.directory root).fetch files' address := by
  rw [TextStore.fetch, TextStore.fetch, h]

theorem fetchAll_directory (files : FileSystem) (c : Config) (root : String)
    (keys : List String) : fetchAll files c (.directory root) keys = .directory root := by
  induction keys with
  | nil => rfl
  | cons key keys ih =>
      have hstore : ((TextStore.directory root).fetch files
          (Place.address (.directory root) (c.fetchPath key))).2 = .directory root := by
        rw [TextStore.fetch]
        split <;> rfl
      rw [fetchAll, List.foldl_cons]
      show fetchAll files c ((TextStore.directory root).fetch files
        (Place.address (.directory root) (c.fetchPath key))).2 keys = _
      rw [hstore, ih]

theorem Leaves.address {α : Type} {r : Except Error α} (h : Leaves files l keys r l')
    (hstore : l.store = .directory root) : l'.store = .directory root ∧ l'.address = l.address := by
  have hstore' : l'.store = .directory root := by rw [h.store, hstore, fetchAll_directory]
  refine ⟨hstore', funext fun key => ?_⟩
  rw [Loader.address, Loader.address, hstore', hstore, h.config]

theorem mem_asked (h : l.sources.get? key = none) : key ∈ l.asked key := by
  rw [asked, Dict.hasKey, h]
  exact List.mem_singleton_self _

/-- The source of a key is the same where the text is read the same, if it is read at all. -/
theorem run_source_congr (hstore : l.store = .directory root)
    (h : ∀ k ∈ l.asked key, files.readText (l.address k) = files'.readText (l.address k)) :
    (source files key).run.run l = (source files' key).run.run l := by
  rw [run_source, run_source]
  cases hsource : l.sources.get? key with
  | some s => rfl
  | none =>
      rw [fetched, fetched, TextStore.text, TextStore.text, hstore,
        fetch_directory_congr root (h key (mem_asked hsource))]

theorem run_source_lookedUp_congr {key' : String} (hstore : l.store = .directory root)
    (h : ∀ k ∈ l.asked key, files.readText (l.address k) = files'.readText (l.address k)) :
    (source files key).run.run (l.lookedUp key') = (source files' key).run.run (l.lookedUp key') :=
  run_source_congr (l := l.lookedUp key') hstore h

/-- A run is the same where all texts that it reads are read the same. -/
theorem Course.congr {r : Except Error (List Module)} (h : Course files chain names l keys r l')
    (hstore : l.store = .directory root)
    (hread : ∀ k ∈ keys, files.readText (l.address k) = files'.readText (l.address k)) :
    Course files' chain names l keys r l' := by
  induction h with
  | nil chain l => exact .nil chain l
  | cycle names l hkey => exact .cycle names l hkey
  | cached hkey hm _ ih => exact .cached hkey hm (ih hstore hread)
  | noSource names hkey hnone he =>
      rw [run_source_lookedUp_congr hstore hread] at he
      exact .noSource names hkey hnone he
  | noPartial names hkey hnone hs _ ih =>
      obtain ⟨hread₁, hread₂⟩ := List.forall_mem_append.mp hread
      obtain ⟨hstore₁, haddress⟩ := (leaves_source_lookedUp hs).address hstore
      rw [run_source_lookedUp_congr hstore hread₁] at hs
      rw [← haddress] at hread₂
      exact .noPartial names hkey hnone hs (ih hstore₁ hread₂)
  | kept hkey hnone hs hbelow _ ih ih' =>
      obtain ⟨hread₁₂, hread₃⟩ := List.forall_mem_append.mp hread
      obtain ⟨hread₁, hread₂⟩ := List.forall_mem_append.mp hread₁₂
      obtain ⟨hstore₁, haddress₁⟩ := (leaves_source_lookedUp hs).address hstore
      obtain ⟨hstore₂, haddress₂⟩ := hbelow.leaves.address hstore₁
      rw [run_source_lookedUp_congr hstore hread₁] at hs
      rw [← haddress₁] at hread₂ hread₃
      rw [← haddress₂] at hread₃
      exact .kept hkey hnone hs (ih hstore₁ hread₂) (ih' hstore₂ hread₃)

/-- The course of a single name is the course of its load. -/
theorem Course.loadBelow {r : Except Error Module}
    (h : Course files chain [name] l keys (r.map ([·])) l') :
    loadBelow files chain name l = some (r, l') := by
  have hrun := h.run
  rw [run_loadAllBelow_cons] at hrun
  rcases hname : Loader.loadBelow files chain name l with _ | ⟨e | m, u⟩
  · rw [hname] at hrun
    cases hrun
  · rw [hname] at hrun
    cases r <;> cases hrun
    rfl
  · rw [hname] at hrun
    cases r <;> cases hrun
    rfl

/-! ## Loads below the root -/

/-- Two graphs that agree on all that is reached in the first one reach the same. -/
theorem reaches_of_agree {g g' : Graph} {a k : String} (hagree : ∀ k, g.Reaches a k → g k = g' k)
    (h : g'.Reaches a k) : g.Reaches a k := by
  induction h with
  | refl => exact .refl
  | tail _ hedge ih =>
      obtain ⟨s, hs, hr⟩ := hedge
      rw [← hagree _ ih] at hs
      exact ih.tail ⟨s, hs, hr⟩

/-- Whether no path leads up from the root while a name is loaded. -/
def StaysBelow (files : FileSystem) (l : Loader) (name : String) : Prop :=
  ∀ k, (l.current files).Reaches (Path.normalize name) k →
    climbs (l.config.fetchPath k).toList = 0

theorem current_congr (hsame : SameBelow root files files') (hstore : l.store = .directory root)
    (hclimbs : climbs (l.config.fetchPath key).toList = 0) :
    l.current files key = l.current files' key := by
  have hread := readText_address hsame hstore hclimbs
  have hfetch := fetch_directory_congr root hread
  rw [address, hstore] at hfetch
  rw [current, current, graph, graph, TextStore.text, TextStore.text, hstore, hfetch]

theorem StaysBelow.congr (h : StaysBelow files l name) (hsame : SameBelow root files files')
    (hstore : l.store = .directory root) : StaysBelow files' l name := by
  intro k hk
  exact h k (reaches_of_agree (fun k hk => current_congr hsame hstore (h k hk)) hk)

theorem StaysBelow.loadBelow_congr (h : StaysBelow files l name) (hl : Coherent l)
    (hsame : SameBelow root files files') (hstore : l.store = .directory root)
    (out : Except Error Module × Loader) (hout : loadBelow files [] name l = some out) :
    loadBelow files' [] name l = some out := by
  obtain ⟨keys, hcourse⟩ := exists_course_loadBelow hout
  refine (hcourse.congr hstore fun k hk => ?_).loadBelow
  obtain ⟨name', hname', hreaches⟩ := hcourse.reaches hl k hk
  rw [List.mem_singleton.mp hname'] at hreaches
  exact readText_address hsame hstore (h k hreaches)

/-- A load that stays below the root goes by what is there. -/
theorem StaysBelow.load_congr (h : StaysBelow files l name) (hl : Coherent l)
    (hsame : SameBelow root files files') (hstore : l.store = .directory root) :
    (load files name).run.run l = (load files' name).run.run l := by
  have hforth := h.loadBelow_congr hl hsame hstore
  have hback := (h.congr hsame hstore).loadBelow_congr hl hsame.symm hstore
  have hsame : loadBelow files [] name l = loadBelow files' [] name l := by
    cases hout : loadBelow files [] name l with
    | some out => exact (hforth out hout).symm
    | none =>
        cases hout' : loadBelow files' [] name l with
        | none => rfl
        | some out =>
            rw [hback out hout'] at hout
            cases hout
  show (loadBelow files [] name l).getD _ = (loadBelow files' [] name l).getD _
  rw [hsame]

/-! ## Absolute names -/

/-- Whether the name of a partial is absolute, or relative to its template. -/
def Anchored (c : Config) (tag : String) : Prop :=
  isAbsolute tag.toList ∨
    (tag.toList.head? = some '.' ∧ Text.contains c.delimiter.toList tag.toList)

theorem isAbsolute_fetchPath (c : Config) (h : isAbsolute key.toList) :
    isAbsolute (c.fetchPath key).toList := by
  rw [Config.fetchPath, String.toList_append]
  exact Path.isAbsolute_append h _

/-- A reference in an absolute template has an absolute key if its name is absolute or relative to
the template. -/
theorem isAbsolute_key {c : Config} {tags : List String} {r : Reference}
    (hkey : isAbsolute key.toList) (hr : r ∈ resolvePartials (.ofTemplate c key) tags)
    (hanchored : Anchored c r.name) : isAbsolute r.key.toList := by
  obtain ⟨-, hid⟩ := Reference.mem_resolvePartials hr
  rw [Reference.key, Path.isAbsolute_normalize]
  rcases hanchored with habsolute | ⟨hdot, hdelimiter⟩
  · rwa [Reference.resolve?_of_isAbsolute habsolute hid]
  · rw [ResolutionContext.resolve?_of_dot hdot hdelimiter, Option.some.injEq] at hid
    rw [← hid, String.toList_append, ResolutionContext.ofTemplate, Path.base,
      String.toList_ofList, Path.isAbsolute_baseChars_append _ (Path.isAbsolute_of_dot hdot)]
    exact isAbsolute_fetchPath c hkey

/-- What a loader goes by has the references that the tags of its templates resolve to. -/
theorem Reachable.eq_sourceOf (h : Reachable l) {s : Source} (hs : l.current files key = .ok s) :
    s = sourceOf l.config key s.template := by
  cases hsource : l.sources.get? key with
  | some s' =>
      rw [current_of_get? hsource] at hs
      cases hs
      exact (h.registry.sources key s hsource).2
  | none =>
      rw [current_of_none hsource] at hs
      obtain ⟨text, t, -, -, rfl⟩ := graph_eq_ok hs
      rfl

theorem Reachable.staysBelow (h : Reachable l) (hname : isAbsolute name.toList)
    (htags : ∀ k s, (l.current files).Reaches (Path.normalize name) k →
      l.current files k = .ok s → ∀ tag ∈ s.template.tags, Anchored l.config tag) :
    StaysBelow files l name := by
  intro k hk
  refine Path.climbs_of_isAbsolute (isAbsolute_fetchPath l.config ?_)
  induction hk with
  | refl => rwa [Path.isAbsolute_normalize]
  | tail hreaches hedge ih =>
      obtain ⟨s, hs, r, hr, rfl⟩ := hedge
      have htags' := htags _ s hreaches hs
      rw [h.eq_sourceOf hs] at hr
      exact isAbsolute_key ih hr (htags' _ (Reference.mem_resolvePartials hr).1)

/-! ## Result -/

/-- The address of a key is the root and, as far as it leads further, a `..` segment for each time
the fetch path leads up and then the names through which it leads down.  So it has a `..` segment
behind the root exactly if the fetch path leads up, and what is read is as many directories above
where the root leads, and otherwise below it.  While no fetch path leads up, a load goes by what is
below the root alone: in file systems in which that is the same it has the same outcome and leaves
the same loader.  No fetch path leads up if the name is absolute and so is, or is relative to its
template, every tag. -/
theorem reads_lead_from_root (h : Reachable l) (hstore : l.store = .directory root) :
    (∀ key, ∃ below, segments (l.address key).toList = baseSegments root.toList ++ below ∧
      moving below = List.replicate (climbs (l.config.fetchPath key).toList) Path.parent ++
        descent (l.config.fetchPath key).toList ∧
      (∀ s ∈ descent (l.config.fetchPath key).toList, Path.IsName s) ∧
      (Path.parent ∈ below ↔ climbs (l.config.fetchPath key).toList ≠ 0)) ∧
    (∀ (files : FileSystem) key place, files.locate (l.address key) = .ok place →
      ∃ base, files.baseOf root = .ok base ∧
        place = base.take (base.length - climbs (l.config.fetchPath key).toList) ++
          (descent (l.config.fetchPath key).toList).map String.ofList) ∧
    (∀ files files' name, StaysBelow files l name → SameBelow root files files' →
      (load files name).run.run l = (load files' name).run.run l) ∧
    ∀ files name, isAbsolute name.toList →
      (∀ k s, (l.current files).Reaches (Path.normalize name) k → l.current files k = .ok s →
        ∀ tag ∈ s.template.tags, Anchored l.config tag) →
      StaysBelow files l name := by
  refine ⟨?_, fun files key place => exists_of_locate_address hstore, ?_,
    fun files name => h.staysBelow⟩
  · intro key
    obtain ⟨below, hbelow, hmoving⟩ := Path.exists_segments_address root (l.config.fetchPath key)
    refine ⟨below, ?_, hmoving, fun s hs => Path.isName_of_mem_descent hs,
      Path.parent_mem_iff hmoving⟩
    rw [address, hstore]
    exact hbelow
  · intro files files' name hstays hsame
    exact hstays.load_congr h.coherent hsame hstore

/-! ## A root with a file above it -/

/-- A root with two pages and a partial, and a file next to the root. -/
def siteFiles (secret : String) : FileSystem where
  root := FileTree.directory [("tmp", .directory [("work", .directory
    [("secret.mustache", .file secret.toUTF8),
      ("templates", .directory
        [("home.mustache", .file "[{{> /part}}]".toUTF8),
          ("page.mustache", .file "[{{> ../secret}}]".toUTF8),
          ("part.mustache", .file "x".toUTF8)])])])]
  workDir := ["tmp", "work"]

/-- A tag of the page leads to the file above the root. -/
theorem exists_unfolds_site :
    ∃ c p, (graph (siteFiles "S") {} (.directory "templates")).Unfolds (Path.normalize "page") c ∧
      c.partials.get? "../secret" = some p ∧ p.template.text = "S" := by
  have hpage : graph (siteFiles "S") {} (.directory "templates") "page" =
      .ok ⟨_, [⟨"../secret", "../secret", 1⟩]⟩ :=
    graph_of_isPlain "[{{> ../secret}}]" (by decide) (by decide) (by decide)
  have hsecret : graph (siteFiles "S") {} (.directory "templates") "../secret" = .ok ⟨_, []⟩ :=
    graph_of_isPlain "S" (by decide) (by decide) (by decide)
  have hleaf := Graph.exists_unfolds hsecret .nil
  have hkey : Reference.key ⟨"../secret", "../secret", 1⟩ = "../secret" := by decide
  rw [← hkey] at hleaf
  exact ⟨_, _, Graph.exists_unfolds hpage (.cons hleaf .nil), rfl, rfl⟩

/-- The other page and its partial stay below the root. -/
theorem reaches_site {k : String}
    (h : (graph (siteFiles "S") {} (.directory "templates")).Reaches (Path.normalize "/home") k) :
    ∃ s, graph (siteFiles "S") {} (.directory "templates") k = .ok s ∧
      (k = "/home" ∧ s.template.tags = ["/part"] ∨ k = "/part" ∧ s.template.tags = []) := by
  have hhome : graph (siteFiles "S") {} (.directory "templates") "/home" =
      .ok ⟨_, [⟨"/part", "/part", 1⟩]⟩ :=
    graph_of_isPlain "[{{> /part}}]" (by decide) (by decide) (by decide)
  have hpart : graph (siteFiles "S") {} (.directory "templates") "/part" = .ok ⟨_, []⟩ :=
    graph_of_isPlain "x" (by decide) (by decide) (by decide)
  induction h with
  | refl => exact ⟨_, hhome, .inl ⟨rfl, by decide⟩⟩
  | tail _ hedge ih =>
      obtain ⟨s, hs, r, hr, rfl⟩ := hedge
      obtain ⟨s', hs', ⟨rfl, -⟩ | ⟨rfl, -⟩⟩ := ih
      · rw [hhome] at hs
        cases hs
        rw [List.mem_singleton.mp hr]
        exact ⟨_, hpart, .inr ⟨by decide, by decide⟩⟩
      · rw [hpart] at hs
        cases hs
        cases hr

/-- What is above the root does not matter for what is below. -/
theorem sameBelow_site (secret secret' : String) :
    SameBelow "templates" (siteFiles secret) (siteFiles secret') where
  base := rfl
  tree base hbase := by
    cases hbase
    rfl

/-- A page of the root and its partial are read below the root, whatever is above it. -/
theorem reads_lead_from_root_home :
    ∃ l, Reachable l ∧ l.store = .directory "templates" ∧
      (siteFiles "S").locate (l.address "/home") =
        .ok ["tmp", "work", "templates", "home.mustache"] ∧
      (∃ base, (siteFiles "S").baseOf "templates" = .ok base ∧
        ["tmp", "work", "templates", "home.mustache"] =
          base.take (base.length - climbs (l.config.fetchPath "/home").toList) ++
            (descent (l.config.fetchPath "/home").toList).map String.ofList) ∧
      StaysBelow (siteFiles "S") l "/home" ∧
      SameBelow "templates" (siteFiles "S") (siteFiles "T") ∧
      (load (siteFiles "S") "/home").run.run l = (load (siteFiles "T") "/home").run.run l := by
  have hl : ofConfig {} (.directory "templates") false =
      .ok { config := {}, store := .directory "templates" } := rfl
  obtain ⟨hsound, -⟩ := sound_of_ofConfig (siteFiles "S") hl
  obtain ⟨-, hplace, hsame, habsolute⟩ := reads_lead_from_root (Reachable.make hl) rfl
  have hlocate : (siteFiles "S").locate
      (address { config := {}, store := .directory "templates" } "/home") =
        .ok ["tmp", "work", "templates", "home.mustache"] := by decide
  have hstays := habsolute (siteFiles "S") "/home" rfl fun k s hk hs tag htag => by
    rw [hsound.current_eq] at hk hs
    obtain ⟨s', hs', htags⟩ := reaches_site hk
    rw [hs] at hs'
    cases hs'
    rcases htags with ⟨-, htags⟩ | ⟨-, htags⟩
    · rw [htags] at htag
      rw [List.mem_singleton.mp htag]
      exact .inl rfl
    · rw [htags] at htag
      cases htag
  have hbelow := sameBelow_site "S" "T"
  exact ⟨_, .make hl, rfl, hlocate, hplace _ _ _ hlocate, hstays, hbelow,
    hsame _ _ _ hstays hbelow⟩

/-- A tag of a page below the root makes the loader read a file that is not. -/
theorem reads_above_root :
    ∃ l, ofConfig {} (.directory "templates") false = .ok l ∧
      l.address "../secret" = "templates/../secret.mustache" ∧
      (siteFiles "S").baseOf "templates" = .ok ["tmp", "work", "templates"] ∧
      (siteFiles "S").locate (l.address "../secret") = .ok ["tmp", "work", "secret.mustache"] ∧
      ∃ m p, ((load (siteFiles "S") "page").run.run l).1 = .ok m ∧
        m.closure.partials.get? "../secret" = some p ∧ p.template.text = "S" := by
  have hl : ofConfig {} (.directory "templates") false =
      .ok { config := {}, store := .directory "templates" } := rfl
  obtain ⟨hsound, -⟩ := sound_of_ofConfig (siteFiles "S") hl
  obtain ⟨c, p, hc, hp, htext⟩ := exists_unfolds_site
  obtain ⟨m, hm⟩ := exists_load_of_unfolds hsound hc
  have hgives := load_gives hsound "page"
  rw [hm] at hgives
  have hclosure : m.closure = c := Except.ok.inj (hgives.unique (.tree hc))
  refine ⟨_, hl, by decide, rfl, by decide, m, p, hm, ?_, htext⟩
  rwa [hclosure]

end Loader

end Stencil
