/-
Where loads end.

On the way down no key is on its chain twice, and each key on the chain has a text in the store.
But that bounds the chain only if the keys that share a text are finitely many, which is so unless
the extension lengthens names.  Then all loads end, and no chain is longer than there are keys to
reach.  With an extension that lengthens names there is a text that goes on below itself under ever
longer keys, of which no chain can tell that they have the same text.  What stands behind the tag
that goes on is then never tried, and an error there never found.
-/
import Mathlib
import Stencil.Proofs.Loader.Course

namespace Stencil

namespace Graph

variable {g : Graph} {e : Error} {walk : Nat → String}

/-- A walk on which every key has the next one among its partials and none comes back has no end. -/
theorem endless_of_walk (hinjective : Function.Injective walk)
    (hwalk : ∀ n, g.Edge (walk n) (walk (n + 1))) (n : Nat) : g.Endless (walk n) :=
  ⟨fun m => walk (n + m), rfl, fun _ _ h => Nat.add_left_cancel (hinjective h),
    fun m => hwalk (n + m)⟩

/-- On a walk that goes from every key to its first partial, and does not come back, nothing is met:
what stands behind the first partial is never tried. -/
theorem not_meets_of_walk (hinjective : Function.Injective walk)
    (hwalk : ∀ n, ∃ s r rest,
      g (walk n) = .ok s ∧ s.references = r :: rest ∧ r.key = walk (n + 1)) :
    ¬ g.Meets [] (walk 0) e := by
  have hedge : ∀ n, g.Edge (walk n) (walk (n + 1)) := by
    intro n
    obtain ⟨s, r, rest, hs, hrefs, hkey⟩ := hwalk n
    rw [← hkey]
    exact edge_of_mem hs (hrefs ▸ List.mem_cons_self)
  -- The chain above a key of the walk is the walk so far.
  have hnone : ∀ chain key, g.Meets chain key e →
      ∀ n, chain = (List.range n).map walk → key ≠ walk n := by
    intro chain key hmeets
    induction hmeets with
    | cycle hkey =>
        rintro n rfl rfl
        obtain ⟨m, hm, heq⟩ := List.mem_map.mp hkey
        exact absurd (hinjective heq) (Nat.ne_of_lt (List.mem_range.mp hm))
    | node _ he =>
        rintro n rfl rfl
        obtain ⟨s, -, -, hs, -⟩ := hwalk n
        rw [hs] at he
        cases he
    | @deeper chain key s before after r e _ hs hrefs hbefore _ ih =>
        rintro n rfl rfl
        obtain ⟨s', first, rest, hs', hfirst, hkey⟩ := hwalk n
        rw [hs] at hs'
        cases hs'
        rw [hrefs] at hfirst
        cases before with
        | nil =>
            obtain ⟨rfl, -⟩ := List.cons.inj hfirst
            refine ih (n + 1) ?_ hkey
            rw [List.range_succ, List.map_append, List.map_singleton]
        | cons b before =>
            obtain ⟨rfl, -⟩ := List.cons.inj hfirst
            obtain ⟨c, hc⟩ := hbefore _ List.mem_cons_self
            rw [hkey] at hc
            exact hc.not_endless (endless_of_walk hinjective hedge (n + 1))
  exact fun hmeets => hnone _ _ hmeets 0 rfl rfl

end Graph

namespace Loader

/-- The loads that a load of a name makes on its way, each with the chain of the keys above it and
the loader that it starts from. -/
inductive Calls (files : FileSystem) (name : String) (l : Loader) :
    List String → String → Loader → Prop
  | start : Calls files name l [] name l
  | deeper {chain : List String} {id : String} {u : Loader} (h : Calls files name l chain id u)
      (hkey : Path.normalize id ∉ chain) (hnone : u.module? (Path.normalize id) = none)
      {s : Source} {v : Loader}
      (hs : (source files (Path.normalize id)).run.run (u.lookedUp (Path.normalize id)) =
        (.ok s, v)) {before after : List String} {next : String}
      (hrefs : s.references.map Reference.canonicalId = before ++ next :: after)
      {keys : List String} {found : List Module} {w : Loader}
      (hbefore : Course files (chain ++ [Path.normalize id]) before v keys (.ok found) w) :
      Calls files name l (chain ++ [Path.normalize id]) next w

variable {files : FileSystem} {l u : Loader} {chain : List String} {name id : String} {g : Graph}

/-! ## Chains -/

/-- What holds of every load on the way down: it starts after some steps, no key is on its chain
twice, and every key on the chain is reached and has a template, and leads to the key of the
load. -/
theorem Calls.onWay (h : Calls files name l chain id u) (hl : Coherent l) :
    Steps files l u ∧ chain.Nodup ∧
      (l.current files).Reaches (Path.normalize name) (Path.normalize id) ∧
      ∀ k ∈ chain, (l.current files).Reaches (Path.normalize name) k ∧
        ∃ s, l.current files k = .ok s := by
  induction h with
  | start => exact ⟨.refl, .nil, .refl, fun _ hk => nomatch hk⟩
  | deeper _ hkey _ hs hrefs hbefore ih =>
      obtain ⟨hsteps, hnodup, hreaches, hchain⟩ := ih
      have hu := Steps.coherent hsteps hl
      obtain ⟨hsteps₁, hsource⟩ := steps_of_source hs
      have hsteps₂ := hbefore.steps (Steps.coherent hsteps₁ hu)
      rw [Steps.current hsteps] at hsource
      obtain ⟨r, hr, rfl⟩ := List.mem_map.mp (hrefs.symm ▸ List.mem_append_cons_self)
      refine ⟨hsteps.trans (hsteps₁.trans hsteps₂), ?_,
        hreaches.tail (Graph.edge_of_mem hsource hr), fun k hk => ?_⟩
      · refine List.nodup_append'.mpr ⟨hnodup, List.nodup_singleton _, ?_⟩
        exact List.disjoint_singleton.mpr hkey
      · rcases List.mem_append.mp hk with hk | hk
        · exact hchain k hk
        · rw [List.mem_singleton.mp hk]
          exact ⟨hreaches, _, hsource⟩

/-- No chain is longer than there are keys to reach. -/
theorem Calls.length_le (h : Calls files name l chain id u) (hl : Coherent l)
    (hfinite : {k | (l.current files).Reaches (Path.normalize name) k}.Finite) :
    chain.length ≤ {k | (l.current files).Reaches (Path.normalize name) k}.ncard := by
  obtain ⟨-, hnodup, -, hchain⟩ := h.onWay hl
  rw [← List.toFinset_card_of_nodup hnodup, ← Set.ncard_coe_finset]
  refine Set.ncard_le_ncard (fun k hk => (hchain k ?_).1) hfinite
  simpa using hk

/-! ## A text below itself -/

open Stencil.Path (Segment Lengthens location directory isAbsolute ofSegments segments step here
  parent)

/-- The memory with one text, which goes on at the directory of its template. -/
def descendingShelf : Shelf := { texts := [("a", "[{{> ./.}}]")] }

/-- A name that was lengthened some times. -/
def lengthened (first : Segment) (n : Nat) : Segment := 'b' :: (List.replicate n first).flatten

/-- The key of the text after some descents. -/
def descendingKey (first : Segment) (n : Nat) : String :=
  String.ofList ('a' :: '/' :: lengthened first n)

section Descent

variable {extension : String} {first : Segment} {mid : List Segment}

theorem lengthened_append (first : Segment) (n : Nat) :
    lengthened first n ++ first = lengthened first (n + 1) := by
  rw [lengthened, lengthened, List.replicate_succ', List.flatten_append, List.cons_append,
    List.flatten_singleton]

/-- The name is that of no special segment. -/
theorem isName_lengthened (hfirst : '/' ∉ first) (n : Nat) : Path.IsName (lengthened first n) := by
  refine ⟨fun hmem => ?_, List.cons_ne_nil _ _, fun h => ?_, fun h => ?_⟩
  · rcases List.mem_cons.mp hmem with h | h
    · exact absurd h (by decide)
    · obtain ⟨l, hl, hmem⟩ := List.mem_flatten.mp h
      rw [List.eq_of_mem_replicate hl] at hmem
      exact hfirst hmem
  · exact absurd (List.cons.inj h).1 (by decide)
  · exact absurd (List.cons.inj h).1 (by decide)

theorem injective_descendingKey (hne : first ≠ []) : Function.Injective (descendingKey first) := by
  intro m n h
  have hlength := congrArg (fun key : String => key.toList.length) h
  simp only [descendingKey, lengthened, String.toList_ofList, List.length_cons,
    List.length_flatten, List.map_replicate, List.sum_replicate, smul_eq_mul] at hlength
  have hpos : 0 < first.length := List.length_pos_iff.mpr hne
  exact Nat.eq_of_mul_eq_mul_right hpos (by omega)

variable (hsegments : segments extension.toList = first :: (mid ++ [parent]))
  (hidle : mid.foldl (step false) [] = [])

include hsegments

theorem slash_not_mem_first : '/' ∉ first :=
  Path.not_mem_of_mem_segments (p := extension.toList) (by rw [hsegments]; exact List.mem_cons_self)

/-- The segments of the path of the text. -/
theorem segments_descendingPath (n : Nat) :
    segments (descendingKey first n ++ extension).toList =
      (['a'] :: lengthened first (n + 1) :: mid) ++ [parent] := by
  have hname := (isName_lengthened (slash_not_mem_first hsegments) n).1
  have hkey : segments (descendingKey first n).toList = [['a']] ++ [lengthened first n] := by
    rw [descendingKey, String.toList_ofList]
    show segments (['a'] ++ '/' :: lengthened first n) = _
    rw [Path.segments_append_slash, Path.segments_of_not_mem hname]
    rfl
  rw [String.toList_append, Path.segments_append hkey hsegments, lengthened_append]
  rfl

include hidle

/-- The directory of the text goes down into the name. -/
theorem directory_descendingPath (n : Nat) :
    directory false (descendingKey first n ++ extension).toList =
      [lengthened first (n + 1), ['a']] := by
  obtain ⟨-, hempty, hhere, hparent⟩ :=
    isName_lengthened (slash_not_mem_first hsegments) (n + 1)
  have hname : step false [['a']] (lengthened first (n + 1)) =
      [lengthened first (n + 1), ['a']] := by
    rw [step, if_neg (not_or.mpr ⟨hempty, hhere⟩), if_neg hparent]
  rw [directory, segments_descendingPath hsegments n, List.dropLast_concat, List.foldl_cons,
    List.foldl_cons, show step false [] ['a'] = [['a']] by decide, hname,
    Path.foldl_step_of_idle false _ hidle]

/-- The path of the text goes up again to one and the same address. -/
theorem location_descendingPath (n : Nat) :
    location false (descendingKey first n ++ extension).toList = [['a']] := by
  have hlast : (segments (descendingKey first n ++ extension).toList).getLast
      (Path.segments_ne_nil _) = parent := by
    simp only [segments_descendingPath hsegments n, List.getLast_concat]
  have hname := (isName_lengthened (slash_not_mem_first hsegments) (n + 1)).2.2.2
  rw [Path.location_eq_step, hlast, directory_descendingPath hsegments hidle n, step,
    if_neg (by decide), if_pos rfl, if_pos hname]

/-- A text whose first tag goes on at the directory of its template leads to itself under the next
key. -/
theorem graph_descendingKey (text : String) {names : List String}
    (hplain : Language.isPlain (Piece.withoutTags (Piece.ofText text)))
    (hnames : Piece.names (Piece.ofText text) = "./." :: names) (n : Nat) :
    ∃ s r rest, graph .empty { extension := extension } (.memory { texts := [("a", text)] })
        (descendingKey first n) = .ok s ∧ s.references = r :: rest ∧
      r.key = descendingKey first (n + 1) := by
  have habsolute : isAbsolute (descendingKey first n ++ extension).toList = false := by
    rw [String.toList_append, descendingKey, String.toList_ofList]
    rfl
  have haddress : Place.memory.address (descendingKey first n ++ extension) = "a" := by
    show String.ofList (Path.normalizeChars (descendingKey first n ++ extension).toList) = "a"
    rw [Path.normalizeChars_eq, habsolute, location_descendingPath hsegments hidle n]
    decide
  have htext : TextStore.text .empty (.memory { texts := [("a", text)] })
      (Place.memory.address (descendingKey first n ++ extension)) = .ok text := by
    rw [haddress]
    rfl
  have hresolve : (ResolutionContext.ofTemplate { extension := extension }
      (descendingKey first n)).resolve? "./." =
        some (Path.base (descendingKey first n ++ extension) ++ "./.") := by
    have hpath : Text.contains "/".toList "./.".toList := by decide
    rw [ResolutionContext.resolve?]
    exact (if_pos hpath).trans (if_pos (by decide))
  obtain ⟨rest, hrest⟩ := Reference.exists_resolvePartials_cons hresolve names
  refine ⟨_, ⟨"./.", Path.base (descendingKey first n ++ extension) ++ "./.", 1⟩, rest,
    graph_of_isPlain text htext hplain (hnames ▸ hrest), rfl, ?_⟩
  have hwalk : (segments "./.".toList).foldl (step false)
      (directory false (descendingKey first n ++ extension).toList) =
        [lengthened first (n + 1), ['a']] := by
    rw [directory_descendingPath hsegments hidle n]
    rfl
  rw [Reference.key, normalize_base_append (by decide), habsolute, pathFrom, hwalk]
  rfl

end Descent

/-- Any extension is in order. -/
theorem ofConfig_extension (extension : String) (store : TextStore) :
    ofConfig { extension := extension } store false =
      .ok { config := { extension := extension }, store := store } := by
  have hdelimiter : ¬ "/" = "" := by decide
  have hplugin : ¬ ("hgn" = "" ∨ pluginSeparator ∈ "hgn".toList) := by decide
  have hproblem : ({ extension := extension } : Config).problem? = none :=
    (if_neg hdelimiter).trans (if_neg hplugin)
  rw [ofConfig, Config.check, hproblem]
  rfl

/-- A load that walks from first partial to first partial without coming back has no outcome. -/
theorem loadBelow_of_walk {walk : Nat → String} (hl : Sound files l)
    (hstart : Path.normalize name = walk 0) (hinjective : Function.Injective walk)
    (hwalk : ∀ n, ∃ s r rest, graph files l.config l.store (walk n) = .ok s ∧
      s.references = r :: rest ∧ r.key = walk (n + 1)) :
    loadBelow files [] name l = none := by
  rcases hout : loadBelow files [] name l with _ | ⟨e | m, l'⟩
  · rfl
  · obtain ⟨-, -, hmeets⟩ := loadBelow_loads files [] name l _ l' hl.coherent hout
    have hmeets := hmeets e rfl
    rw [hl.current_eq, hstart] at hmeets
    exact absurd hmeets (Graph.not_meets_of_walk hinjective hwalk)
  · obtain ⟨hsteps, htree, -⟩ := loadBelow_loads files [] name l _ l' hl.coherent hout
    have htree := (htree m rfl).mono (remembered_within_current files l')
    rw [Steps.current hsteps, hl.current_eq, hstart] at htree
    refine absurd (Graph.endless_of_walk hinjective (fun n => ?_) 0) htree.not_endless
    obtain ⟨s, r, rest, hs, hrefs, hkey⟩ := hwalk n
    rw [← hkey]
    exact Graph.edge_of_mem hs (hrefs ▸ List.mem_cons_self)

/-- With an extension that lengthens names, a load of a text whose first tag goes on at its
directory has no outcome. -/
theorem loadBelow_descending {extension : String} (hext : Lengthens extension.toList)
    (text : String) {names : List String}
    (hplain : Language.isPlain (Piece.withoutTags (Piece.ofText text)))
    (hnames : Piece.names (Piece.ofText text) = "./." :: names) :
    ∃ l, ofConfig { extension := extension } (.memory { texts := [("a", text)] }) false = .ok l ∧
      loadBelow .empty [] "a/b" l = none := by
  obtain ⟨first, mid, hsegments, hne, hidle⟩ := hext
  have hl := ofConfig_extension extension (.memory { texts := [("a", text)] })
  have hstart : Path.normalize "a/b" = descendingKey first 0 := by
    have hkey : Path.normalize "a/b" = "a/b" := by decide
    rw [hkey]
    rfl
  obtain ⟨hsound, -⟩ := sound_of_ofConfig .empty hl
  exact ⟨_, hl, loadBelow_of_walk hsound hstart (injective_descendingKey hne)
    (graph_descendingKey hsegments hidle text hplain hnames)⟩

/-- With an extension that lengthens names, a load of the text has no outcome. -/
theorem loadBelow_descendingShelf {extension : String} (hext : Lengthens extension.toList) :
    ∃ l, ofConfig { extension := extension } (.memory descendingShelf) false = .ok l ∧
      loadBelow .empty [] "a/b" l = none :=
  have hnames : Piece.names (Piece.ofText "[{{> ./.}}]") = ["./."] := by decide
  loadBelow_descending hext "[{{> ./.}}]" (by decide) hnames

/-- Whatever a loader did before, no key is on the chain of a load twice, and every key on it has a
text in the store.  If the extension does not lengthen names, finitely many keys are reached, no
chain is longer than these are many, and the load has an outcome.  If it does, some load over the
memory with one text has none. -/
theorem load_ends {config : Config} {store : TextStore} {recording : Bool}
    (h : ofConfig config store recording = .ok l) (files : FileSystem) (history : List Operation)
    (name : String) :
    let g := graph files config store
    let l' := l.performAll files history
    (∀ chain id u, Calls files name l' chain id u → chain.Nodup ∧
      ∀ k ∈ chain, g.Reaches (Path.normalize name) k ∧
        ∃ text, store.text files (store.place.address (config.fetchPath k)) = .ok text) ∧
    (¬ Lengthens config.extension.toList →
      {k | g.Reaches (Path.normalize name) k}.Finite ∧
      (∀ chain id u, Calls files name l' chain id u →
        chain.length ≤ {k | g.Reaches (Path.normalize name) k}.ncard) ∧
      ∃ out, loadBelow files [] name l' = some out ∧ (load files name).run.run l' = out) ∧
    (Lengthens config.extension.toList →
      ∃ other, ofConfig { extension := config.extension } (.memory descendingShelf) false =
        .ok other ∧ loadBelow .empty [] "a/b" other = none) := by
  intro g l'
  obtain ⟨hsound, hconfig, hstore, -⟩ := sound_of_ofConfig files h
  obtain ⟨hsound', hgraph⟩ := hsound.performAll history
  have hcurrent : l'.current files = g := by
    rw [hsound'.current_eq, hgraph, hconfig, hstore]
  have hl := hsound'.coherent
  refine ⟨fun chain id u hcall => ?_, fun hext => ?_, loadBelow_descendingShelf⟩
  · obtain ⟨-, hnodup, -, hchain⟩ := hcall.onWay hl
    rw [hcurrent] at hchain
    refine ⟨hnodup, fun k hk => ⟨(hchain k hk).1, ?_⟩⟩
    obtain ⟨s, hs⟩ := (hchain k hk).2
    obtain ⟨text, t, htext, -⟩ := graph_eq_ok hs
    exact ⟨text, htext⟩
  · have hfinite := finite_reaches_of_not_lengthens hext files store (Path.normalize name)
    refine ⟨hfinite, fun chain id u hcall => ?_, ?_⟩
    · have hlength := hcall.length_le hl
      rw [hcurrent] at hlength
      exact hlength hfinite
    · rcases hout : loadBelow files [] name l' with _ | out
      · have hendless := endless_of_none hl hout
        rw [hcurrent] at hendless
        exact absurd hendless (Graph.not_endless_of_finite hfinite)
      · exact ⟨out, rfl, by rw [run_load, hout]; rfl⟩

/-- The load of a page ends. -/
theorem load_ends_page :
    ∃ l out, ofConfig {} pageStore false = .ok l ∧ loadBelow .empty [] "page" l = some out := by
  obtain ⟨l, -, hl, -⟩ := exists_load_page false
  have hext : ¬ Lengthens ({} : Config).extension.toList := fun h =>
    absurd (Path.endsInParent_of_lengthens h) (by rw [Path.EndsInParent]; decide)
  obtain ⟨-, hends, -⟩ := load_ends hl .empty [] "page"
  obtain ⟨-, -, out, hout, -⟩ := hends hext
  exact ⟨l, out, hl, hout⟩

/-- The extension `x/..` lengthens names: a text below itself is loaded without end. -/
theorem load_without_end :
    ∃ l, ofConfig { extension := "x/.." } (.memory { texts := [("a", "[{{> ./.}}]")] }) false =
      .ok l ∧ loadBelow .empty [] "a/b" l = none :=
  loadBelow_descendingShelf ⟨['x'], [], by decide, by decide, rfl⟩

end Loader

end Stencil
