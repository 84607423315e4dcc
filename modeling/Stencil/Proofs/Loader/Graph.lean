/-
Graphs of templates.

What a loader does to a name is settled by a graph whose nodes are keys: under a key there is a
template with references to its partials, or an error.  Two relations say what a load has to give.
`Unfolds` relates a key to the tree of all that is below it, which exists exactly if nothing below
the key is missing and no way down is endless.  `Meets` relates a key to the first error on a walk
that goes down before it goes on, in the order of the references.  A key has at most one tree or
one error, and never both.
-/
import Mathlib
import Stencil.Loader
import Stencil.Proofs.Activity
import Stencil.Proofs.Dict
import Stencil.Proofs.Template

namespace Stencil

/-- The key of the template that a reference leads to. -/
def Reference.key (r : Reference) : String := Path.normalize r.canonicalId

/-- What is under each key: a template with the references to its partials, or why there is
none. -/
abbrev Graph := String → Except Error Source

namespace Graph

/-- The second key is that of a partial of the template under the first one. -/
def Edge (g : Graph) (a b : String) : Prop :=
  ∃ s, g a = .ok s ∧ ∃ r ∈ s.references, r.key = b

/-- The second key is that of the template under the first one, of one of its partials, of one
of theirs, and so on. -/
def Reaches (g : Graph) : String → String → Prop := Relation.ReflTransGen g.Edge

/-- The template under a key is among its own partials, or theirs, and so on. -/
def Cyclic (g : Graph) (key : String) : Prop := Relation.TransGen g.Edge key key

/-- Some way down from a key meets a new template at every step and has no end. -/
def Endless (g : Graph) (key : String) : Prop :=
  ∃ walk : Nat → String, walk 0 = key ∧ Function.Injective walk ∧
    ∀ n, g.Edge (walk n) (walk (n + 1))

/-- The tree of the templates below a key, each with the trees of its partials under the names
that it has for them. -/
inductive Unfolds (g : Graph) : String → Closure → Prop
  | node {key : String} {s : Source} (child : Reference → Closure) (hs : g key = .ok s)
      (hchild : ∀ r ∈ s.references, Unfolds g r.key (child r)) :
      Unfolds g key (.mk s.template (Dict.ofPairs (s.references.map fun r => (r.name, child r))))

/-- The first error on the way down from a key, which was itself met on the way down from those
in a chain. -/
inductive Meets (g : Graph) : List String → String → Error → Prop
  | cycle {chain : List String} {key : String} (hkey : key ∈ chain) :
      Meets g chain key (.circularPartial (chain ++ [key]))
  | node {chain : List String} {key : String} {e : Error} (hkey : key ∉ chain)
      (he : g key = .error e) : Meets g chain key e
  | deeper {chain : List String} {key : String} {s : Source} {before after : List Reference}
      {r : Reference} {e : Error} (hkey : key ∉ chain) (hs : g key = .ok s)
      (hrefs : s.references = before ++ r :: after)
      (hbefore : ∀ b ∈ before, ∃ c, Unfolds g b.key c)
      (hr : Meets g (chain ++ [key]) r.key e) : Meets g chain key e

variable {g : Graph} {a b key : String} {c c' : Closure} {e e' : Error} {chain : List String}

/-! ## Trees -/

theorem Unfolds.unique (h : Unfolds g key c) (h' : Unfolds g key c') : c = c' := by
  induction h generalizing c' with
  | @node key s child hs hchild ih =>
      cases h' with
      | @node _ s' child' hs' hchild' =>
          rw [hs] at hs'
          cases hs'
          congr 2
          refine List.map_congr_left fun r hr => ?_
          rw [ih r hr (hchild' r hr)]

/-- The second graph has every template of the first one. -/
def Within (g g' : Graph) : Prop := ∀ k s, g k = .ok s → g' k = .ok s

theorem Unfolds.mono {g' : Graph} (h : Unfolds g key c) (hg : g.Within g') :
    Unfolds g' key c := by
  induction h with
  | node child hs _ ih => exact .node child (hg _ _ hs) ih

theorem Unfolds.exists_source (h : Unfolds g key c) : ∃ s, g key = .ok s := by
  cases h with
  | node child hs _ => exact ⟨_, hs⟩

/-- Trees for all references of a template make a tree for the template. -/
theorem exists_unfolds {s : Source} {found : List Closure} (hs : g key = .ok s)
    (h : List.Forall₂ (fun r c => Unfolds g r.key c) s.references found) :
    Unfolds g key
      (.mk s.template (Dict.ofPairs ((s.references.map Reference.name).zip found))) := by
  have hchild : ∀ r, ∃ c, r ∈ s.references → Unfolds g r.key c := by
    intro r
    by_cases hr : r ∈ s.references
    · obtain ⟨c, -, hc⟩ := Activity.exists_of_forall₂ h hr
      exact ⟨c, fun _ => hc⟩
    · exact ⟨.mk s.template [], fun hmem => absurd hmem hr⟩
  choose child hchild using hchild
  -- A key has at most one tree, so those found are those chosen.
  have hfound : ∀ refs found, List.Forall₂ (fun r c => Unfolds g r.key c) refs found →
      (∀ r ∈ refs, Unfolds g r.key (child r)) → found = refs.map child := by
    intro refs found h hrefs
    induction h with
    | nil => rfl
    | @cons r c refs found hr _ ih =>
        rw [List.map_cons, ← ih fun r' hr' => hrefs r' (List.mem_cons_of_mem _ hr'),
          hr.unique (hrefs r List.mem_cons_self)]
  rw [hfound _ _ h hchild, List.zip_map']
  exact .node child hs hchild

/-- A key has a tree if all partials of its template have one. -/
theorem exists_unfolds_of_forall {s : Source} (hs : g key = .ok s)
    (h : ∀ r ∈ s.references, ∃ c, Unfolds g r.key c) : ∃ c, Unfolds g key c := by
  have hall : ∀ refs : List Reference, (∀ r ∈ refs, ∃ c, Unfolds g r.key c) →
      ∃ found, List.Forall₂ (fun r c => Unfolds g r.key c) refs found := by
    intro refs hrefs
    induction refs with
    | nil => exact ⟨[], .nil⟩
    | cons r refs ih =>
        obtain ⟨c, hc⟩ := hrefs r List.mem_cons_self
        obtain ⟨found, hfound⟩ := ih fun r' hr' => hrefs r' (List.mem_cons_of_mem _ hr')
        exact ⟨c :: found, .cons hc hfound⟩
  obtain ⟨found, hfound⟩ := hall s.references h
  exact ⟨_, exists_unfolds hs hfound⟩

theorem Unfolds.exists_of_edge (h : Unfolds g a c) (hab : g.Edge a b) : ∃ d, Unfolds g b d := by
  cases h with
  | node child hs hchild =>
      obtain ⟨s, hs', r, hr, rfl⟩ := hab
      rw [hs] at hs'
      cases hs'
      exact ⟨child r, hchild r hr⟩

theorem Unfolds.exists_of_reaches (h : Unfolds g a c) (hab : g.Reaches a b) :
    ∃ d, Unfolds g b d := by
  induction hab with
  | refl => exact ⟨c, h⟩
  | tail _ hedge ih =>
      obtain ⟨d, hd⟩ := ih
      exact hd.exists_of_edge hedge

/-- A tree has everything below its key, also where the graph is a part of a larger one. -/
theorem Unfolds.exists_of_reaches_within {g' : Graph} (h : Unfolds g a c) (hg : g.Within g')
    (hab : g'.Reaches a b) : ∃ d, Unfolds g b d := by
  induction hab with
  | refl => exact ⟨c, h⟩
  | tail _ hedge ih =>
      obtain ⟨d, hd⟩ := ih
      obtain ⟨s, hs⟩ := hd.exists_source
      obtain ⟨s', hs', r, hr, rfl⟩ := hedge
      rw [hg _ _ hs] at hs'
      cases hs'
      exact hd.exists_of_edge ⟨s, hs, r, hr, rfl⟩

/-- No way down from a key with a tree leads back to the key. -/
theorem Unfolds.not_cyclic (h : Unfolds g key c) : ¬ g.Cyclic key := by
  induction h with
  | @node key s child hs hchild ih =>
      intro hcycle
      -- The cycle passes through one of the references, and that key is on it too.
      obtain ⟨b, hedge, hback⟩ := Relation.TransGen.head'_iff.mp hcycle
      obtain ⟨s', hs', r, hr, rfl⟩ := id hedge
      rw [hs] at hs'
      cases hs'
      exact ih r hr (Relation.TransGen.tail' hback hedge)

/-- Every way down from a key with a tree has an end. -/
theorem Unfolds.not_endless (h : Unfolds g key c) : ¬ g.Endless key := by
  induction h with
  | @node key s child hs hchild ih =>
      rintro ⟨walk, hstart, hinjective, hedges⟩
      obtain ⟨s', hs', r, hr, hkey⟩ := hedges 0
      rw [hstart, hs] at hs'
      cases hs'
      refine ih r hr ⟨fun n => walk (n + 1), hkey.symm, fun m n h => ?_, fun n => hedges (n + 1)⟩
      exact Nat.succ_injective (hinjective h)

/-- If finitely many keys are reached, every way down has an end. -/
theorem not_endless_of_finite (h : {k | g.Reaches key k}.Finite) : ¬ g.Endless key := by
  rintro ⟨walk, hstart, hinjective, hedges⟩
  refine Set.infinite_of_injective_forall_mem hinjective (fun n => ?_) h
  induction n with
  | zero => exact hstart ▸ .refl
  | succ n ih => exact ih.tail (hedges n)

/-- Where every key on a way down leads to another one that is not yet on it, the way down has no
end. -/
theorem endless_of_progress {P : List String → String → Prop}
    (hP : ∀ chain key, P chain key →
      key ∉ chain ∧ ∃ next, g.Edge key next ∧ P (chain ++ [key]) next)
    (h : P [] key) : g.Endless key := by
  have hnext : ∀ p : {p : List String × String // P p.1 p.2},
      ∃ q : {p : List String × String // P p.1 p.2},
        q.1.1 = p.1.1 ++ [p.1.2] ∧ g.Edge p.1.2 q.1.2 := by
    rintro ⟨⟨chain, key⟩, hp⟩
    obtain ⟨-, next, hedge, hq⟩ := hP chain key hp
    exact ⟨⟨(chain ++ [key], next), hq⟩, rfl, hedge⟩
  choose next hchain hedge using hnext
  let state (n : Nat) := next^[n] ⟨([], key), h⟩
  have hsucc (n : Nat) : state (n + 1) = next (state n) := Function.iterate_succ_apply' _ _ _
  -- Each key is on the chain of every later state, and is not on its own chain.
  have hmem : ∀ m k, (state m).1.2 ∈ (state (m + k + 1)).1.1 := by
    intro m k
    rw [hsucc, hchain]
    induction k with
    | zero => exact List.mem_append_cons_self
    | succ k ih =>
        refine List.mem_append_left _ ?_
        rw [← Nat.add_assoc, hsucc, hchain]
        exact ih
  have hne : ∀ m k, (state m).1.2 ≠ (state (m + k + 1)).1.2 := by
    intro m k heq
    refine (hP _ _ (state (m + k + 1)).2).1 ?_
    rw [← heq]
    exact hmem m k
  refine ⟨fun n => (state n).1.2, rfl, fun m n heq => ?_, fun n => ?_⟩
  · rcases Nat.lt_trichotomy m n with hlt | rfl | hlt
    · obtain ⟨k, rfl⟩ := Nat.exists_eq_add_of_lt hlt
      exact absurd heq (hne m k)
    · rfl
    · obtain ⟨k, rfl⟩ := Nat.exists_eq_add_of_lt hlt
      exact absurd heq.symm (hne n k)
  · show g.Edge (state n).1.2 (state (n + 1)).1.2
    rw [hsucc]
    exact hedge _

/-! ## Errors -/

/-- Every key on the chain leads to the key it is the chain of. -/
def LeadsTo (g : Graph) (chain : List String) (key : String) : Prop :=
  ∀ k ∈ chain, Relation.TransGen g.Edge k key

theorem leadsTo_nil : g.LeadsTo [] key := fun _ h => nomatch h

theorem LeadsTo.snoc (h : g.LeadsTo chain a) (hab : g.Edge a b) : g.LeadsTo (chain ++ [a]) b := by
  intro k hk
  rcases List.mem_append.mp hk with hk | hk
  · exact (h k hk).tail hab
  · rw [List.mem_singleton.mp hk]
    exact .single hab

theorem edge_of_mem {s : Source} {r : Reference} (hs : g key = .ok s) (hr : r ∈ s.references) :
    g.Edge key r.key := ⟨s, hs, r, hr, rfl⟩

/-- An error comes from a key that is reached: nothing is under it, or it is on a cycle. -/
theorem Meets.exists_reaches (h : Meets g chain key e) (hchain : g.LeadsTo chain key) :
    ∃ k, g.Reaches key k ∧ ((∃ e, g k = .error e) ∨ g.Cyclic k) := by
  induction h with
  | @cycle chain key hkey => exact ⟨key, .refl, .inr (hchain key hkey)⟩
  | @node chain key e _ he => exact ⟨key, .refl, .inl ⟨e, he⟩⟩
  | @deeper chain key s before after r e _ hs hrefs _ _ ih =>
      have hr : r ∈ s.references := by
        rw [hrefs]
        exact List.mem_append_cons_self
      have hedge := edge_of_mem hs hr
      obtain ⟨k, hk, hbad⟩ := ih (hchain.snoc hedge)
      exact ⟨k, Relation.ReflTransGen.head hedge hk, hbad⟩

/-- An error on the way down is that of a key without a template or of one on its own chain. -/
theorem Meets.cases (h : Meets g chain key e) :
    (∃ k, g k = .error e) ∨ ∃ chain, e = .circularPartial chain := by
  induction h with
  | cycle _ => exact .inr ⟨_, rfl⟩
  | node _ he => exact .inl ⟨_, he⟩
  | deeper _ _ _ _ _ ih => exact ih

theorem Unfolds.not_meets (h : Unfolds g key c) (hchain : g.LeadsTo chain key) :
    ¬ Meets g chain key e := by
  intro hmeets
  obtain ⟨k, hk, ⟨e, he⟩ | hcycle⟩ := hmeets.exists_reaches hchain
  · obtain ⟨d, hd⟩ := h.exists_of_reaches hk
    obtain ⟨s, hs⟩ := hd.exists_source
    rw [hs] at he
    cases he
  · obtain ⟨d, hd⟩ := h.exists_of_reaches hk
    exact hd.not_cyclic hcycle

/-- Of two members at which a list is split, one stands in front of the other, or they are the
same. -/
theorem mem_or_eq_of_splits {α : Type} {before after before' after' : List α} {a a' : α}
    (h : before ++ a :: after = before' ++ a' :: after') :
    a ∈ before' ∨ a' ∈ before ∨ a = a' := by
  rcases List.append_eq_append_iff.mp h with ⟨mid, rfl, hrest⟩ | ⟨mid, rfl, hrest⟩
  · cases mid with
    | nil => exact .inr (.inr (List.cons.inj hrest).1)
    | cons m mid =>
        rw [(List.cons.inj hrest).1]
        exact .inl (List.mem_append_cons_self)
  · cases mid with
    | nil => exact .inr (.inr (List.cons.inj hrest).1.symm)
    | cons m mid =>
        rw [(List.cons.inj hrest).1]
        exact .inr (.inl (List.mem_append_cons_self))

theorem Meets.unique (h : Meets g chain key e) (h' : Meets g chain key e')
    (hchain : g.LeadsTo chain key) : e = e' := by
  induction h generalizing e' with
  | @cycle chain key hkey =>
      cases h' with
      | cycle _ => rfl
      | node hkey' _ => exact absurd hkey hkey'
      | deeper hkey' _ _ _ _ => exact absurd hkey hkey'
  | @node chain key e hkey he =>
      cases h' with
      | cycle hkey' => exact absurd hkey' hkey
      | node _ he' =>
          rw [he] at he'
          cases he'
          rfl
      | deeper _ hs' _ _ _ =>
          rw [he] at hs'
          cases hs'
  | @deeper chain key s before after r e hkey hs hrefs hbefore hr ih =>
      cases h' with
      | cycle hkey' => exact absurd hkey' hkey
      | node _ he' =>
          rw [hs] at he'
          cases he'
      | @deeper _ _ s' before' after' r' _ _ hs' hrefs' hbefore' hr' =>
          rw [hs] at hs'
          cases hs'
          have hedge : ∀ r ∈ s.references, g.LeadsTo (chain ++ [key]) r.key :=
            fun r hr => hchain.snoc (edge_of_mem hs hr)
          have hr₁ : r ∈ s.references := by
            rw [hrefs]
            exact List.mem_append_cons_self
          have hr₂ : r' ∈ s.references := by
            rw [hrefs']
            exact List.mem_append_cons_self
          -- The references in front of an error have trees, so neither error can stand in front
          -- of the other.
          rcases mem_or_eq_of_splits (hrefs.symm.trans hrefs') with hmem | hmem | rfl
          · obtain ⟨d, hd⟩ := hbefore' r hmem
            exact absurd hr (hd.not_meets (hedge r hr₁))
          · obtain ⟨d, hd⟩ := hbefore r' hmem
            exact absurd hr' (hd.not_meets (hedge r' hr₂))
          · exact ih hr' (hedge r hr₁)

end Graph

/-! ## The graph of a store

A store has a graph because a fetch changes neither its texts nor its place. -/

namespace TextStore

/-- The text at an address. -/
def text (files : FileSystem) (store : TextStore) (address : String) : Except Error String :=
  (store.fetch files address).1

/-- A fetch leaves the place of a store as it is. -/
theorem place_fetch (files : FileSystem) (store : TextStore) (address : String) :
    (store.fetch files address).2.place = store.place := by
  cases store with
  | memory shelf => rfl
  | directory root =>
      simp only [fetch]
      split <;> rfl
  | web base => rfl

/-- A fetch leaves the texts of a store as they are. -/
theorem text_fetch (files : FileSystem) (store : TextStore) (address other : String) :
    (store.fetch files address).2.text files other = store.text files other := by
  cases store with
  | memory shelf => rfl
  | directory root =>
      simp only [fetch]
      split <;> rfl
  | web base => rfl

/-- A memory has the texts of its shelf. -/
theorem text_memory_eq_ok {files : FileSystem} {shelf : Shelf} {address text : String} :
    (memory shelf).text files address = .ok text ↔ shelf.texts.get? address = some text := by
  rw [TextStore.text, fetch]
  cases shelf.texts.get? address with
  | none =>
      constructor
      · intro h
        cases h
      · intro h
        cases h
  | some found => rw [Except.ok.injEq, Option.some.injEq]

/-- What a store has no text for cannot be fetched. -/
theorem text_eq_error {files : FileSystem} {store : TextStore} {address : String} {e : Error}
    (h : store.text files address = .error e) : ∃ reason, e = .fetch address reason := by
  cases store with
  | memory shelf =>
      rw [text, fetch] at h
      cases hget : shelf.texts.get? address with
      | some found =>
          rw [hget] at h
          cases h
      | none =>
          rw [hget] at h
          cases h
          exact ⟨_, rfl⟩
  | directory root =>
      rw [text, fetch] at h
      split at h
      · cases h
      · cases h
        exact ⟨_, rfl⟩
  | web base =>
      cases h
      exact ⟨_, rfl⟩

end TextStore

namespace Loader

/-- What a compiled template is remembered as. -/
def sourceOf (c : Config) (key : String) (t : Template) : Source :=
  ⟨t, resolvePartials (ResolutionContext.ofTemplate c key) t.tags⟩

/-- The graph of the templates whose texts are in a store. -/
def graph (files : FileSystem) (c : Config) (store : TextStore) : Graph := fun key =>
  match store.text files (store.place.address (c.fetchPath key)) with
  | .error e => .error e
  | .ok text =>
    match Template.compile key text c.options with
    | .error e => .error e
    | .ok t => .ok (sourceOf c key t)

theorem graph_of_compile {files : FileSystem} {c : Config} {store : TextStore} {key text : String}
    {t : Template} (htext : store.text files (store.place.address (c.fetchPath key)) = .ok text)
    (ht : Template.compile key text c.options = .ok t) :
    graph files c store key = .ok (sourceOf c key t) := by
  simp only [graph, htext, ht]

/-- A plain text is a template, which has the references that its tags resolve to. -/
theorem graph_of_isPlain {files : FileSystem} {c : Config} {store : TextStore} {key : String}
    {refs : List Reference} (text : String)
    (htext : store.text files (store.place.address (c.fetchPath key)) = .ok text)
    (h : Language.isPlain (Piece.withoutTags (Piece.ofText text)))
    (hrefs : resolvePartials (.ofTemplate c key) (Piece.names (Piece.ofText text)) = refs) :
    graph files c store key = .ok ⟨⟨key, text, Piece.normalText (Piece.ofText text),
      Piece.names (Piece.ofText text), c.options⟩, refs⟩ := by
  rw [graph_of_compile htext (Template.compile_of_isPlain h key c.options), sourceOf, hrefs]

/-- A template of the graph is compiled from the text at its address. -/
theorem graph_eq_ok {files : FileSystem} {c : Config} {store : TextStore} {key : String}
    {s : Source} (h : graph files c store key = .ok s) :
    ∃ text t, store.text files (store.place.address (c.fetchPath key)) = .ok text ∧
      Template.compile key text c.options = .ok t ∧ s = sourceOf c key t := by
  rw [graph] at h
  split at h
  · cases h
  next text htext =>
    split at h
    · cases h
    next t ht =>
      cases h
      exact ⟨text, t, htext, ht, rfl⟩

/-- What keeps a key without a template is a matter of that template alone. -/
theorem graph_eq_error {files : FileSystem} {c : Config} {store : TextStore} {key : String}
    {e : Error} (h : graph files c store key = .error e) :
    (∃ address reason, e = .fetch address reason) ∨
      ∃ fault, e = Engine.compileError key fault := by
  rw [graph] at h
  split at h
  next e' he =>
    cases h
    obtain ⟨reason, rfl⟩ := TextStore.text_eq_error he
    exact .inl ⟨_, reason, rfl⟩
  next text _ =>
    split at h
    next e' he =>
      cases h
      exact .inr (Template.compile_eq_error he)
    next t _ => cases h

end Loader

end Stencil
