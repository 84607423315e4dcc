/-
Bodies with inclusions.

A body is read part by part.  Where it is read without the inclusions, every part has one part or
several in the reading with them: a complete part is read as it was, a text falls apart at the
inclusions in it, and a section is read again from the tag that opens it to the one that closes it.
A body ends at the same place in both readings, for it ends at a tag that no part starts with.
-/
import Mathlib
import Stencil.Proofs.Language.Parts

namespace Stencil.Language

open Stencil.Grammar (Reads Found)

section Weaving

variable {written : String → List Char} {ps qs rs : List Piece} {cs ds es : List Char}
  {ts us : List (Tree Rule)} {part r s o : Rule}

/-- A place behind some pieces, and what stands there without the tags. -/
structure Rest (ps : List Piece) (ds : List Char) (qs : List Piece) : Prop where
  inText : InText qs
  suffix : qs <:+ ps
  bare_eq : bare qs = ds

theorem Rest.trans (h : Rest ps ds qs) (h' : Rest qs es rs) : Rest ps es rs :=
  ⟨h'.inText, h'.suffix.trans h.suffix, h'.bare_eq⟩

/-- A complete part that is read without the inclusions is read with them. -/
theorem leaf_some (hfills : Fills written) (hin : InText ps) (hhead : Headless ps) (hr : isLeaf r)
    (h : Reads grammar .tight (.once (.rule r)) (bare ps) (some (ds, ts))) :
    ∃ qs us, Rest ps ds qs ∧ qs.length < ps.length ∧
      Reads grammar .tight (.once (.rule r)) (Piece.write written ps)
        (some (Piece.write written qs, us)) ∧ Enlarged ts us := by
  rcases leaf_reads hfills hin hhead hr h with
    ⟨heq, -⟩ | ⟨qs, ts', us, hqs, hsuffix, hlt, heq, hfull, hus⟩
  · cases heq
  · rw [Option.some.injEq, Prod.mk.injEq] at heq
    obtain ⟨rfl, rfl⟩ := heq
    exact ⟨qs, us, ⟨hqs, hsuffix, rfl⟩, hlt, hfull, hus⟩

theorem leaf_none (hfills : Fills written) (hin : InText ps) (hhead : Headless ps) (hr : isLeaf r)
    (h : Reads grammar .tight (.once (.rule r)) (bare ps) none) :
    Reads grammar .tight (.once (.rule r)) (Piece.write written ps) none := by
  rcases leaf_reads hfills hin hhead hr h with ⟨-, hfull⟩ | ⟨_, _, _, -, -, -, heq, -⟩
  · exact hfull
  · cases heq

/-- What stands in front of everything is a delimiter in both texts, or in neither. -/
theorem opens_write (hfills : Fills written) (hin : InText ps) (hhead : Headless ps)
    (h : bare ps = [] ∨ Opens (bare ps)) :
    Piece.write written ps = [] ∨ Opens (Piece.write written ps) := by
  cases hin with
  | nil => exact .inl rfl
  | char hc hps =>
      rcases h with h | h
      · cases h
      · exact absurd h (not_opens_of_char hc)
  | tag => exact absurd rfl (hhead _ _)
  | complete hw hps =>
      rw [write_append]
      exact .inr (opens_of_complete hw hfills _)

/-! ## The tags that parts start with -/

/-- The tag that a part starts with. -/
def tagOf? (r : Rule) : Option Rule :=
  match r with
  | .text => none
  | .raw => some .rawTag
  | _ => (sectionOf? r).elim (some r) fun s => some s.1

/-- The tags that the parts of a body start with. -/
def startTags (part : Rule) : List Rule := (alternatives part).filterMap tagOf?

theorem nodup_startTags (hp : part ∈ contents) : (startTags part).Nodup := by
  fin_cases hp <;> decide

theorem tagOf?_of_section (h : sectionOf? s = some (o, part)) : tagOf? s = some o := by
  cases s with
  | block | contentIf | blockIf | macroIf | forIf | filterSectionIf | forloop | filterSection
  | macroDefinition =>
      cases h
      rfl
  | _ => cases h

theorem isMark_of_section (h : sectionOf? s = some (o, part)) :
    isMark o ∧ kindOf? o = some '%' ∧ ∃ w, wordOf? o = some w := by
  cases s with
  | block | contentIf | blockIf | macroIf | forIf | filterSectionIf | forloop | filterSection
  | macroDefinition =>
      cases h
      exact ⟨rfl, rfl, _, rfl⟩
  | _ => cases h

theorem reads_opener (h : sectionOf? s = some (o, part))
    (hs : Reads grammar .tight (.once (.rule s)) cs (some (ds, ts))) :
    ∃ x, Reads grammar .tight (.once (.rule o)) cs (some x) := by
  obtain ⟨hmode, -, e, -, hbody⟩ := body_of_sectionOf? h
  obtain ⟨us, hs, -⟩ := Grammar.reads_rule_some.mp hs
  change Reads grammar (Grammar.Tightness.tight.inside (mode s)) (.once (body s)) cs _ at hs
  rw [hmode, hbody] at hs
  obtain ⟨_, _, _, ho, -⟩ := Grammar.reads_seq_some.mp hs
  exact ⟨_, ho⟩

/-- A part that is read starts with its tag. -/
theorem reads_tagOf? {q : Rule} (hp : part ∈ contents) (hq : q ∈ alternatives part)
    (hne : q ≠ .text) (h : Reads grammar .tight (.once (.rule q)) cs (some (ds, ts))) :
    ∃ r d x, tagOf? q = some r ∧ kindOf? r = some d ∧
      Reads grammar .tight (.once (.rule r)) cs (some x) := by
  rcases cases_of_mem_alternatives hp hq with heq | hleaf | hsection
  · exact absurd heq hne
  · rcases isLeaf_iff.mp hleaf with rfl | ⟨⟨d, hd⟩, -⟩
    · obtain ⟨x, hx⟩ := reads_rawTag_of_raw h
      exact ⟨.rawTag, _, x, rfl, rfl, hx⟩
    · refine ⟨q, d, _, ?_, hd, h⟩
      revert hd
      cases q <;> first | exact fun _ => rfl | exact nofun
  · obtain ⟨⟨o, below⟩, hsection⟩ := Option.isSome_iff_exists.mp hsection
    obtain ⟨x, hx⟩ := reads_opener hsection h
    exact ⟨o, _, x, tagOf?_of_section hsection, (isMark_of_section hsection).2.1, hx⟩

/-- No section starts where another tag than its own is read. -/
theorem reads_opener_none {d : Char} {x : List Char × List (Tree Rule)}
    (h : sectionOf? s = some (o, part)) (hd : kindOf? r = some d) (hne : o ≠ r)
    (hr : Reads grammar .tight (.once (.rule r)) cs (some x)) :
    Reads grammar .tight (.once (.rule o)) cs none := by
  obtain ⟨hmark, hkind, w, hw⟩ := isMark_of_section h
  obtain ⟨out, hout⟩ := Grammar.exists_reads rankedBy_ranking .tight (covers_of_kindOf? hkind) cs
  cases out with
  | none => exact hout
  | some found =>
      exfalso
      obtain ⟨fs, hfs⟩ := kind_of_reads hkind hout
      obtain ⟨gs, hgs⟩ := kind_of_reads hd hr
      rw [hfs] at hgs
      cases hgs
      rcases kindOf?_cases hd with ⟨hchar, -⟩ | ⟨-, -, w', hw'⟩ | ⟨hchar, -⟩
      · cases hchar
      · exact hne (eq_of_reads hw hw' hmark hout hr)
      · cases hchar

/-- Alternatives without their inclusions that fail, fail with them: a section as soon as its tag
does. -/
theorem alternative_none {q : Rule} (hfills : Fills written) (hin : InText ps)
    (hhead : Headless ps) (hp : part ∈ contents) (hq : q ∈ alternatives part) (hne : q ≠ .text)
    (hleaf : isLeaf q → Reads grammar .tight (.once (.rule q)) (bare ps) none)
    (hsection : ∀ o below, sectionOf? q = some (o, below) →
      Reads grammar .tight (.once (.rule o)) (bare ps) none) :
    Reads grammar .tight (.once (.rule q)) (Piece.write written ps) none := by
  rcases cases_of_mem_alternatives hp hq with heq | hq | hq
  · exact absurd heq hne
  · exact leaf_none hfills hin hhead hq (hleaf hq)
  · obtain ⟨⟨o, below⟩, hq⟩ := Option.isSome_iff_exists.mp hq
    exact reads_section_none hq
      (leaf_none hfills hin hhead (isLeaf_of_sectionOf? hq) (hsection o below hq))

/-! ## The end of a body -/

/-- Whether a body must end: at the end of the text, or at a tag that no part of it starts with. -/
def Stops (part : Rule) (cs : List Char) : Prop :=
  cs = [] ∨ ∃ r d x, kindOf? r = some d ∧ r ∉ startTags part ∧
    Reads grammar .tight (.once (.rule r)) cs (some x)

theorem isLeaf_of_isCloser (hr : isCloser r) : isLeaf r := by
  revert hr
  cases r <;> decide

/-- No part of a body starts with a tag that ends one. -/
theorem not_isCloser_of_mem_startTags (hp : part ∈ contents) (hr : r ∈ startTags part) :
    ¬ isCloser r := by
  have hnone : ∀ part ∈ contents, ∀ r ∈ startTags part, ¬ isCloser r := by decide
  exact hnone part hp r hr

theorem stops_of_isCloser {x : List Char × List (Tree Rule)} (hp : part ∈ contents)
    (hr : isCloser r) (h : Reads grammar .tight (.once (.rule r)) cs (some x)) : Stops part cs := by
  have hkind : kindOf? r = some '%' := by
    revert hr
    cases r <;> decide
  exact .inr ⟨r, '%', x, hkind, fun hmem => not_isCloser_of_mem_startTags hp hmem hr, h⟩

/-- A body ends with the inclusions where it ends without them. -/
theorem part_none (hfills : Fills written) (hin : InText ps) (hhead : Headless ps)
    (hp : part ∈ contents) (hstops : Stops part (bare ps))
    (h : Reads grammar .tight (.once (.rule part)) (bare ps) none) :
    Reads grammar .tight (.once (.rule part)) (Piece.write written ps) none := by
  have hopens : bare ps = [] ∨ Opens (bare ps) :=
    hstops.imp_right fun ⟨_, _, _, hkind, _, hr⟩ => opens_of_reads hkind hr
  refine (reads_part_none hp).mpr fun q hq => ?_
  by_cases hne : q = .text
  · subst hne
    exact reads_text_none (opens_write hfills hin hhead hopens)
  · refine alternative_none hfills hin hhead hp hq hne (fun _ => (reads_part_none hp).mp h q hq)
      fun o below hsection => ?_
    rcases hstops with hnil | ⟨r, d, x, hkind, hnot, hr⟩
    · exact reads_leaf_none (isLeaf_of_sectionOf? hsection) (by rw [hnil]; exact nofun)
    · refine reads_opener_none hsection hkind ?_ hr
      rintro rfl
      exact hnot (List.mem_filterMap.mpr ⟨q, hq, tagOf?_of_section hsection⟩)

/-! ## Sections -/

/-- Whether what is read as a part of a body without the inclusions is read as a row of parts with
them. -/
def Follows (written : String → List Char) (ps : List Piece) : Prop :=
  ∀ part ∈ contents, ∀ ds ts, Reads grammar .tight (.once (.rule part)) (bare ps) (some (ds, ts)) →
    ∃ qs us, Rest ps ds qs ∧ qs.length < ps.length ∧
      Repeats (.rule part) (Piece.write written ps) (Piece.write written qs) us ∧ Enlarged ts us

variable (hwritten : ∀ name, IsInclusion (written name)) (hfills : Fills written)
  {n : Nat} (hfollows : ∀ ps : List Piece, ps.length < n → InText ps → Follows written ps)

include hwritten hfollows in
theorem parts_step (hp : part ∈ contents) (hn : ps.length < n) (hin : InText ps)
    (h : Repeats (.rule part) (bare ps) ds ts)
    (hnone : Reads grammar .tight (.once (.rule part)) ds none) (hstops : Stops part ds) :
    ∃ qs us, Rest ps ds qs ∧ Headless qs ∧
      Repeats (.rule part) (Piece.write written ps) (Piece.write written qs) us ∧
      Reads grammar .tight (.once (.rule part)) (Piece.write written qs) none ∧ Enlarged ts us := by
  generalize hcs : bare ps = cs at h
  induction h generalizing ps with
  | nil =>
      obtain ⟨qs, hqs, hsuffix, hhead, hbare, hfull⟩ := exists_headless hwritten hin
      obtain ⟨us, hus, hrepeats⟩ := hfull part hp
      subst hcs
      rw [← hbare] at hnone hstops
      exact ⟨qs, us, ⟨hqs, hsuffix, hbare⟩, hhead, hrepeats,
        part_none (fills_of_isInclusion hwritten) hqs hhead hp hstops hnone,
        .of_additions hus⟩
  | cons ha _ ih =>
      subst hcs
      obtain ⟨rs, vs, hrest, hlt, hfirst, hvs⟩ := hfollows ps hn hin part hp _ _ ha
      obtain ⟨qs, us, hrest', hhead, hrepeats, hend, hus⟩ :=
        ih (hlt.trans hn) hrest.inText hnone hstops hrest.bare_eq
      exact ⟨qs, us ++ vs, hrest.trans hrest', hhead, hfirst.append hrepeats, hend, hus.append hvs⟩

/-- A tag and the body behind it. -/
def branch (r part : Rule) : Expression := .seq (.rule r) (.many (.rule part))

include hwritten hfollows in
theorem branch_step (hp : part ∈ contents) (hn : ps.length ≤ n) (hin : InText ps)
    (hhead : Headless ps) (hr : isLeaf r)
    (h : Reads grammar .tight (.once (branch r part)) (bare ps) (some (ds, ts)))
    (hstops : Stops part ds) :
    ∃ qs us, Rest ps ds qs ∧ qs.length < ps.length ∧ Headless qs ∧
      Reads grammar .tight (.once (branch r part)) (Piece.write written ps)
        (some (Piece.write written qs, us)) ∧ Enlarged ts us := by
  obtain ⟨es, vs, ws, htag, hmany, rfl⟩ := Grammar.reads_seq_some.mp h
  obtain ⟨rs, vs', hrest, hlt, htag, hvs⟩ :=
    leaf_some (fills_of_isInclusion hwritten) hin hhead hr htag
  obtain ⟨hrepeats, hnone⟩ := reads_many_iff_repeats.mp hmany
  rw [Grammar.skipped_tight, ← hrest.bare_eq] at hrepeats
  obtain ⟨qs, us, hrest', hhead', hrepeats, hend, hus⟩ :=
    parts_step hwritten hfollows hp (hlt.trans_le hn) hrest.inText hrepeats hnone hstops
  exact ⟨qs, us ++ vs', hrest.trans hrest', hrest'.suffix.length_le.trans_lt hlt, hhead',
    .seq htag (reads_many_iff_repeats.mpr ⟨hrepeats, hend⟩), hus.append hvs⟩

include hfills in
theorem branch_none (hin : InText ps) (hhead : Headless ps) (hr : isLeaf r)
    (h : Reads grammar .tight (.once (branch r part)) (bare ps) none) :
    Reads grammar .tight (.once (branch r part)) (Piece.write written ps) none := by
  have htag := (Grammar.reads_seq_none_iff_first fun _ => Grammar.not_reads_many_none).mp h
  exact .seq_first (leaf_none hfills hin hhead hr htag)

theorem stops_of_branch {x : List Char × List (Tree Rule)} (hp : part ∈ contents) (hr : isCloser r)
    (h : Reads grammar .tight (.once (branch r part)) cs (some x)) : Stops part cs := by
  obtain ⟨ds, ts⟩ := x
  obtain ⟨_, _, _, htag, -⟩ := Grammar.reads_seq_some.mp h
  exact stops_of_isCloser hp hr htag

theorem stops_of_branches (hp : part ∈ contents) (hr : isCloser r)
    (h : Repeats (branch r part) cs ds ts) (hstops : Stops part ds) : Stops part cs := by
  cases h with
  | nil => exact hstops
  | cons ha _ => exact stops_of_branch hp hr ha

theorem stops_of_tail {e : Expression} {x : List Char × List (Tree Rule)} (hp : part ∈ contents)
    (he : Tail part e) (h : Reads grammar .tight (.once e) cs (some x)) : Stops part cs := by
  obtain ⟨ds, ts⟩ := x
  induction he generalizing cs ts with
  | close hr => exact stops_of_isCloser hp hr h
  | many hr _ ih =>
      obtain ⟨_, _, _, hmany, he, -⟩ := Grammar.reads_seq_some.mp h
      exact stops_of_branches hp hr (reads_many_iff_repeats.mp hmany).1 (ih _ he)
  | optional hr _ ih =>
      obtain ⟨_, _, _, hoptional, he, -⟩ := Grammar.reads_seq_some.mp h
      rcases Grammar.reads_optional.mp hoptional with ⟨-, heq⟩ | ⟨_, hbranch, -⟩
      · cases heq
        exact ih _ he
      · exact stops_of_branch hp hr hbranch

include hwritten hfollows in
theorem branches_step (hp : part ∈ contents) (hn : ps.length ≤ n) (hin : InText ps)
    (hhead : Headless ps) (hr : isCloser r) (h : Repeats (branch r part) (bare ps) ds ts)
    (hstops : Stops part ds) :
    ∃ qs us, Rest ps ds qs ∧ Headless qs ∧
      Repeats (branch r part) (Piece.write written ps) (Piece.write written qs) us ∧
      Enlarged ts us := by
  generalize hcs : bare ps = cs at h
  induction h generalizing ps with
  | nil => exact ⟨ps, [], ⟨hin, List.suffix_refl _, hcs⟩, hhead, .nil, .refl _⟩
  | cons ha hs ih =>
      subst hcs
      obtain ⟨rs, vs, hrest, hlt, hhead', hfirst, hvs⟩ := branch_step hwritten hfollows hp hn hin
        hhead (isLeaf_of_isCloser hr) ha (stops_of_branches hp hr hs hstops)
      obtain ⟨qs, us, hrest', hhead'', hrepeats, hus⟩ :=
        ih (hlt.le.trans hn) hrest.inText hhead' hstops hrest.bare_eq
      exact ⟨qs, us ++ vs, hrest.trans hrest', hhead'', .cons hfirst hrepeats, hus.append hvs⟩

include hwritten hfollows in
theorem tail_step {e : Expression} (hp : part ∈ contents) (he : Tail part e) (hn : ps.length ≤ n)
    (hin : InText ps) (hhead : Headless ps)
    (h : Reads grammar .tight (.once e) (bare ps) (some (ds, ts))) :
    ∃ qs us, Rest ps ds qs ∧
      Reads grammar .tight (.once e) (Piece.write written ps)
        (some (Piece.write written qs, us)) ∧ Enlarged ts us := by
  induction he generalizing ps ds ts with
  | close hr =>
      obtain ⟨qs, us, hrest, -, hread, hus⟩ :=
        leaf_some (fills_of_isInclusion hwritten) hin hhead (isLeaf_of_isCloser hr) h
      exact ⟨qs, us, hrest, hread, hus⟩
  | many hr he ih =>
      obtain ⟨es, vs, ws, hmany, he', rfl⟩ := Grammar.reads_seq_some.mp h
      obtain ⟨hrepeats, hnone⟩ := reads_many_iff_repeats.mp hmany
      obtain ⟨rs, vs', hrest, hhead', hrepeats, hvs⟩ := branches_step hwritten hfollows hp hn hin
        hhead hr hrepeats (stops_of_tail hp he he')
      rw [← hrest.bare_eq] at hnone
      rw [Grammar.skipped_tight, ← hrest.bare_eq] at he'
      have hend := branch_none (fills_of_isInclusion hwritten) hrest.inText hhead'
        (isLeaf_of_isCloser hr) hnone
      obtain ⟨qs, us, hrest', hlast, hus⟩ :=
        ih (hrest.suffix.length_le.trans hn) hrest.inText hhead' he'
      exact ⟨qs, us ++ vs', hrest.trans hrest',
        .seq (reads_many_iff_repeats.mpr ⟨hrepeats, hend⟩) hlast, hus.append hvs⟩
  | optional hr he ih =>
      obtain ⟨es, vs, ws, hoptional, he', rfl⟩ := Grammar.reads_seq_some.mp h
      rw [Grammar.skipped_tight] at he'
      rcases Grammar.reads_optional.mp hoptional with ⟨hnone, heq⟩ | ⟨_, hbranch, heq⟩
      · cases heq
        obtain ⟨qs, us, hrest, hlast, hus⟩ := ih hn hin hhead he'
        have hend := branch_none (fills_of_isInclusion hwritten) hin hhead (isLeaf_of_isCloser hr) hnone
        exact ⟨qs, us ++ [], hrest, .seq (.optional_none hend) hlast, hus.append (.refl [])⟩
      · cases heq
        obtain ⟨rs, vs', hrest, hlt, hhead', hfirst, hvs⟩ := branch_step hwritten hfollows hp hn hin
          hhead (isLeaf_of_isCloser hr) hbranch (stops_of_tail hp he he')
        rw [← hrest.bare_eq] at he'
        obtain ⟨qs, us, hrest', hlast, hus⟩ := ih (hlt.le.trans hn) hrest.inText hhead' he'
        exact ⟨qs, us ++ vs', hrest.trans hrest', .seq (.optional hfirst) hlast, hus.append hvs⟩

theorem mem_sections (h : sectionOf? s = some (o, part)) : s ∈ sections := by
  cases s with
  | block | contentIf | blockIf | macroIf | forIf | filterSectionIf | forloop | filterSection
  | macroDefinition => decide
  | _ => cases h

include hwritten hfollows in
/-- A section that is read without the inclusions is read with them. -/
theorem section_step (hs : sectionOf? s = some (o, part)) (hn : ps.length ≤ n) (hin : InText ps)
    (hhead : Headless ps)
    (h : Reads grammar .tight (.once (.rule s)) (bare ps) (some (ds, ts))) :
    ∃ qs us, Rest ps ds qs ∧ qs.length < ps.length ∧
      Reads grammar .tight (.once (.rule s)) (Piece.write written ps)
        (some (Piece.write written qs, us)) ∧ Enlarged ts us := by
  obtain ⟨hmode, hp, e, he, hbody⟩ := body_of_sectionOf? hs
  have hfirm : isFirm s := by rw [isFirm, hmode]; rfl
  obtain ⟨vs, hread, rfl⟩ := exists_node_of_firm hfirm h
  rw [hmode, hbody] at hread
  change Reads grammar .tight _ _ _ at hread
  obtain ⟨cs₁, ts₁, ws, hopener, hbelow, rfl⟩ := Grammar.reads_seq_some.mp hread
  obtain ⟨cs₂, ts₂, ts₃, hmany, htail, rfl⟩ := Grammar.reads_seq_some.mp hbelow
  obtain ⟨hrepeats, hnone⟩ := reads_many_iff_repeats.mp hmany
  obtain ⟨rs₁, us₁, hrest₁, hlt, hopener, hus₁⟩ :=
    leaf_some (fills_of_isInclusion hwritten) hin hhead (isLeaf_of_sectionOf? hs) hopener
  rw [Grammar.skipped_tight, ← hrest₁.bare_eq] at hrepeats
  rw [Grammar.skipped_tight] at htail
  obtain ⟨rs₂, us₂, hrest₂, hhead₂, hrepeats, hend, hus₂⟩ :=
    parts_step hwritten hfollows hp (hlt.trans_le hn) hrest₁.inText hrepeats hnone
      (stops_of_tail hp he htail)
  rw [← hrest₂.bare_eq] at htail
  obtain ⟨qs, us₃, hrest₃, htail, hus₃⟩ := tail_step hwritten hfollows hp he
    ((hrest₂.suffix.length_le.trans hlt.le).trans hn) hrest₂.inText hhead₂ htail
  have hfull : Reads grammar (Grammar.Tightness.tight.inside (mode s)) (.once (body s))
      (Piece.write written ps) (some (Piece.write written qs, us₃ ++ us₂ ++ us₁)) := by
    rw [hmode, hbody]
    exact .seq hopener (.seq (reads_many_iff_repeats.mpr ⟨hrepeats, hend⟩) htail)
  have hshown : ∀ x us, Grammar.shown grammar .tight s x us = [.node s x us.reverse] := by
    intro x us
    rw [Grammar.shown, show grammar.mode s = _ from hmode]
    rfl
  have hread := Reads.rule hfull
  rw [hshown] at hread
  refine ⟨qs, _, (hrest₁.trans hrest₂).trans hrest₃,
    (hrest₃.suffix.trans hrest₂.suffix).length_le.trans_lt hlt, hread, ?_⟩
  exact .node (.inr (mem_sections hs)) _ _ ((hus₃.append hus₂).append hus₁)

/-! ## Parts -/

include hwritten in
/-- A text is read as a row of texts and inclusions. -/
theorem text_step {c : Char} (hp : part ∈ contents) (hc : c = '\x7b' → StartsPlain ps)
    (hin : InText ps)
    (h : Reads grammar .tight (.once (.rule part)) (bare (.char c :: ps)) (some (ds, ts))) :
    ∃ qs us, Rest ps ds qs ∧
      Repeats (.rule part) (Piece.write written (.char c :: ps)) (Piece.write written qs) us ∧
      Enlarged ts us := by
  obtain ⟨rs, hrs, hsuffix, hfirst, htransfer⟩ := exists_reads_again_text hwritten hin
  obtain ⟨qs, hqs, hsuffix', -, hbare, hfull⟩ := exists_texts hwritten hrs
  obtain ⟨vs, hvs, hrepeats⟩ := hfull part hp
  obtain ⟨x, y, hread⟩ := reads_text_part hp (not_opens_of_char hc) (htransfer hbare)
  obtain ⟨x', y', hread'⟩ := reads_text_part hp (not_opens_of_char hc) hfirst
  rw [bare, write_char] at h
  cases h.det hread
  rw [write_char]
  have haddition : ∀ x y, IsAddition (.node part x [.node .text y []]) :=
    fun x y => .inr (.inr ⟨part, x, .text, y, [], hp, by simp, rfl⟩)
  refine ⟨qs, vs ++ [.node part x' [.node .text y' []]], ⟨hqs, hsuffix'.trans hsuffix, rfl⟩,
    .cons hread' hrepeats, .of_additions ?_ ?_, ?_⟩
  · simpa using haddition x y
  · intro u hu
    rcases List.mem_append.mp hu with hu | hu
    · exact hvs u hu
    · exact List.mem_singleton.mp hu ▸ haddition x' y'
  · rw [depths_append]
    exact Nat.le_max_right _ _

include hwritten hfollows in
/-- A complete part or a section is read as one part again. -/
theorem complete_step (hp : part ∈ contents) (hn : ps.length ≤ n) (hin : InText ps)
    (hhead : Headless ps) (hopens : Opens (bare ps))
    (h : Reads grammar .tight (.once (.rule part)) (bare ps) (some (ds, ts))) :
    ∃ qs us, Rest ps ds qs ∧ qs.length < ps.length ∧
      Reads grammar .tight (.once (.rule part)) (Piece.write written ps)
        (some (Piece.write written qs, us)) ∧ Enlarged ts us := by
  obtain ⟨before, r, after, vs, heq, hbefore, hr, rfl⟩ := (reads_part_some hp).mp h
  have hmem : r ∈ alternatives part := heq ▸ List.mem_append_right _ List.mem_cons_self
  have hne : r ≠ .text := by
    rintro rfl
    cases hr.det (reads_text_none (.inr hopens))
  obtain ⟨r', d, x, htag, hkind, hr'⟩ := reads_tagOf? hp hmem hne hr
  have hfills := fills_of_isInclusion hwritten
  have hnodup := nodup_startTags hp
  rw [startTags, heq, List.filterMap_append, List.filterMap_cons_some htag] at hnodup
  have hearlier : ∀ q ∈ before,
      Reads grammar .tight (.once (.rule q)) (Piece.write written ps) none := by
    intro q hq
    by_cases htext : q = .text
    · subst htext
      exact reads_text_none (opens_write hfills hin hhead (.inr hopens))
    · refine alternative_none hfills hin hhead hp (heq ▸ List.mem_append_left _ hq) htext
        (fun _ => hbefore q hq) fun o below hsection => reads_opener_none hsection hkind ?_ hr'
      rintro rfl
      exact (List.nodup_append.mp hnodup).2.2 o
        (List.mem_filterMap.mpr ⟨q, hq, tagOf?_of_section hsection⟩) o List.mem_cons_self rfl
  have hstep : ∃ qs us, Rest ps ds qs ∧ qs.length < ps.length ∧
      Reads grammar .tight (.once (.rule r)) (Piece.write written ps)
        (some (Piece.write written qs, us)) ∧ Enlarged vs us := by
    rcases cases_of_mem_alternatives hp hmem with htext | hleaf | hsection
    · exact absurd htext hne
    · exact leaf_some hfills hin hhead hleaf hr
    · obtain ⟨⟨o, below⟩, hsection⟩ := Option.isSome_iff_exists.mp hsection
      exact section_step hwritten hfollows hsection hn hin hhead hr
  obtain ⟨qs, us, hrest, hlt, hread, hus⟩ := hstep
  exact ⟨qs, _, hrest, hlt,
    (reads_part_some hp).mpr ⟨before, r, after, us, heq, hearlier, hread, rfl⟩,
    .node (.inl hp) _ _ hus⟩

include hwritten in
/-- What is a part without the inclusions is a row of parts with them. -/
theorem follows_of_inText (hin : InText ps) : Follows written ps := by
  induction hn : ps.length using Nat.strong_induction_on generalizing ps with
  | _ n ih =>
      subst hn
      have hfollows : ∀ qs : List Piece, qs.length < ps.length → InText qs → Follows written qs :=
        fun qs hlt hqs => ih _ hlt hqs rfl
      intro part hp ds ts h
      cases hin with
      | nil =>
          have hnone : Reads grammar .tight (.once (.rule part)) [] none := by
            refine (reads_part_none hp).mpr fun q hq => ?_
            by_cases htext : q = .text
            · subst htext
              exact reads_text_none (.inl rfl)
            · exact reads_alternative_none hp hq htext nofun
          cases h.det hnone
      | @char c ps hc hps =>
          obtain ⟨qs, us, hrest, hrepeats, hus⟩ := text_step hwritten hp hc hps h
          exact ⟨qs, us, ⟨hrest.inText, hrest.suffix.trans (List.suffix_cons _ _), hrest.bare_eq⟩,
            Nat.lt_succ_of_le hrest.suffix.length_le, hrepeats, hus⟩
      | @tag name ps hps =>
          obtain ⟨qs, us, hrest, hlt, hrepeats, hus⟩ :=
            hfollows ps (by simp) hps part hp ds ts h
          obtain ⟨u, hu, hread⟩ := exists_reads_inclusion hp (hwritten name) (Piece.write written ps)
          refine ⟨qs, us ++ [u], ⟨hrest.inText, hrest.suffix.trans (List.suffix_cons _ _),
            hrest.bare_eq⟩, hlt.trans (by simp), .cons hread hrepeats, ?_⟩
          have hone : ∀ v ∈ [u], IsAddition v := List.forall_mem_singleton.mpr hu
          have hus' := hus.append (.of_additions hone)
          rwa [List.append_nil] at hus'
      | @complete w ps hw hps =>
          have hopens : Opens (bare (w ++ ps)) := by
            rw [bare, write_append]
            exact opens_of_complete hw fills_bare _
          obtain ⟨qs, us, hrest, hlt, hread, hus⟩ := complete_step hwritten hfollows hp
            (Nat.le_refl _) (.complete hw hps) (headless_of_complete hw ps) hopens h
          exact ⟨qs, [] ++ us, hrest, hlt, .cons hread .nil, hus⟩

end Weaving

end Stencil.Language
