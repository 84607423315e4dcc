/-
Templates with inclusions.

In front of its parts a template may have comments, a parent and imports.  A parent and imports are
looked for behind white space, and they are not found at an inclusion; comments behind an inclusion
are parts like others.  So a template that mentions no other one at its top stays a template when
inclusions are put into its text.
-/
import Mathlib
import Stencil.Proofs.Language.Weaving

namespace Stencil.Language

open Peg (lit chain)
open Stencil.Grammar (Reads Found)

section Top

variable {written : String → List Char} {ps qs : List Piece} {cs ds : List Char}
  {ts us : List (Tree Rule)} {r : Rule}

/-! ## Parents and imports -/

/-- The tag for the mention of another template, without the white space around it. -/
def mentionTag? : Rule → Option (String × Expression)
  | .extendsTag => some ("extends", controlTag [lit "extends", someSpaces, .rule .string])
  | .importMacroTag => some ("import", controlTag [lit "import", someSpaces, .rule .string,
      someSpaces, lit "as", someSpaces, .rule .ident])
  | _ => none

variable {w : String} {e : Expression}

theorem body_of_mentionTag? (h : mentionTag? r = some (w, e)) :
    mode r = .compound ∧ body r = .seq spaces (.seq e spaces) ∧
      (∃ e', e = .seq (.rule .tagStart) (.seq spaces (.seq (lit w) e'))) ∧
      isClosing ['\x7d'] e ∧ e.fits ranking := by
  cases r with
  | extendsTag | importMacroTag =>
      cases h
      exact ⟨rfl, rfl, ⟨_, rfl⟩, by decide, rfl⟩
  | _ => cases h

theorem reads_mention_none (h : mentionTag? r = some (w, e)) :
    Reads grammar .tight (.once (.rule r)) cs none ↔
      Reads grammar .tight (.once e) (cs.dropWhile Grammar.isSpace) none := by
  obtain ⟨hmode, hbody, -⟩ := body_of_mentionTag? h
  rw [Grammar.reads_rule_none]
  change Reads grammar (Grammar.Tightness.tight.inside (mode r)) (.once (body r)) cs none ↔ _
  rw [hmode, hbody]
  change Reads grammar .tight _ cs none ↔ _
  constructor
  · intro h
    rcases Grammar.reads_seq_none.mp h with h | ⟨_, _, hspaces, h⟩
    · cases h.det (reads_spaces cs)
    · cases hspaces.det (reads_spaces cs)
      rcases Grammar.reads_seq_none.mp h with h | ⟨_, _, -, h⟩
      · exact h
      · cases h.det (reads_spaces _)
  · exact fun h => .seq_second (reads_spaces cs) (.seq_first h)

/-- A mention of another template is read only where its word stands. -/
theorem reads_mentionTag_none (h : mentionTag? r = some (w, e))
    (hword : ∀ es, fromWord? cs = some es → ¬ w.toList <+: es) :
    Reads grammar .tight (.once e) cs none := by
  obtain ⟨-, -, ⟨e', rfl⟩, -, hfits⟩ := body_of_mentionTag? h
  obtain ⟨out, hout⟩ := Grammar.exists_reads rankedBy_ranking .tight hfits cs
  cases out with
  | none => exact hout
  | some x =>
      obtain ⟨es, hes, hstart⟩ := word_of_control hout
      exact absurd hstart (hword es hes)

theorem opens_of_fromWord? {es : List Char} (h : fromWord? cs = some es) : Opens cs := by
  unfold fromWord? at h
  split at h
  · exact ⟨_, _, rfl, .inr (.inl rfl)⟩
  · exact ⟨_, _, rfl, .inr (.inl rfl)⟩
  · cases h

/-- The word of a mention does not stand where that of an inclusion or of raw text does. -/
theorem not_prefix_of_word (h : mentionTag? r = some (w, e)) {v : String}
    (hv : v ∈ ["include", "raw"]) {es : List Char} (hstart : v.toList <+: es) :
    ¬ w.toList <+: es := by
  have hw : w ∈ ["extends", "import"] := by
    cases r with
    | extendsTag | importMacroTag =>
        cases h
        decide
    | _ => cases h
  have hapart : ∀ w ∈ ["extends", "import"], ∀ v ∈ ["include", "raw"],
      ¬ (w.toList <+: v.toList ∨ v.toList <+: w.toList) := by decide
  exact fun hmention => hapart w hw v hv (List.prefix_or_prefix_of_prefix hmention hstart)

theorem reads_mentionTag_none_of_isInclusion {x : List Char} (h : mentionTag? r = some (w, e))
    (hx : IsInclusion x) (cs : List Char) : Reads grammar .tight (.once e) (x ++ cs) none := by
  obtain ⟨key, -, -, rfl⟩ := hx
  refine reads_mentionTag_none h fun es hes => ?_
  cases hes
  exact not_prefix_of_word h (v := "include") (by decide) (List.prefix_append _ _)

theorem refuses_mentionTag_of_quiet {q : Rule} {x : List Char} (h : mentionTag? r = some (w, e))
    (hq : q = .commentTag ∨ q = .raw) (hx : Passes .tight (.rule q) x []) :
    Refuses .tight e x := by
  intro y
  obtain ⟨vs, hx⟩ := hx
  refine reads_mentionTag_none h fun es hes => ?_
  rcases hq with rfl | rfl
  · obtain ⟨fs, hfs⟩ := kind_of_reads rfl (hx y)
    rw [hfs] at hes
    cases hes
  · obtain ⟨x', hraw⟩ := reads_rawTag_of_raw (hx y)
    obtain ⟨fs, hfs, hstart⟩ := word_of_reads rfl hraw
    rw [hfs] at hes
    cases hes
    exact not_prefix_of_word h (by decide) hstart

theorem isSettled_mentionTag {x : List Char} (h : mentionTag? r = some (w, e)) (hx : Delimited x) :
    IsSettled .tight e x := by
  obtain ⟨-, -, -, hclosing, hfits⟩ := body_of_mentionTag? h
  cases hx with
  | output => exact .inl fun y => reads_mentionTag_none h nofun
  | comment => exact .inl fun y => reads_mentionTag_none h nofun
  | control hu _ =>
      have hinside := (Inside.of_all (u := ['\x7b', '%']) (by decide)).append hu
      exact isSettled_of_inside hclosing hfits hinside _
  | raw hx => exact .inl (refuses_mentionTag_of_quiet h (.inr rfl) hx)

theorem dropWhile_of_opens (h : Opens cs) : cs.dropWhile Grammar.isSpace = cs := by
  obtain ⟨d, es, rfl, -⟩ := h
  rfl

/-- Where no other template is mentioned without the inclusions, none is with them. -/
theorem mention_none (hwritten : ∀ name, IsInclusion (written name))
    (hr : mentionTag? r = some (w, e)) (hin : InText ps)
    (h : Reads grammar .tight (.once (.rule r)) (bare ps) none) :
    Reads grammar .tight (.once (.rule r)) (Piece.write written ps) none := by
  rw [reads_mention_none hr] at h ⊢
  induction hin with
  | nil => exact h
  | @char c ps hc hps ih =>
      cases hspace : Grammar.isSpace c with
      | true =>
          rw [write_char, List.dropWhile_cons_of_pos hspace]
          rw [bare, write_char, List.dropWhile_cons_of_pos hspace] at h
          exact ih h
      | false =>
          rw [write_char, List.dropWhile_cons_of_neg (by simp [hspace])]
          exact reads_mentionTag_none hr fun es hes =>
            absurd (opens_of_fromWord? hes) (not_opens_of_char hc)
  | @tag name ps hps ih =>
      rw [write_tag, dropWhile_of_opens (opens_of_isInclusion (hwritten name) _)]
      exact reads_mentionTag_none_of_isInclusion hr (hwritten name) _
  | @complete v ps hv hps ih =>
      have hfills := fills_of_isInclusion hwritten
      rw [bare, write_append, dropWhile_of_opens (opens_of_complete hv fills_bare _)] at h
      rw [write_append, dropWhile_of_opens (opens_of_complete hv hfills _)]
      cases hv with
      | delimited hx =>
          rw [write_map_char] at h ⊢
          rcases (isSettled_mentionTag hr hx).reads h with ⟨-, hall⟩ | ⟨vs, heq, -⟩
          · exact hall _
          · cases heq
      | quiet hq hv => exact refuses_mentionTag_of_quiet hr hq (hv written hfills) _

/-- A template mentions another one at its top only through a tag for that. -/
theorem reads_topImports_none :
    Reads grammar .tight (.once (.rule .topImports)) cs none ↔
      Reads grammar .tight (.once (.rule .extendsTag)) cs none ∧
        Reads grammar .tight (.once (.rule .importMacroTag)) cs none := by
  rw [Grammar.reads_rule_none]
  refine Grammar.reads_alt_none.trans (and_congr ?_ ?_)
  · exact Grammar.reads_seq_none_iff_first fun _ => Grammar.not_reads_many_none
  · exact (Grammar.reads_seq_none_iff_first fun _ => Grammar.not_reads_optional_none).trans
      (Grammar.reads_seq_none_iff_first fun _ => Grammar.not_reads_many_none)

theorem mem_of_reads_topImports
    (h : Reads grammar .tight (.once (.rule .topImports)) cs (some (ds, ts))) :
    ∃ t ∈ ts, t.rule = .extendsTag ∨ t.rule = .importMacroTag := by
  obtain ⟨_, hbody, rfl⟩ := Grammar.reads_rule_some.mp h
  rcases Grammar.reads_alt_some.mp hbody with hchain | ⟨-, hchain⟩
  · obtain ⟨_, _, _, hextends, -, rfl⟩ := Grammar.reads_seq_some.mp hchain
    obtain ⟨_, -, rfl⟩ := exists_node_of_firm rfl hextends
    exact ⟨_, List.mem_append_right _ (List.mem_singleton_self _), .inl rfl⟩
  · obtain ⟨_, _, _, himports, -, rfl⟩ := Grammar.reads_seq_some.mp hchain
    obtain ⟨_, _, _, himport, -, rfl⟩ := Grammar.reads_seq_some.mp himports
    obtain ⟨_, -, rfl⟩ := exists_node_of_firm rfl himport
    exact ⟨_, List.mem_append_right _ (List.mem_append_right _ (List.mem_singleton_self _)),
      .inr rfl⟩

/-! ## Comments -/

variable (hwritten : ∀ name, IsInclusion (written name))

/-- A comment is a part of a template like others. -/
theorem reads_comment_part (h : Reads grammar .tight (.once (.rule .commentTag)) cs (some (ds, ts))) :
    ∃ us, Reads grammar .tight (.once (.rule .content)) cs (some (ds, us)) ∧
      (∀ u ∈ us, IsAddition u) ∧ depths us = 3 := by
  obtain ⟨-, hdepth⟩ := comment_of_reads h
  obtain ⟨vs, -, rfl⟩ := exists_node_of_firm rfl h
  obtain ⟨es, hes⟩ := kind_of_reads rfl h
  have hearlier : ∀ q ∈ [Rule.includeTag, .variableTag],
      Reads grammar .tight (.once (.rule q)) cs none := by
    intro q hq
    fin_cases hq
    · exact reads_none_of_kindOf? rfl _ fun fs hfs => by rw [hes] at hfs; cases hfs
    · exact reads_none_of_kindOf? rfl _ fun fs hfs => by rw [hes] at hfs; cases hfs
  refine ⟨_, (reads_part_some (by decide)).mpr ⟨_, .commentTag, _, _, rfl, hearlier, h, rfl⟩,
    List.forall_mem_singleton.mpr
      (.inr (.inr ⟨.content, _, .commentTag, _, _, by decide, by simp, rfl⟩)), ?_⟩
  rw [depths, depth, List.reverse_singleton, hdepth]
  rfl

include hwritten in
/-- Comments behind an inclusion are parts. -/
theorem comments_as_parts (hin : InText ps) (h : Repeats (.rule .commentTag) (bare ps) ds ts) :
    ∃ qs us, Rest ps ds qs ∧ Headless qs ∧
      Repeats (.rule .content) (Piece.write written ps) (Piece.write written qs) us ∧
      Enlarged ts us := by
  generalize hcs : bare ps = cs at h
  induction h generalizing ps with
  | nil =>
      obtain ⟨qs, hqs, hsuffix, hhead, hbare, hfull⟩ := exists_headless hwritten hin
      obtain ⟨us, hus, hrepeats⟩ := hfull .content (by decide)
      exact ⟨qs, us, ⟨hqs, hsuffix, hbare.trans hcs⟩, hhead, hrepeats, .of_additions hus⟩
  | cons ha _ ih =>
      subst hcs
      obtain ⟨ps', hps', hsuffix, hhead, hbare, hfull⟩ := exists_headless hwritten hin
      obtain ⟨vs, hvs, hfirst⟩ := hfull .content (by decide)
      rw [← hbare] at ha
      obtain ⟨rs, ws, hrest, -, hread, -⟩ :=
        leaf_some (fills_of_isInclusion hwritten) hps' hhead rfl ha
      obtain ⟨hts, hdepth⟩ := comment_of_reads ha
      obtain ⟨vs', hread, hvs', hdepth'⟩ := reads_comment_part hread
      have hcomment : Enlarged _ vs' := ⟨.of_additions hts hvs', by omega⟩
      obtain ⟨qs, us, hrest', hhead', hrepeats, hus⟩ := ih hrest.inText hrest.bare_eq
      refine ⟨qs, us ++ vs' ++ vs, (Rest.trans ⟨hps', hsuffix, hbare⟩ hrest).trans hrest', hhead',
        hfirst.append (.cons hread hrepeats), ?_⟩
      have hall := (hus.append hcomment).append (.of_additions hvs)
      rwa [List.append_nil] at hall

/-- What comments in front of everything become: comments up to the first inclusion, and parts
behind it. -/
def CommentsRead (written : String → List Char) (ps : List Piece) (ds : List Char)
    (ts : List (Tree Rule)) : Prop :=
  ∃ qs mid us vs, Rest ps ds qs ∧
    Repeats (.rule .commentTag) (Piece.write written ps) mid us ∧
    Reads grammar .tight (.once (.rule .commentTag)) mid none ∧
    Reads grammar .tight (.once (.rule .topImports)) mid none ∧
    Repeats (.rule .content) mid (Piece.write written qs) vs ∧ Enlarged ts (vs ++ us)

include hwritten in
theorem comments_at_inclusion {name : String} (hin : InText (.tag name :: ps))
    (h : Repeats (.rule .commentTag) (bare (.tag name :: ps)) ds ts) :
    CommentsRead written (.tag name :: ps) ds ts := by
  obtain ⟨qs, us, hrest, -, hrepeats, hus⟩ := comments_as_parts hwritten hin h
  have hmention : ∀ {r w e}, mentionTag? r = some (w, e) →
      Reads grammar .tight (.once (.rule r)) (Piece.write written (.tag name :: ps)) none := by
    intro r w e hr
    rw [reads_mention_none hr, write_tag, dropWhile_of_opens (opens_of_isInclusion (hwritten name) _)]
    exact reads_mentionTag_none_of_isInclusion hr (hwritten name) _
  refine ⟨qs, _, [], us, hrest, .nil, ?_, reads_topImports_none.mpr ⟨hmention rfl, hmention rfl⟩,
    hrepeats, by rwa [List.append_nil]⟩
  refine reads_none_of_kindOf? rfl _ fun es hes => ?_
  obtain ⟨key, -, -, hkey⟩ := hwritten name
  rw [write_tag, hkey] at hes
  cases hes

include hwritten in
/-- Comments in front of everything, and what follows them is no mention of another template. -/
theorem comments_step (hin : InText ps) (h : Repeats (.rule .commentTag) (bare ps) ds ts)
    (hend : Reads grammar .tight (.once (.rule .commentTag)) ds none)
    (htop : Reads grammar .tight (.once (.rule .topImports)) ds none) :
    CommentsRead written ps ds ts := by
  generalize hcs : bare ps = cs at h
  induction h generalizing ps with
  | nil =>
      subst hcs
      by_cases hhead : Headless ps
      · obtain ⟨hextends, himport⟩ := reads_topImports_none.mp htop
        exact ⟨ps, _, [], [], ⟨hin, List.suffix_refl _, rfl⟩, .nil,
          leaf_none (fills_of_isInclusion hwritten) hin hhead rfl hend,
          reads_topImports_none.mpr ⟨mention_none hwritten rfl hin hextends,
            mention_none hwritten rfl hin himport⟩, .nil, .refl _⟩
      · simp only [Headless, not_forall, not_not] at hhead
        obtain ⟨name, qs, rfl⟩ := hhead
        exact comments_at_inclusion hwritten hin .nil
  | cons ha hs ih =>
      subst hcs
      by_cases hhead : Headless ps
      · obtain ⟨rs, ws, hrest, -, hread, hws⟩ :=
          leaf_some (fills_of_isInclusion hwritten) hin hhead rfl ha
        obtain ⟨qs, mid, us, vs, hrest', hcomments, hnone, htop', hparts, hus⟩ :=
          ih hrest.inText hend htop hrest.bare_eq
        refine ⟨qs, mid, us ++ ws, vs, hrest.trans hrest', .cons hread hcomments, hnone, htop',
          hparts, ?_⟩
        rw [← List.append_assoc]
        exact hus.append hws
      · simp only [Headless, not_forall, not_not] at hhead
        obtain ⟨name, qs, rfl⟩ := hhead
        exact comments_at_inclusion hwritten hin (.cons ha hs)

/-! ## The whole template -/

/-- A part of a template, or the definition of a macro. -/
def topPart : Expression := oneOf [.content, .macroDefinition]

theorem reads_topPart_of_content {x : List Char × List (Tree Rule)}
    (h : Reads grammar .tight (.once (.rule .content)) cs (some x)) :
    Reads grammar .tight (.once topPart) cs (some x) :=
  .alt_first h

/-- No part is read where a macro is defined. -/
theorem stops_where_defined {x : List Char × List (Tree Rule)}
    (h : Reads grammar .tight (.once (.rule .macroDefinition)) cs (some x)) :
    Stops .content cs := by
  obtain ⟨ds, ts⟩ := x
  obtain ⟨x, hx⟩ := reads_opener rfl h
  exact .inr ⟨.macroTag, '%', x, rfl, by decide, hx⟩

include hwritten in
theorem topPart_step (hin : InText ps)
    (h : Reads grammar .tight (.once topPart) (bare ps) (some (ds, ts))) :
    ∃ qs us, Rest ps ds qs ∧
      Repeats topPart (Piece.write written ps) (Piece.write written qs) us ∧ Enlarged ts us := by
  rcases Grammar.reads_alt_some.mp h with hcontent | ⟨hnone, hmacro⟩
  · obtain ⟨qs, us, hrest, -, hrepeats, hus⟩ :=
      follows_of_inText hwritten hin .content (by decide) ds ts hcontent
    exact ⟨qs, us, hrest, hrepeats.mono reads_topPart_of_content, hus⟩
  · obtain ⟨ps', hps', hsuffix, hhead, hbare, hfull⟩ := exists_headless hwritten hin
    obtain ⟨vs, hvs, hfirst⟩ := hfull .content (by decide)
    rw [← hbare] at hnone hmacro
    obtain ⟨qs, us, hrest, -, hread, hus⟩ := section_step hwritten
      (fun qs _ hqs => follows_of_inText hwritten hqs) rfl (Nat.le_refl _) hps' hhead hmacro
    have hnone' := part_none (fills_of_isInclusion hwritten) hps' hhead (by decide)
      (stops_where_defined hmacro) hnone
    refine ⟨qs, [] ++ us ++ vs, Rest.trans ⟨hps', hsuffix, hbare⟩ hrest,
      (hfirst.mono reads_topPart_of_content).append (.cons (.alt_second hnone' hread) .nil), ?_⟩
    have hall := hus.append (.of_additions hvs)
    rwa [List.append_nil] at hall

include hwritten in
theorem topParts_step (hin : InText ps) (h : Repeats topPart (bare ps) [] ts) :
    ∃ us, Repeats topPart (Piece.write written ps) [] us ∧ Enlarged ts us := by
  generalize hcs : bare ps = cs at h
  generalize hend : ([] : List Char) = ds at h
  induction h generalizing ps with
  | nil =>
      subst hend
      obtain ⟨qs, hqs, hsuffix, hhead, hbare, hfull⟩ := exists_headless hwritten hin
      obtain ⟨us, hus, hrepeats⟩ := hfull .content (by decide)
      rw [hcs] at hbare
      have hnil : Piece.write written qs = [] := by
        cases hqs with
        | nil => rfl
        | char => cases hbare
        | tag => exact absurd rfl (hhead _ _)
        | complete hw hps =>
            rw [bare, write_append] at hbare
            obtain ⟨d, es, hes, -⟩ := opens_of_complete hw fills_bare (Piece.write (fun _ => []) _)
            rw [hbare] at hes
            cases hes
      rw [hnil] at hrepeats
      exact ⟨us, hrepeats.mono reads_topPart_of_content, .of_additions hus⟩
  | cons ha _ ih =>
      subst hcs
      obtain ⟨qs, vs, hrest, hfirst, hvs⟩ := topPart_step hwritten hin ha
      obtain ⟨us, hrepeats, hus⟩ := ih hrest.inText hrest.bare_eq hend
      exact ⟨us ++ vs, hfirst.append hrepeats, hus.append hvs⟩

/-- A template that mentions no other one at its top consists of comments and of parts. -/
theorem reads_wholeTemplate_alone
    (h : Reads grammar .tight (.once wholeTemplate) cs (some ([], ts)))
    (htop : ∀ t ∈ ts, t.rule ≠ .extendsTag ∧ t.rule ≠ .importMacroTag) :
    ∃ mid ts₁ ts₂ ts₃,
      Reads grammar .tight (.once (.many (.rule .commentTag))) cs (some (mid, ts₁)) ∧
      Reads grammar .tight (.once (.rule .topImports)) mid none ∧
      Reads grammar .tight (.once (.many topPart)) mid (some ([], ts₂)) ∧
      Reads grammar .tight (.once (.rule .endOfInput)) [] (some ([], ts₃)) ∧
      ts = ts₃ ++ ts₂ ++ ts₁ := by
  obtain ⟨mid, ts₁, _, hcomments, hbehind, rfl⟩ := Grammar.reads_seq_some.mp h
  obtain ⟨mid', ts₂, _, hoptional, hparts, rfl⟩ := Grammar.reads_seq_some.mp hbehind
  obtain ⟨rest, ts₃, ts₄, hparts, hend, rfl⟩ := Grammar.reads_seq_some.mp hparts
  rw [Grammar.skipped_tight] at hoptional hparts hend
  obtain rfl : rest = [] := by
    obtain ⟨_, hbody, -⟩ := Grammar.reads_rule_some.mp hend
    cases hbody with
    | endOfText => rfl
    | letter he => cases he
  rcases Grammar.reads_optional.mp hoptional with ⟨hnone, heq⟩ | ⟨_, hsome, heq⟩
  · cases heq
    exact ⟨mid, ts₁, ts₃, ts₄, hcomments, hnone, hparts, hend, by simp⟩
  · cases heq
    obtain ⟨t, ht, hrule⟩ := mem_of_reads_topImports hsome
    obtain ⟨hextends, himport⟩ := htop t (by simp [ht])
    exact absurd hrule (not_or.mpr ⟨hextends, himport⟩)

include hwritten in
/-- A template that mentions no other one at its top is still a template with the inclusions, and
the same one up to further parts. -/
theorem exists_reads_wholeTemplate (hin : InText ps)
    (h : Reads grammar .tight (.once wholeTemplate) (bare ps) (some ([], ts)))
    (htop : ∀ t ∈ ts, t.rule ≠ .extendsTag ∧ t.rule ≠ .importMacroTag) :
    ∃ us, Reads grammar .tight (.once wholeTemplate) (Piece.write written ps) (some ([], us)) ∧
      Enlarged ts us := by
  obtain ⟨cs₁, ts₁, ts₃, ts₄, hcomments, hmention, hparts, hendtree, rfl⟩ :=
    reads_wholeTemplate_alone h htop
  obtain ⟨hcomments, hnone⟩ := reads_many_iff_repeats.mp hcomments
  obtain ⟨hparts, hpartsEnd⟩ := reads_many_iff_repeats.mp hparts
  obtain ⟨qs, mid, us₁, vs, hrest, hfirst, hfirstEnd, hmention', hmiddle, hus₁⟩ :=
    comments_step hwritten hin hcomments hnone hmention
  rw [← hrest.bare_eq] at hparts
  obtain ⟨us₂, hlast, hus₂⟩ := topParts_step hwritten hrest.inText hparts
  have hmany : Reads grammar .tight (.once (.many topPart)) mid (some ([], us₂ ++ vs)) :=
    reads_many_iff_repeats.mpr
      ⟨(hmiddle.mono reads_topPart_of_content).append hlast, hpartsEnd⟩
  refine ⟨_, .seq (reads_many_iff_repeats.mpr ⟨hfirst, hfirstEnd⟩)
    (.seq (.optional_none hmention') (.seq hmany hendtree)), ?_⟩
  have hall := (Enlarged.refl ts₄).append (hus₂.append hus₁)
  simpa only [List.append_assoc, List.append_nil, List.nil_append] using hall

end Top

end Stencil.Language
