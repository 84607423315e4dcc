/-
The parts of a body.

A body is a row of parts, and a part is the first of several alternatives that can be read: an
inclusion is always tried first, and text last.  So what is one text without inclusions is a row of
texts and inclusions with them.
-/
import Mathlib
import Stencil.Proofs.Language.Places

namespace Stencil.Language

open Peg (chain choice)
open Stencil.Grammar (Reads Found Query Tightness skipped shown)

section Parts

variable {written : String → List Char} {ps qs : List Piece} {cs ds : List Char}
  {ts us : List (Tree Rule)} {out : Found Rule}

/-! ## Rows of parts -/

/-- What a repetition takes where no white space may stand between the parts. -/
inductive Repeats (a : Expression) : List Char → List Char → List (Tree Rule) → Prop
  | nil {cs : List Char} : Repeats a cs cs []
  | cons {cs ds es : List Char} {ts us : List (Tree Rule)}
      (ha : Reads grammar .tight (.once a) cs (some (ds, ts))) (hs : Repeats a ds es us) :
      Repeats a cs es (us ++ ts)

namespace Repeats

variable {a b : Expression} {es : List Char}

theorem append (h : Repeats a cs ds ts) (h' : Repeats a ds es us) : Repeats a cs es (us ++ ts) := by
  induction h generalizing us with
  | nil => simpa using h'
  | cons ha _ ih =>
      have := Repeats.cons ha (ih h')
      rwa [List.append_assoc] at this

theorem mono (hab : ∀ {cs x}, Reads grammar .tight (.once a) cs (some x) →
    Reads grammar .tight (.once b) cs (some x)) (h : Repeats a cs ds ts) : Repeats b cs ds ts := by
  induction h with
  | nil => exact .nil
  | cons ha _ ih => exact .cons (hab ha) ih

end Repeats

theorem reads_again_iff_repeats {a : Expression} :
    Reads grammar .tight (.again a) cs (some (ds, ts)) ↔
      Repeats a cs ds ts ∧ Reads grammar .tight (.once a) ds none := by
  constructor
  · intro h
    generalize hquery : Query.again a = query at h
    generalize hout : (some (ds, ts) : Found Rule) = out at h
    generalize htight : Tightness.tight = t at h
    induction h generalizing ds ts with
    | again_none ha =>
        cases hquery
        cases hout
        subst htight
        exact ⟨.nil, ha⟩
    | again ha hs _ ih =>
        cases hquery
        cases hout
        subst htight
        obtain ⟨hrepeats, hnone⟩ := ih rfl rfl rfl
        exact ⟨.cons ha hrepeats, hnone⟩
    | _ => cases hquery
  · rintro ⟨h, hnone⟩
    induction h with
    | nil => exact .again_none hnone
    | cons ha _ ih => exact .again ha (ih hnone)

theorem reads_many_iff_repeats {a : Expression} :
    Reads grammar .tight (.once (.many a)) cs (some (ds, ts)) ↔
      Repeats a cs ds ts ∧ Reads grammar .tight (.once a) ds none := by
  rw [Grammar.reads_many_iff_again (by decide), reads_again_iff_repeats]

/-! ## Alternatives -/

theorem reads_oneOf_none {t : Tightness} {rs : List Rule} :
    Reads grammar t (.once (oneOf rs)) cs none ↔
      ∀ q ∈ rs, Reads grammar t (.once (.rule q)) cs none := by
  induction rs with
  | nil =>
      have hnone : Reads grammar t (.once (oneOf [])) cs none := .absent_none (.literal (l := []) rfl)
      simpa using hnone
  | cons r rs ih =>
      cases rs with
      | nil => simp [oneOf, choice]
      | cons r' rs =>
          rw [List.forall_mem_cons, ← ih]
          exact Grammar.reads_alt_none

theorem reads_oneOf_some {t : Tightness} {rs : List Rule} {x : List Char × List (Tree Rule)} :
    Reads grammar t (.once (oneOf rs)) cs (some x) ↔ ∃ before r after, rs = before ++ r :: after ∧
      (∀ q ∈ before, Reads grammar t (.once (.rule q)) cs none) ∧
        Reads grammar t (.once (.rule r)) cs (some x) := by
  induction rs with
  | nil =>
      constructor
      · intro h
        cases h.det (.absent_none (.literal (l := []) rfl))
      · rintro ⟨before, r, after, h, -⟩
        simp at h
  | cons r rs ih =>
      have hsplit : Reads grammar t (.once (oneOf (r :: rs))) cs (some x) ↔
          Reads grammar t (.once (.rule r)) cs (some x) ∨
            (Reads grammar t (.once (.rule r)) cs none ∧
              Reads grammar t (.once (oneOf rs)) cs (some x)) := by
        cases rs with
        | nil =>
            constructor
            · exact .inl
            · rintro (h | ⟨-, h⟩)
              · exact h
              · cases h.det (.absent_none (.literal (l := []) rfl))
        | cons r' rs => exact Grammar.reads_alt_some
      rw [hsplit, ih]
      constructor
      · rintro (h | ⟨hnone, before, q, after, rfl, hbefore, h⟩)
        · exact ⟨[], r, rs, rfl, by simp, h⟩
        · exact ⟨r :: before, q, after, rfl, List.forall_mem_cons.mpr ⟨hnone, hbefore⟩, h⟩
      · rintro ⟨before, q, after, heq, hbefore, h⟩
        cases before with
        | nil =>
            cases heq
            exact .inl h
        | cons r' before =>
            cases heq
            obtain ⟨hnone, hbefore⟩ := List.forall_mem_cons.mp hbefore
            exact .inr ⟨hnone, before, q, after, rfl, hbefore, h⟩

/-! ## The parts of bodies -/

/-- The alternatives for a part of a body. -/
def alternatives : Rule → List Rule
  | .filterSectionContent => [.includeTag, .variableTag, .commentTag, .setTag, .setGlobalTag,
      .block, .forloop, .filterSectionIf, .raw, .filterSection, .text]
  | .macroContent => [.includeTag, .variableTag, .commentTag, .setTag, .setGlobalTag, .macroIf,
      .forloop, .filterSection, .raw, .text]
  | .blockContent => [.includeTag, .superTag, .variableTag, .commentTag, .setTag, .setGlobalTag,
      .block, .blockIf, .forloop, .filterSection, .raw, .text]
  | .forContent => [.includeTag, .variableTag, .commentTag, .setTag, .setGlobalTag, .forIf,
      .forloop, .breakTag, .continueTag, .filterSection, .raw, .text]
  | .content => [.includeTag, .variableTag, .commentTag, .setTag, .setGlobalTag, .block,
      .contentIf, .forloop, .filterSection, .raw, .text]
  | _ => []

theorem body_of_mem_contents {part : Rule} (h : part ∈ contents) :
    body part = oneOf (alternatives part) ∧ mode part = .atomic := by
  fin_cases h <;> exact ⟨rfl, rfl⟩

/-- The tag that opens a section, and the kind of the parts of its body. -/
def sectionOf? : Rule → Option (Rule × Rule)
  | .block => some (.blockTag, .blockContent)
  | .contentIf => some (.ifTag, .content)
  | .blockIf => some (.ifTag, .blockContent)
  | .macroIf => some (.ifTag, .macroContent)
  | .forIf => some (.ifTag, .forContent)
  | .filterSectionIf => some (.ifTag, .filterSectionContent)
  | .forloop => some (.forTag, .forContent)
  | .filterSection => some (.filterTag, .filterSectionContent)
  | .macroDefinition => some (.macroTag, .macroContent)
  | _ => none

/-- The tags that end a body. -/
def isCloser : Rule → Bool
  | .elifTag | .elseTag | .endblockTag | .endmacroTag | .endifTag | .endforTag | .endfilterTag =>
    true
  | _ => false

/-- What may follow a body in a section: further bodies, and the tag that ends the section. -/
inductive Tail (part : Rule) : Expression → Prop
  | close {r : Rule} (hr : isCloser r) : Tail part (.rule r)
  | many {r : Rule} {e : Expression} (hr : isCloser r) (he : Tail part e) :
      Tail part (.seq (.many (.seq (.rule r) (.many (.rule part)))) e)
  | optional {r : Rule} {e : Expression} (hr : isCloser r) (he : Tail part e) :
      Tail part (.seq (.optional (.seq (.rule r) (.many (.rule part)))) e)

theorem body_of_sectionOf? {s o part : Rule} (h : sectionOf? s = some (o, part)) :
    mode s = .compound ∧ part ∈ contents ∧
      ∃ e, Tail part e ∧ body s = .seq (.rule o) (.seq (.many (.rule part)) e) := by
  cases s with
  | block | filterSection | macroDefinition =>
      cases h
      exact ⟨rfl, by decide, _, .close rfl, rfl⟩
  | contentIf | blockIf | macroIf | forIf | filterSectionIf =>
      cases h
      exact ⟨rfl, by decide, _, .many (r := .elifTag) rfl
        (.optional (r := .elseTag) rfl (.close (r := .endifTag) rfl)), rfl⟩
  | forloop =>
      cases h
      exact ⟨rfl, by decide, _, .many (r := .elseTag) rfl (.close (r := .endforTag) rfl), rfl⟩
  | _ => cases h

theorem firm_of_mem_alternatives {part q : Rule} (hp : part ∈ contents)
    (hq : q ∈ alternatives part) : isFirm q := by
  revert q
  fin_cases hp <;> decide

theorem cases_of_mem_alternatives {part q : Rule} (hp : part ∈ contents)
    (hq : q ∈ alternatives part) : q = .text ∨ isLeaf q ∨ (sectionOf? q).isSome := by
  revert q
  fin_cases hp <;> decide

/-- An inclusion is the first thing that a part may be, and text the last one. -/
theorem alternatives_eq {part : Rule} (hp : part ∈ contents) :
    ∃ between, alternatives part = .includeTag :: between ++ [.text] ∧ .text ∉ between := by
  refine ⟨((alternatives part).drop 1).dropLast, ?_⟩
  fin_cases hp <;> exact ⟨rfl, by decide⟩

/-- The tag that opens a section is complete in itself. -/
theorem isLeaf_of_sectionOf? {s o part : Rule} (h : sectionOf? s = some (o, part)) : isLeaf o := by
  cases s with
  | block | contentIf | blockIf | macroIf | forIf | filterSectionIf | forloop | filterSection
  | macroDefinition =>
      cases h
      rfl
  | _ => cases h

theorem reads_section_none {s o part : Rule} (h : sectionOf? s = some (o, part))
    (ho : Reads grammar .tight (.once (.rule o)) cs none) :
    Reads grammar .tight (.once (.rule s)) cs none := by
  obtain ⟨hmode, -, e, -, hbody⟩ := body_of_sectionOf? h
  refine .rule_none ?_
  show Reads grammar (Tightness.tight.inside (mode s)) (.once (body s)) cs none
  rw [hmode, hbody]
  exact .seq_first ho

/-- Only text is read where nothing opens. -/
theorem reads_alternative_none {part q : Rule} (hp : part ∈ contents) (hq : q ∈ alternatives part)
    (hne : q ≠ .text) (h : ¬ Opens cs) : Reads grammar .tight (.once (.rule q)) cs none := by
  rcases cases_of_mem_alternatives hp hq with heq | hleaf | hsection
  · exact absurd heq hne
  · exact reads_leaf_none hleaf h
  · obtain ⟨⟨o, below⟩, hsection⟩ := Option.isSome_iff_exists.mp hsection
    exact reads_section_none hsection (reads_leaf_none (isLeaf_of_sectionOf? hsection) h)

theorem reads_part_none {part : Rule} (hp : part ∈ contents) :
    Reads grammar .tight (.once (.rule part)) cs none ↔
      ∀ q ∈ alternatives part, Reads grammar .tight (.once (.rule q)) cs none := by
  obtain ⟨hbody, hmode⟩ := body_of_mem_contents hp
  rw [Grammar.reads_rule_none]
  show Reads grammar (Tightness.tight.inside (mode part)) (.once (body part)) cs none ↔ _
  rw [hbody, hmode, reads_oneOf_none]
  exact forall₂_congr fun q hq => ⟨reads_firm (firm_of_mem_alternatives hp hq),
    reads_firm (firm_of_mem_alternatives hp hq)⟩

/-- A part is read by the first alternative that can read it. -/
theorem reads_part_some {part : Rule} (hp : part ∈ contents) :
    Reads grammar .tight (.once (.rule part)) cs (some (ds, ts)) ↔
      ∃ before r after us, alternatives part = before ++ r :: after ∧
        (∀ q ∈ before, Reads grammar .tight (.once (.rule q)) cs none) ∧
        Reads grammar .tight (.once (.rule r)) cs (some (ds, us)) ∧
        ts = [.node part (cs.take (cs.length - ds.length)) us.reverse] := by
  obtain ⟨hbody, hmode⟩ := body_of_mem_contents hp
  have hshown : ∀ us, shown grammar .tight part (cs.take (cs.length - ds.length)) us =
      [.node part (cs.take (cs.length - ds.length)) us.reverse] := by
    intro us
    rw [shown, show grammar.mode part = _ from hmode]
    exact if_neg (by simp [Tightness.seen])
  rw [Grammar.reads_rule_some]
  show (∃ us, Reads grammar (Tightness.tight.inside (mode part)) (.once (body part)) cs _ ∧ _) ↔ _
  rw [hbody, hmode]
  constructor
  · rintro ⟨us, h, rfl⟩
    obtain ⟨before, r, after, heq, hbefore, h⟩ := reads_oneOf_some.mp h
    refine ⟨before, r, after, us, heq, fun q hq => ?_, ?_, hshown us⟩
    · exact reads_firm (firm_of_mem_alternatives hp (heq ▸ List.mem_append_left _ hq))
        (hbefore q hq)
    · exact reads_firm (firm_of_mem_alternatives hp
        (heq ▸ List.mem_append_right _ List.mem_cons_self)) h
  · rintro ⟨before, r, after, us, heq, hbefore, h, rfl⟩
    refine ⟨us, reads_oneOf_some.mpr ⟨before, r, after, heq, fun q hq => ?_, ?_⟩, (hshown us).symm⟩
    · exact reads_firm (firm_of_mem_alternatives hp (heq ▸ List.mem_append_left _ hq))
        (hbefore q hq)
    · exact reads_firm (firm_of_mem_alternatives hp
        (heq ▸ List.mem_append_right _ List.mem_cons_self)) h

/-! ## Text -/

/-- A character of the text. -/
def textChar : Expression := untilMatch (.rule .blockStart)

theorem reads_blockStart_none {t : Tightness} (h : ¬ Opens cs) :
    Reads grammar t (.once (.rule .blockStart)) cs none := by
  have hstart : ∀ {start : Rule} {d : Char}, delimiterOf? start = some d →
      (d = '\x7b' ∨ d = '%' ∨ d = '#') → Reads grammar t (.once (.rule start)) cs none := by
    intro start d hstart hd
    obtain ⟨hbody, hmode⟩ := body_of_delimiterOf? hstart
    refine .rule_none ?_
    show Reads grammar _ (.once (body start)) cs none
    rw [hbody]
    refine .alt_second (.literal_none ?_) (.literal_none ?_)
    · rintro ⟨es, rfl⟩
      exact h ⟨d, '-' :: es, rfl, hd⟩
    · rintro ⟨es, rfl⟩
      exact h ⟨d, es, rfl, hd⟩
  refine .rule_none (reads_oneOf_none.mpr ?_)
  intro q hq
  fin_cases hq
  · exact hstart rfl (.inl rfl)
  · exact hstart rfl (.inr (.inl rfl))
  · exact hstart rfl (.inr (.inr rfl))

theorem exists_reads_blockStart {t : Tightness} (h : Opens cs) :
    ∃ x, Reads grammar t (.once (.rule .blockStart)) cs (some x) := by
  obtain ⟨out, hout⟩ := Grammar.exists_reads rankedBy_ranking t (a := .rule .blockStart) rfl cs
  cases out with
  | some x => exact ⟨x, hout⟩
  | none =>
      exfalso
      obtain ⟨d, es, rfl, hd⟩ := h
      have hall := reads_oneOf_none.mp (Grammar.reads_rule_none.mp hout)
      have hstart : ∀ start : Rule, start ∈ [Rule.variableStart, .tagStart, .commentStart] →
          delimiterOf? start = some d → False := by
        intro start hmem hstart
        have hnone := Grammar.reads_rule_none.mp (hall start hmem)
        rw [show grammar.body start = _ from (body_of_delimiterOf? hstart).1] at hnone
        exact Grammar.reads_literal_none.mp (Grammar.reads_alt_none.mp hnone).2 ⟨es, rfl⟩
      rcases hd with rfl | rfl | rfl
      · exact hstart .variableStart (by decide) rfl
      · exact hstart .tagStart (by decide) rfl
      · exact hstart .commentStart (by decide) rfl

theorem reads_textChar {c : Char} {t : Tightness} (ht : t ≠ .free) (h : ¬ Opens (c :: cs)) :
    Reads grammar t (.once textChar) (c :: cs) (some (cs, [])) := by
  have hskip : skipped t (c :: cs) = c :: cs := by
    cases t with
    | free => exact absurd rfl ht
    | tight => rfl
    | hidden => rfl
  have hany : Reads grammar t (.once .anyChar) (skipped t (c :: cs)) (some (cs, [])) := by
    rw [hskip]
    exact .letter rfl rfl
  exact .seq (.absent (reads_blockStart_none h)) hany

theorem reads_textChar_none {t : Tightness} (h : Opens cs) :
    Reads grammar t (.once textChar) cs none := by
  obtain ⟨x, hx⟩ := exists_reads_blockStart (t := t) h
  exact .seq_first (.absent_none hx)

theorem reads_text_none (h : cs = [] ∨ Opens cs) :
    Reads grammar .tight (.once (.rule .text)) cs none := by
  refine .rule_none (.seq_first ?_)
  rcases h with rfl | h
  · exact .seq_second (.absent (reads_blockStart_none nofun)) (.letter_none rfl nofun)
  · exact reads_textChar_none h

/-- A character that starts no delimiter is the start of a text. -/
theorem reads_text_part {part : Rule} {c : Char} (hp : part ∈ contents) (h : ¬ Opens (c :: cs))
    (hmany : Reads grammar .tight (.again textChar) cs (some (ds, []))) :
    ∃ x y, Reads grammar .tight (.once (.rule part)) (c :: cs)
      (some (ds, [.node part x [.node .text y []]])) := by
  have htext : Reads grammar .tight (.once (.rule .text)) (c :: cs) (some (ds, _)) :=
    .rule (.seq (reads_textChar (by decide) h) ((Grammar.reads_many_iff_again (by decide)).mpr hmany))
  obtain ⟨between, heq, hnot⟩ := alternatives_eq hp
  refine ⟨_, _, (reads_part_some hp).mpr ⟨_, .text, [], _, heq, fun q hq => ?_, htext, rfl⟩⟩
  refine reads_alternative_none hp (heq ▸ List.mem_append_left _ hq) ?_ h
  rintro rfl
  rcases List.mem_cons.mp hq with h | h
  · cases h
  · exact hnot h

/-- An inclusion is a part of every body. -/
theorem exists_reads_inclusion {part : Rule} {x : List Char} (hp : part ∈ contents)
    (hx : IsInclusion x) (cs : List Char) :
    ∃ u, IsAddition u ∧ Reads grammar .tight (.once (.rule part)) (x ++ cs) (some (cs, [u])) := by
  obtain ⟨ts, hread⟩ := passes_inclusion hx .tight
  obtain ⟨us, -, rfl⟩ := exists_node_of_firm rfl (hread cs)
  obtain ⟨between, heq, -⟩ := alternatives_eq hp
  have hpart := (reads_part_some hp).mpr ⟨[], .includeTag, _, _, heq, by simp, hread cs, rfl⟩
  exact ⟨_, .inr (.inr ⟨part, _, .includeTag, _, _, hp, by simp, rfl⟩), hpart⟩

theorem opens_of_isInclusion {x : List Char} (hx : IsInclusion x) (cs : List Char) :
    Opens (x ++ cs) := by
  obtain ⟨key, -, -, rfl⟩ := hx
  exact ⟨_, _, rfl, .inr (.inl rfl)⟩

/-! ## Runs of text -/

/-- Whether some pieces are none, or start with a complete part. -/
def Stands (ps : List Piece) : Prop := ps = [] ∨ ∃ w qs, Complete w ∧ ps = w ++ qs

theorem Stands.cases (h : Stands ps) (hfills : Fills written) :
    Piece.write written ps = [] ∨ Opens (Piece.write written ps) := by
  rcases h with rfl | ⟨w, qs, hw, rfl⟩
  · exact .inl rfl
  · rw [write_append]
    exact .inr (opens_of_complete hw hfills _)

theorem reads_again_text_none (h : cs = [] ∨ Opens cs) :
    Reads grammar .tight (.again textChar) cs (some (cs, [])) := by
  refine .again_none ?_
  rcases h with rfl | h
  · exact .seq_second (.absent (reads_blockStart_none nofun)) (.letter_none rfl nofun)
  · exact reads_textChar_none h

/-- Whether additions lead from one text to another, whichever part of a body they are read as. -/
def LeadByAdditions (cs ds : List Char) : Prop :=
  ∀ part ∈ contents, ∃ us, (∀ u ∈ us, IsAddition u) ∧ Repeats (.rule part) cs ds us

theorem LeadByAdditions.refl (cs : List Char) : LeadByAdditions cs cs :=
  fun _ _ => ⟨[], List.forall_mem_nil _, .nil⟩

theorem LeadByAdditions.cons {cs ds es : List Char}
    (h : ∀ part ∈ contents, ∃ u, IsAddition u ∧
      Reads grammar .tight (.once (.rule part)) cs (some (ds, [u])))
    (hrest : LeadByAdditions ds es) : LeadByAdditions cs es := by
  intro part hp
  obtain ⟨u, hu, hread⟩ := h part hp
  obtain ⟨us, hus, hrepeats⟩ := hrest part hp
  refine ⟨us ++ [u], fun v hv => ?_, .cons hread hrepeats⟩
  rcases List.mem_append.mp hv with hv | hv
  · exact hus v hv
  · exact List.mem_singleton.mp hv ▸ hu

section Runs

variable (hwritten : ∀ name, IsInclusion (written name))

include hwritten in
/-- A text ends at the first inclusion. -/
theorem exists_reads_again_text (hin : InText ps) :
    ∃ qs, InText qs ∧ qs <:+ ps ∧
      Reads grammar .tight (.again textChar) (Piece.write written ps)
        (some (Piece.write written qs, [])) ∧
      ∀ {ds}, Reads grammar .tight (.again textChar) (bare qs) (some (ds, [])) →
        Reads grammar .tight (.again textChar) (bare ps) (some (ds, [])) := by
  induction hin with
  | nil => exact ⟨[], .nil, List.suffix_refl _, reads_again_text_none (.inl rfl), id⟩
  | @char c ps hc hps ih =>
      obtain ⟨qs, hqs, hsuffix, hfull, hbare⟩ := ih
      exact ⟨qs, hqs, hsuffix.trans (List.suffix_cons _ _),
        .again (reads_textChar (by decide) (not_opens_of_char hc)) hfull,
        fun h => .again (reads_textChar (by decide) (not_opens_of_char hc)) (hbare h)⟩
  | @tag name ps hps ih =>
      exact ⟨.tag name :: ps, .tag hps, List.suffix_refl _,
        reads_again_text_none (.inr (opens_of_isInclusion (hwritten name) _)), id⟩
  | @complete w ps hw hps ih =>
      refine ⟨w ++ ps, .complete hw hps, List.suffix_refl _, ?_, id⟩
      rw [write_append]
      exact reads_again_text_none (.inr (opens_of_complete hw (fills_of_isInclusion hwritten) _))

include hwritten in
/-- What is one text without the inclusions is a row of texts and inclusions with them. -/
theorem exists_texts (hin : InText ps) :
    ∃ qs, InText qs ∧ qs <:+ ps ∧ Stands qs ∧
      Reads grammar .tight (.again textChar) (bare ps) (some (bare qs, [])) ∧
      LeadByAdditions (Piece.write written ps) (Piece.write written qs) := by
  induction hn : ps.length using Nat.strong_induction_on generalizing ps with
  | _ n ih =>
      subst hn
      have hstands : ∀ {ps : List Piece}, InText ps → Stands ps → ∃ qs, InText qs ∧ qs <:+ ps ∧
          Stands qs ∧ Reads grammar .tight (.again textChar) (bare ps) (some (bare qs, [])) ∧
          LeadByAdditions (Piece.write written ps) (Piece.write written qs) :=
        fun hin h => ⟨_, hin, List.suffix_refl _, h, reads_again_text_none (h.cases fills_bare),
          .refl _⟩
      cases hin with
      | nil => exact hstands .nil (.inl rfl)
      | @complete w ps hw hps => exact hstands (.complete hw hps) (.inr ⟨w, ps, hw, rfl⟩)
      | @tag name ps hps =>
          obtain ⟨qs, hqs, hsuffix, hstand, hbare, hfull⟩ := ih ps.length (by simp) hps rfl
          exact ⟨qs, hqs, hsuffix.trans (List.suffix_cons _ _), hstand, hbare,
            .cons (fun part hp => exists_reads_inclusion hp (hwritten name) _) hfull⟩
      | @char c ps hc hps =>
          obtain ⟨rs, hrs, hsuffix, hfirst, htransfer⟩ := exists_reads_again_text hwritten hps
          obtain ⟨qs, hqs, hsuffix', hstand, hbare, hfull⟩ :=
            ih rs.length (Nat.lt_succ_of_le hsuffix.length_le) hrs rfl
          refine ⟨qs, hqs, (hsuffix'.trans hsuffix).trans (List.suffix_cons _ _), hstand,
            .again (reads_textChar (by decide) (not_opens_of_char hc)) (htransfer hbare),
            .cons (fun part hp => ?_) hfull⟩
          obtain ⟨x, y, hread⟩ := reads_text_part hp (not_opens_of_char hc) hfirst
          exact ⟨_, .inr (.inr ⟨part, x, .text, y, [], hp, by simp, rfl⟩), hread⟩

include hwritten in
/-- Inclusions at the start are parts of their own. -/
theorem exists_headless (hin : InText ps) :
    ∃ qs, InText qs ∧ qs <:+ ps ∧ Headless qs ∧ bare qs = bare ps ∧
      LeadByAdditions (Piece.write written ps) (Piece.write written qs) := by
  induction hin with
  | tag hps ih =>
      rename_i name ps
      obtain ⟨qs, hqs, hsuffix, hheadless, hbare, hfull⟩ := ih
      exact ⟨qs, hqs, hsuffix.trans (List.suffix_cons _ _), hheadless, hbare,
        .cons (fun part hp => exists_reads_inclusion hp (hwritten name) _) hfull⟩
  | nil => exact ⟨[], .nil, List.suffix_refl _, nofun, rfl, .refl _⟩
  | char hc hps => exact ⟨_, .char hc hps, List.suffix_refl _, nofun, rfl, .refl _⟩
  | @complete w ps hw hps =>
      exact ⟨_, .complete hw hps, List.suffix_refl _, headless_of_complete hw ps, rfl, .refl _⟩

end Runs

end Parts

end Stencil.Language
