/-
Where tags stand in a text.

An inclusion keeps a template intact where it stands in the text: not inside a tag, and not right
behind an opening brace, with which it would start a tag of another kind.  In a comment or a raw
section it does no harm either, as long as the section ends where it did.  The parts of a template
that are complete in themselves, its tags, comments and raw sections, are read with the inclusions
as they are read without them.
-/
import Mathlib
import Stencil.Piece
import Stencil.Proofs.Language.Growth
import Stencil.Proofs.Language.Tags

namespace Stencil.Language

open Peg (lit chain choice repeated)
open Stencil.Grammar (Reads Found Query Tightness skipped shown letter?)

/-! ## Places in the text -/

/-- Whether a row of pieces starts with a character that makes no delimiter behind a brace. -/
def StartsPlain (ps : List Piece) : Prop :=
  ps = [] ∨ ∃ d qs, ps = .char d :: qs ∧ d ≠ '\x7b' ∧ d ≠ '%' ∧ d ≠ '#'

/-- Whether every tag is written as an inclusion or not at all. -/
def Fills (written : String → List Char) : Prop :=
  ∀ name, written name = [] ∨ IsInclusion (written name)

/-- Pieces of a complete part: of one without tags, or of a comment or a raw section that stays one
whatever is written for the tags in it. -/
inductive Complete : List Piece → Prop
  | delimited {x : List Char} (hx : Delimited x) : Complete (x.map .char)
  | quiet {r : Rule} {w : List Piece} (hr : r = .commentTag ∨ r = .raw)
      (hw : ∀ written, Fills written → Passes .tight (.rule r) (Piece.write written w) []) :
      Complete w

/-- Whether all tags among some pieces stand in the text of a template, or in its comments and raw
sections. -/
inductive InText : List Piece → Prop
  | nil : InText []
  | char {c : Char} {ps : List Piece} (hc : c = '\x7b' → StartsPlain ps) (hps : InText ps) :
      InText (.char c :: ps)
  | tag {name : String} {ps : List Piece} (hps : InText ps) : InText (.tag name :: ps)
  | complete {w ps : List Piece} (hw : Complete w) (hps : InText ps) : InText (w ++ ps)

/-- The text without its tags. -/
def bare (ps : List Piece) : List Char := Piece.write (fun _ => []) ps

section Places

variable {written : String → List Char} {ps qs : List Piece} {cs ds : List Char}
  {ts us : List (Tree Rule)} {out : Found Rule} {r : Rule}

@[simp] theorem write_nil : Piece.write written [] = [] := rfl

@[simp] theorem write_char (c : Char) (ps : List Piece) :
    Piece.write written (.char c :: ps) = c :: Piece.write written ps := rfl

@[simp] theorem write_tag (name : String) (ps : List Piece) :
    Piece.write written (.tag name :: ps) = written name ++ Piece.write written ps := rfl

@[simp] theorem write_append (ps qs : List Piece) :
    Piece.write written (ps ++ qs) = Piece.write written ps ++ Piece.write written qs :=
  List.flatMap_append

@[simp] theorem write_map_char (x : List Char) : Piece.write written (x.map .char) = x := by
  induction x with
  | nil => rfl
  | cons c x ih => rw [List.map_cons, write_char, ih]

theorem fills_bare : Fills fun _ => [] := fun _ => .inl rfl

theorem fills_of_isInclusion (h : ∀ name, IsInclusion (written name)) : Fills written :=
  fun name => .inr (h name)

/-- Whether a text starts with a delimiter. -/
def Opens (cs : List Char) : Prop :=
  ∃ d es, cs = '\x7b' :: d :: es ∧ (d = '\x7b' ∨ d = '%' ∨ d = '#')

/-- Whether some pieces do not start with a tag. -/
def Headless (ps : List Piece) : Prop := ∀ name qs, ps ≠ .tag name :: qs

theorem kind_mem {d : Char} (h : kindOf? r = some d) : d = '\x7b' ∨ d = '%' ∨ d = '#' := by
  rcases kindOf?_cases h with ⟨rfl, -⟩ | ⟨rfl, -⟩ | ⟨rfl, -⟩
  · exact .inl rfl
  · exact .inr (.inl rfl)
  · exact .inr (.inr rfl)

theorem opens_of_reads {t : Tightness} {d : Char} {x : List Char × List (Tree Rule)}
    (hd : kindOf? r = some d) (h : Reads grammar t (.once (.rule r)) cs (some x)) : Opens cs := by
  obtain ⟨es, hes⟩ := kind_of_reads hd h
  exact ⟨d, es, hes, kind_mem hd⟩

theorem opens_of_delimited {x : List Char} (hx : Delimited x) (y : List Char) : Opens (x ++ y) := by
  cases hx with
  | output => exact ⟨_, _, rfl, .inl rfl⟩
  | control => exact ⟨_, _, rfl, .inr (.inl rfl)⟩
  | comment => exact ⟨_, _, rfl, .inr (.inr rfl)⟩
  | raw hx =>
      obtain ⟨ts, hx⟩ := hx
      obtain ⟨⟨ds, us⟩, h⟩ := reads_rawTag_of_raw (hx y)
      exact opens_of_reads rfl h

/-- A character of the text starts no delimiter, whatever is written for the tags. -/
theorem not_opens_of_char {c : Char} (hc : c = '\x7b' → StartsPlain ps) :
    ¬ Opens (c :: Piece.write written ps) := by
  rintro ⟨d, es, heq, hd⟩
  obtain ⟨rfl, heq⟩ := List.cons.inj heq
  rcases hc rfl with rfl | ⟨e, qs, rfl, h₁, h₂, h₃⟩
  · cases heq
  · cases heq
    rcases hd with rfl | rfl | rfl
    · exact h₁ rfl
    · exact h₂ rfl
    · exact h₃ rfl

theorem reads_leaf_none (hr : isLeaf r) (h : ¬ Opens cs) :
    Reads grammar .tight (.once (.rule r)) cs none := by
  have hkind : ∀ {q : Rule} {d : Char}, kindOf? q = some d →
      Reads grammar .tight (.once (.rule q)) cs none :=
    fun hd => reads_none_of_kindOf? hd _ fun es hes => h ⟨_, es, hes, kind_mem hd⟩
  rcases isLeaf_iff.mp hr with rfl | ⟨⟨d, hd⟩, -⟩
  · exact .rule_none (.seq_first (hkind (q := .rawTag) rfl))
  · exact hkind hd

/-! ## Firm rules -/

/-- Whether a rule is read the same from everywhere. -/
def isFirm (r : Rule) : Bool := mode r == .compound || mode r == .free

theorem reads_firm {t t' : Tightness} (hr : isFirm r)
    (h : Reads grammar t (.once (.rule r)) cs out) : Reads grammar t' (.once (.rule r)) cs out := by
  have hinside : t.inside (mode r) = t'.inside (mode r) ∧ t.seen (mode r) = t'.seen (mode r) := by
    simp only [isFirm, Bool.or_eq_true, beq_iff_eq] at hr
    rcases hr with hr | hr <;> rw [hr] <;> exact ⟨rfl, rfl⟩
  rcases Grammar.reads_rule.mp h with ⟨hbody, rfl⟩ | ⟨ds, ts, hbody, rfl⟩
  · exact .rule_none (hinside.1 ▸ hbody)
  · have hshown : ∀ x, shown grammar t r x ts = shown grammar t' r x ts := by
      intro x
      rw [shown, shown, show t.seen (grammar.mode r) = t'.seen (grammar.mode r) from hinside.2]
    rw [hshown]
    exact .rule (hinside.1 ▸ hbody)

/-- A firm rule leaves one tree. -/
theorem exists_node_of_firm {t : Tightness} (hr : isFirm r)
    (h : Reads grammar t (.once (.rule r)) cs (some (ds, ts))) :
    ∃ us, Reads grammar (t.inside (mode r)) (.once (body r)) cs (some (ds, us)) ∧
      ts = [.node r (cs.take (cs.length - ds.length)) us.reverse] := by
  obtain ⟨us, hbody, rfl⟩ := Grammar.reads_rule_some.mp h
  refine ⟨us, hbody, ?_⟩
  simp only [isFirm, Bool.or_eq_true, beq_iff_eq] at hr
  rw [shown, if_neg]
  show ¬ (mode r = .silent ∨ t.seen (mode r) = .hidden)
  rcases hr with hr | hr <;> rw [hr] <;> simp [Tightness.seen]

/-! ## Complete parts -/

/-- Whether an expression calls no rule, except where it must not match. -/
def isMute : Expression → Bool
  | .rule _ => false
  | .seq a b | .alt a b => isMute a && isMute b
  | .many a | .optional a => isMute a
  | _ => true

theorem nil_of_isMute {t : Tightness} {query : Query Rule}
    (h : Reads grammar t query cs (some (ds, ts))) (hmute : isMute (partOf query)) : ts = [] := by
  generalize hout : (some (ds, ts) : Found Rule) = out at h
  induction h generalizing ds ts with
  | literal | letter | endOfText | many_none | again_none | optional_none | absent =>
      cases hout
      rfl
  | seq _ _ iha ihb =>
      cases hout
      rw [partOf, isMute, Bool.and_eq_true] at hmute
      rw [iha hmute.1 rfl, ihb hmute.2 rfl]
      rfl
  | alt_first _ iha =>
      rw [partOf, isMute, Bool.and_eq_true] at hmute
      exact iha hmute.1 hout
  | alt_second _ _ _ ihb =>
      rw [partOf, isMute, Bool.and_eq_true] at hmute
      exact ihb hmute.2 hout
  | many _ _ iha ihs | again _ _ iha ihs =>
      cases hout
      rw [iha hmute rfl, ihs hmute rfl]
      rfl
  | optional _ iha => exact iha hmute hout
  | rule => cases hmute
  | _ => cases hout

/-- A visible rule that calls no other one leaves a tree without parts. -/
theorem depths_of_isMute {t : Tightness} (hmute : isMute (body r))
    (hvisible : ¬ (mode r = .silent ∨ t.seen (mode r) = .hidden))
    (h : Reads grammar t (.once (.rule r)) cs (some (ds, ts))) : depths ts = 1 := by
  obtain ⟨us, hbody, rfl⟩ := Grammar.reads_rule_some.mp h
  obtain rfl := nil_of_isMute hbody hmute
  rw [shown]
  exact congrArg depths (if_neg hvisible)

theorem depths_of_wordTag {word : String} (hmode : mode r = .free) (hbody : body r = wordTag word)
    (h : Reads grammar .tight (.once (.rule r)) cs (some (ds, ts))) : depths ts = 2 := by
  have hfirm : isFirm r := by rw [isFirm, hmode]; rfl
  obtain ⟨us, hread, rfl⟩ := exists_node_of_firm hfirm h
  rw [hmode, hbody] at hread
  obtain ⟨_, _, _, hstart, hbehind, rfl⟩ := Grammar.reads_seq_some.mp hread
  obtain ⟨_, _, _, hword, hend, rfl⟩ := Grammar.reads_seq_some.mp hbehind
  obtain ⟨-, rfl⟩ := Grammar.reads_literal_some.mp hword
  simp only [depths, depth, depths_reverse, depths_append,
    depths_of_isMute (r := .tagStart) rfl (by decide) hstart,
    depths_of_isMute (r := .tagEnd) rfl (by decide) hend]
  rfl

/-- A comment is an addition of two levels. -/
theorem comment_of_reads (h : Reads grammar .tight (.once (.rule .commentTag)) cs (some (ds, ts))) :
    (∀ t ∈ ts, IsAddition t) ∧ depths ts = 2 := by
  obtain ⟨us, hbody, rfl⟩ := exists_node_of_firm rfl h
  refine ⟨List.forall_mem_singleton.mpr (.inl rfl), ?_⟩
  obtain ⟨_, _, _, hstart, hbehind, rfl⟩ := Grammar.reads_seq_some.mp hbody
  obtain ⟨_, _, _, htext, hend, rfl⟩ := Grammar.reads_seq_some.mp hbehind
  simp only [depths, depth, depths_reverse, depths_append,
    depths_of_isMute (r := .commentStart) rfl (by decide) hstart,
    depths_of_isMute (r := .commentText) rfl (by decide) htext,
    depths_of_isMute (r := .commentEnd) rfl (by decide) hend]
  rfl

/-- A raw section is an addition of three levels. -/
theorem raw_of_reads (h : Reads grammar .tight (.once (.rule .raw)) cs (some (ds, ts))) :
    (∀ t ∈ ts, IsAddition t) ∧ depths ts = 3 := by
  obtain ⟨us, hbody, rfl⟩ := exists_node_of_firm rfl h
  obtain ⟨_, _, _, hstart, hbehind, rfl⟩ := Grammar.reads_seq_some.mp hbody
  obtain ⟨_, _, _, htext, hend, rfl⟩ := Grammar.reads_seq_some.mp hbehind
  obtain ⟨vs, -, rfl⟩ := exists_node_of_firm rfl htext
  constructor
  · refine List.forall_mem_singleton.mpr (.inr (.inl ⟨rfl, ?_⟩))
    exact ⟨_, List.mem_reverse.mpr (List.mem_append_left _
      (List.mem_append_right _ (List.mem_singleton_self _))), rfl⟩
  · rw [depths, depth, depths_reverse, depths_append, depths_append,
      depths_of_wordTag (r := .rawTag) rfl rfl hstart,
      depths_of_isMute (r := .rawText) rfl (by decide) htext,
      depths_of_wordTag (r := .endrawTag) rfl rfl hend]
    rfl

/-- Two comments, or two raw sections, are the same up to additions. -/
theorem enlarged_of_quiet {cs' ds' : List Char} (hr : r = .commentTag ∨ r = .raw)
    (h : Reads grammar .tight (.once (.rule r)) cs (some (ds, ts)))
    (h' : Reads grammar .tight (.once (.rule r)) cs' (some (ds', us))) : Enlarged ts us := by
  rcases hr with rfl | rfl
  · obtain ⟨hts, hdepth⟩ := comment_of_reads h
    obtain ⟨hus, hdepth'⟩ := comment_of_reads h'
    exact ⟨.of_additions hts hus, (hdepth.trans hdepth'.symm).le⟩
  · obtain ⟨hts, hdepth⟩ := raw_of_reads h
    obtain ⟨hus, hdepth'⟩ := raw_of_reads h'
    exact ⟨.of_additions hts hus, (hdepth.trans hdepth'.symm).le⟩

section Complete

variable {w : List Piece} {x : List Char}

theorem opens_of_passes (hr : r = .commentTag ∨ r = .raw) (hx : Passes .tight (.rule r) x [])
    (y : List Char) : Opens (x ++ y) := by
  obtain ⟨ts, hx⟩ := hx
  rcases hr with rfl | rfl
  · exact opens_of_reads rfl (hx y)
  · obtain ⟨x', hraw⟩ := reads_rawTag_of_raw (hx y)
    exact opens_of_reads rfl hraw

theorem opens_of_complete (hw : Complete w) (hfills : Fills written) (y : List Char) :
    Opens (Piece.write written w ++ y) := by
  cases hw with
  | delimited hx =>
      rw [write_map_char]
      exact opens_of_delimited hx y
  | quiet hr hw => exact opens_of_passes hr (hw written hfills) y

/-- Only its own rule reads a comment or a raw section. -/
theorem refuses_of_quiet {q : Rule} (hq : q = .commentTag ∨ q = .raw)
    (hx : Passes .tight (.rule q) x []) (hr : isLeaf r) (hne : r ≠ q) :
    Refuses .tight (.rule r) x := by
  rcases hq with rfl | rfl
  · intro y
    obtain ⟨ts, hx⟩ := hx
    obtain ⟨es, hes⟩ := kind_of_reads rfl (hx y)
    rcases isLeaf_iff.mp hr with rfl | ⟨⟨d, hd⟩, -⟩
    · refine .rule_none (.seq_first (reads_none_of_kindOf? (r := .rawTag) rfl _ fun fs hfs => ?_))
      rw [hes] at hfs
      cases hfs
    · refine reads_none_of_kindOf? hd _ fun fs hfs => ?_
      rw [hes] at hfs
      cases hfs
      rcases kindOf?_cases hd with ⟨hchar, -⟩ | ⟨hchar, -⟩ | ⟨-, hcomment⟩
      · cases hchar
      · cases hchar
      · exact hne hcomment
  · rcases isLeaf_iff.mp hr with rfl | ⟨⟨d, hd⟩, hraw⟩
    · exact absurd rfl hne
    · exact refuses_of_raw hd hraw hx

/-- What a rule for a complete part makes of a part does not depend on what is written for the
tags. -/
theorem complete_reads (hw : Complete w) (hfills : Fills written) (hr : isLeaf r) :
    (Refuses .tight (.rule r) (bare w) ∧ Refuses .tight (.rule r) (Piece.write written w)) ∨
      ∃ ts us, (∀ y, Reads grammar .tight (.once (.rule r)) (bare w ++ y) (some (y, ts))) ∧
        (∀ y, Reads grammar .tight (.once (.rule r)) (Piece.write written w ++ y) (some (y, us))) ∧
        Enlarged ts us := by
  cases hw with
  | delimited hx =>
      rw [bare, write_map_char, write_map_char]
      rcases isSettled_of_delimited hr hx with h | ⟨ts, h⟩
      · exact .inl ⟨h, h⟩
      · exact .inr ⟨ts, ts, h, h, .refl ts⟩
  | @quiet q w hq hw =>
      have hbare := hw _ fills_bare
      have hfull := hw written hfills
      by_cases hne : r = q
      · subst hne
        obtain ⟨ts, hbare⟩ := hbare
        obtain ⟨us, hfull⟩ := hfull
        exact .inr ⟨ts, us, hbare, hfull, enlarged_of_quiet hq (hbare []) (hfull [])⟩
      · exact .inl ⟨refuses_of_quiet hq hbare hr hne, refuses_of_quiet hq hfull hr hne⟩

theorem length_pos_of_complete (hw : Complete w) : 0 < w.length := by
  cases w with
  | nil =>
      obtain ⟨d, es, hes, -⟩ := opens_of_complete hw fills_bare []
      cases hes
  | cons p w => exact Nat.succ_pos _

/-- No comment and no raw section starts with an inclusion. -/
theorem not_reads_of_isInclusion {y : List Char} {found : List Char × List (Tree Rule)}
    (hr : r = .commentTag ∨ r = .raw) (hx : IsInclusion x) :
    ¬ Reads grammar .tight (.once (.rule r)) (x ++ y) (some found) := by
  intro h
  obtain ⟨key, -, -, rfl⟩ := hx
  rcases hr with rfl | rfl
  · obtain ⟨es, hes⟩ := kind_of_reads rfl h
    cases hes
  · obtain ⟨⟨ds, ts⟩, hraw⟩ := reads_rawTag_of_raw h
    obtain ⟨es, hes, hword⟩ := word_of_reads rfl hraw
    cases hes
    obtain ⟨fs, hfs⟩ := hword
    cases hfs

theorem headless_of_complete (hw : Complete w) (ps : List Piece) : Headless (w ++ ps) := by
  intro name qs h
  cases w with
  | nil => exact absurd (length_pos_of_complete hw) (Nat.lt_irrefl 0)
  | cons p w =>
      obtain ⟨rfl, -⟩ := List.cons.inj h
      generalize hpieces : (Piece.tag name :: w) = v at hw
      cases hw with
      | @delimited x hx =>
          cases x with
          | nil => cases hpieces
          | cons c x => cases hpieces
      | quiet hr hw =>
          subst hpieces
          have hinclusion : IsInclusion "\x7b% include \"\" %\x7d".toList :=
            ⟨[], List.not_mem_nil, List.not_mem_nil, rfl⟩
          obtain ⟨ts, hpasses⟩ := hw _ (fills_of_isInclusion fun _ => hinclusion)
          have hread := hpasses []
          rw [List.append_nil, write_tag] at hread
          exact not_reads_of_isInclusion hr hinclusion hread

end Complete

/-- A complete part is read with the inclusions if it is read without them. -/
theorem leaf_reads (hfills : Fills written) (hin : InText ps) (hhead : Headless ps) (hr : isLeaf r)
    (h : Reads grammar .tight (.once (.rule r)) (bare ps) out) :
    (out = none ∧ Reads grammar .tight (.once (.rule r)) (Piece.write written ps) none) ∨
      ∃ qs ts us, InText qs ∧ qs <:+ ps ∧ qs.length < ps.length ∧ out = some (bare qs, ts) ∧
        Reads grammar .tight (.once (.rule r)) (Piece.write written ps)
          (some (Piece.write written qs, us)) ∧ Enlarged ts us := by
  have hnone : (∀ written, ¬ Opens (Piece.write written ps)) →
      out = none ∧ Reads grammar .tight (.once (.rule r)) (Piece.write written ps) none :=
    fun hnot => ⟨h.det (reads_leaf_none hr (hnot _)), reads_leaf_none hr (hnot _)⟩
  cases hin with
  | nil =>
      refine .inl (hnone fun written => ?_)
      rintro ⟨d, es, heq, -⟩
      cases heq
  | char hc hps => exact .inl (hnone fun written => not_opens_of_char hc)
  | tag => exact absurd rfl (hhead _ _)
  | @complete w qs hw hps =>
      rw [bare, write_append] at h
      rw [write_append]
      rcases complete_reads hw hfills hr with ⟨hbare, hfull⟩ | ⟨ts, us, hbare, hfull, hus⟩
      · exact .inl ⟨h.det (hbare _), hfull _⟩
      · have hpos := length_pos_of_complete hw
        refine .inr ⟨qs, ts, us, hps, List.suffix_append _ _, ?_, h.det (hbare _), hfull _, hus⟩
        rw [List.length_append]
        omega

end Places

end Stencil.Language
