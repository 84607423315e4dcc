/-
Tags by their first characters.

A tag starts with a brace and a second character that tells its kind, and a tag of control has a
word behind that.  No word of a tag that opens or closes a part of a template is the start of the
word of another tag, so at most one of the rules for tags can match at one place.
-/
import Mathlib
import Stencil.Proofs.Language.Inside

namespace Stencil.Language

open Peg (lit chain choice repeated)
open Stencil.Grammar (Reads Found Query Tightness skipped shown letter?)

variable {t : Tightness} {cs ds : List Char} {ts : List (Tree Rule)} {out : Found Rule}

/-! ## The start of a tag -/

/-- The second character of the delimiters that start a tag. -/
def delimiterOf? : Rule → Option Char
  | .variableStart => some '\x7b'
  | .tagStart => some '%'
  | .commentStart => some '#'
  | _ => none

/-- The second character of a tag. -/
def kindOf? : Rule → Option Char
  | .variableTag | .superTag => some '\x7b'
  | .commentTag => some '#'
  | .includeTag | .blockTag | .macroTag | .ifTag | .elifTag | .elseTag | .forTag
  | .filterTag | .setTag | .setGlobalTag | .endblockTag | .endmacroTag | .endifTag | .endforTag
  | .endfilterTag | .breakTag | .continueTag | .rawTag | .endrawTag => some '%'
  | _ => none

theorem body_of_delimiterOf? {r : Rule} {d : Char} (h : delimiterOf? r = some d) :
    body r = .alt (.literal ['\x7b', d, '-']) (.literal ['\x7b', d]) ∧ mode r = .inherit := by
  cases r with
  | variableStart | tagStart | commentStart =>
      cases h
      exact ⟨rfl, rfl⟩
  | _ => cases h

theorem body_of_kindOf? {r : Rule} {d : Char} (h : kindOf? r = some d) :
    ∃ start e, delimiterOf? start = some d ∧ body r = .seq (.rule start) e := by
  cases r with
  | variableTag | superTag => cases h; exact ⟨.variableStart, _, rfl, rfl⟩
  | commentTag => cases h; exact ⟨.commentStart, _, rfl, rfl⟩
  | includeTag | blockTag | macroTag | ifTag | elifTag | elseTag | forTag | filterTag | setTag
  | setGlobalTag | endblockTag | endmacroTag | endifTag | endforTag | endfilterTag | breakTag
  | continueTag | rawTag | endrawTag => cases h; exact ⟨.tagStart, _, rfl, rfl⟩
  | _ => cases h

/-- The delimiter that starts a tag takes a dash behind it if there is one. -/
theorem start_of_reads {r : Rule} {d : Char} (hr : delimiterOf? r = some d)
    (h : Reads grammar t (.once (.rule r)) cs (some (ds, ts))) :
    cs = '\x7b' :: d :: '-' :: ds ∨ (cs = '\x7b' :: d :: ds ∧ ds.head? ≠ some '-') := by
  obtain ⟨hbody, -⟩ := body_of_delimiterOf? hr
  obtain ⟨us, h, -⟩ := Grammar.reads_rule_some.mp h
  rw [show grammar.body r = _ from hbody] at h
  rcases Grammar.reads_alt_some.mp h with h | ⟨hnone, h⟩
  · exact .inl (Grammar.reads_literal_some.mp h).1
  · obtain ⟨hcs, -⟩ := Grammar.reads_literal_some.mp h
    refine .inr ⟨hcs, fun hhead => Grammar.reads_literal_none.mp hnone ?_⟩
    cases ds with
    | nil => cases hhead
    | cons c ds =>
        cases hhead
        exact ⟨ds, hcs.symm⟩

theorem kind_of_reads {r : Rule} {d : Char} (hr : kindOf? r = some d)
    (h : Reads grammar t (.once (.rule r)) cs (some (ds, ts))) :
    ∃ es, cs = '\x7b' :: d :: es := by
  obtain ⟨start, e, hstart, hbody⟩ := body_of_kindOf? hr
  obtain ⟨us, h, -⟩ := Grammar.reads_rule_some.mp h
  rw [show grammar.body r = _ from hbody] at h
  obtain ⟨es, _, _, h, -⟩ := Grammar.reads_seq_some.mp h
  rcases start_of_reads hstart h with rfl | ⟨rfl, -⟩
  · exact ⟨_, rfl⟩
  · exact ⟨_, rfl⟩

theorem covers_of_kindOf? {r : Rule} {d : Char} (hr : kindOf? r = some d) :
    (Peg.rule r).fits ranking := by
  cases r with
  | template => cases hr
  | _ => rfl

/-- A tag is not read where its first two characters do not stand. -/
theorem reads_none_of_kindOf? {r : Rule} {d : Char} (hr : kindOf? r = some d) (t : Tightness)
    (h : ∀ es, cs ≠ '\x7b' :: d :: es) : Reads grammar t (.once (.rule r)) cs none := by
  obtain ⟨out, hout⟩ := Grammar.exists_reads rankedBy_ranking t (covers_of_kindOf? hr) cs
  cases out with
  | none => exact hout
  | some found =>
      obtain ⟨es, hes⟩ := kind_of_reads hr hout
      exact absurd hes (h es)

/-! ## The word of a tag -/

/-- The word of a tag of control. -/
def wordOf? : Rule → Option String
  | .includeTag => some "include"
  | .blockTag => some "block"
  | .macroTag => some "macro"
  | .ifTag => some "if"
  | .elifTag => some "elif"
  | .elseTag => some "else"
  | .forTag => some "for"
  | .filterTag => some "filter"
  | .setTag => some "set"
  | .setGlobalTag => some "set_global"
  | .endblockTag => some "endblock"
  | .endmacroTag => some "endmacro"
  | .endifTag => some "endif"
  | .endforTag => some "endfor"
  | .endfilterTag => some "endfilter"
  | .breakTag => some "break"
  | .continueTag => some "continue"
  | .rawTag => some "raw"
  | .endrawTag => some "endraw"
  | _ => none

/-- What stands in a tag of control from its word on. -/
def fromWord? : List Char → Option (List Char)
  | '\x7b' :: '%' :: '-' :: cs => some (cs.dropWhile Grammar.isSpace)
  | '\x7b' :: '%' :: cs => some (cs.dropWhile Grammar.isSpace)
  | _ => none

theorem fromWord?_of_reads (h : Reads grammar t (.once (.rule .tagStart)) cs (some (ds, ts))) :
    fromWord? cs = some (ds.dropWhile Grammar.isSpace) := by
  rcases start_of_reads rfl h with rfl | ⟨rfl, hdash⟩
  · rfl
  · rw [fromWord?]
    intro es hes
    subst hes
    exact hdash rfl

theorem reads_again_space (cs : List Char) :
    Reads grammar .tight (.again .space) cs (some (cs.dropWhile Grammar.isSpace, [])) := by
  induction cs with
  | nil => exact .again_none (.letter_none rfl nofun)
  | cons c cs ih =>
      cases hc : Grammar.isSpace c with
      | true =>
          rw [List.dropWhile_cons_of_pos hc]
          exact .again (.letter rfl hc) ih
      | false =>
          rw [List.dropWhile_cons_of_neg (by simp [hc])]
          refine .again_none (.letter_none rfl fun d ds hds => ?_)
          cases hds
          exact hc

/-- White space is passed over to its end. -/
theorem reads_spaces (cs : List Char) :
    Reads grammar .tight (.once spaces) cs (some (cs.dropWhile Grammar.isSpace, [])) :=
  (Grammar.reads_many_iff_again (by decide)).mpr (reads_again_space cs)

theorem body_of_wordOf? {r : Rule} {w : String} (h : wordOf? r = some w) :
    (mode r = .compound ∧
        ∃ e, body r = .seq (.rule .tagStart) (.seq spaces (.seq (lit w) e))) ∨
      (mode r = .free ∧ ∃ e, body r = .seq (.rule .tagStart) (.seq (lit w) e)) := by
  cases r with
  | includeTag | blockTag | macroTag | ifTag | elifTag | forTag | filterTag | setTag
  | setGlobalTag => cases h; exact .inl ⟨rfl, _, rfl⟩
  | elseTag | endblockTag | endmacroTag | endifTag | endforTag | endfilterTag | breakTag
  | continueTag | rawTag | endrawTag => cases h; exact .inr ⟨rfl, _, rfl⟩
  | _ => cases h

/-- A tag of control is read only where its word stands. -/
theorem word_of_control {w : String} {e : Expression} {x : List Char × List (Tree Rule)}
    (h : Reads grammar .tight (.once (.seq (.rule .tagStart) (.seq spaces (.seq (lit w) e)))) cs
      (some x)) : ∃ es, fromWord? cs = some es ∧ w.toList <+: es := by
  obtain ⟨es, _, _, hstart, h, -⟩ := Grammar.reads_seq_some.mp h
  obtain ⟨fs, _, _, hspaces, h, -⟩ := Grammar.reads_seq_some.mp h
  obtain ⟨gs, _, _, hword, -, -⟩ := Grammar.reads_seq_some.mp h
  obtain ⟨hword, -⟩ := Grammar.reads_literal_some.mp hword
  refine ⟨_, fromWord?_of_reads hstart, ?_⟩
  cases hspaces.det (reads_spaces _)
  exact ⟨gs, hword.symm⟩

theorem word_of_reads {r : Rule} {w : String} (hr : wordOf? r = some w)
    (h : Reads grammar t (.once (.rule r)) cs (some (ds, ts))) :
    ∃ es, fromWord? cs = some es ∧ w.toList <+: es := by
  obtain ⟨us, h, -⟩ := Grammar.reads_rule_some.mp h
  change Reads grammar (t.inside (mode r)) (.once (body r)) cs _ at h
  rcases body_of_wordOf? hr with ⟨hmode, e, hbody⟩ | ⟨hmode, e, hbody⟩
  · rw [hmode, hbody] at h
    exact word_of_control h
  · -- These tags allow white space anywhere, and the word follows at once.
    rw [hmode, hbody] at h
    obtain ⟨es, _, _, hstart, h, -⟩ := Grammar.reads_seq_some.mp h
    obtain ⟨gs, _, _, hword, -, -⟩ := Grammar.reads_seq_some.mp h
    obtain ⟨hword, -⟩ := Grammar.reads_literal_some.mp hword
    exact ⟨_, fromWord?_of_reads hstart, gs, hword.symm⟩

/-- The rules for the tags that open or close a part of a template. -/
def isMark : Rule → Bool
  | .blockTag | .macroTag | .ifTag | .elifTag | .elseTag | .forTag | .filterTag | .rawTag
  | .endblockTag | .endmacroTag | .endifTag | .endforTag | .endfilterTag | .endrawTag => true
  | _ => false

/-- The words of the tags. -/
def words : List (Rule × String) :=
  [.includeTag, .blockTag, .macroTag, .ifTag, .elifTag, .elseTag, .forTag, .filterTag, .setTag,
    .setGlobalTag, .endblockTag, .endmacroTag, .endifTag, .endforTag, .endfilterTag, .breakTag,
    .continueTag, .rawTag, .endrawTag].filterMap fun r => (wordOf? r).map (r, ·)

theorem mem_words {r : Rule} {w : String} (h : wordOf? r = some w) : (r, w) ∈ words := by
  cases r with
  | includeTag | blockTag | macroTag | ifTag | elifTag | elseTag | forTag | filterTag | setTag
  | setGlobalTag | endblockTag | endmacroTag | endifTag | endforTag | endfilterTag | breakTag
  | continueTag | rawTag | endrawTag => cases h; decide
  | _ => cases h

/-- No word of a tag that opens or closes a part is the start of another word, or the other way
round. -/
theorem words_apart : ∀ p ∈ words, ∀ q ∈ words, isMark p.1 →
    p.2.toList <+: q.2.toList ∨ q.2.toList <+: p.2.toList → p.1 = q.1 := by
  decide

/-- Where a tag that opens or closes a part is read, no other tag of control is. -/
theorem eq_of_reads {r r' : Rule} {w w' : String} {x x' : List Char × List (Tree Rule)}
    {t' : Tightness} (hr : wordOf? r = some w) (hr' : wordOf? r' = some w') (hmark : isMark r)
    (h : Reads grammar t (.once (.rule r)) cs (some x))
    (h' : Reads grammar t' (.once (.rule r')) cs (some x')) : r = r' := by
  obtain ⟨es, hes, hw⟩ := word_of_reads hr h
  obtain ⟨es', hes', hw'⟩ := word_of_reads hr' h'
  rw [hes] at hes'
  cases hes'
  exact words_apart _ (mem_words hr) _ (mem_words hr') hmark (List.prefix_or_prefix_of_prefix hw hw')

/-! ## Comments -/

/-- What a comment ends with. -/
def commentClosing : List Char := ['#', '\x7d']

theorem not_infix_of_cons {c : Char} {v : List Char} (h : ¬ commentClosing <:+: c :: v) :
    ¬ commentClosing <:+: v :=
  fun hv => h (List.IsInfix.trans hv (List.infix_cons (List.infix_refl v)))

theorem passes_commentEnd {e : List Char} (he : e = commentClosing ∨ e = '-' :: commentClosing) :
    Passes .tight (.rule .commentEnd) e [] := by
  refine .rule ?_
  rcases he with rfl | rfl
  · refine .alt_second (fun y => .literal_none ?_) (.literal _ [])
    rintro ⟨ds, hds⟩
    cases hds
  · exact .alt_first (.literal _ [])

theorem not_prefix_of_not_infix {v : List Char} (hv : ¬ commentClosing <:+: v) (hne : v ≠ [])
    (y : List Char) : ¬ commentClosing <+: v ++ commentClosing ++ y := by
  rintro ⟨ds, hds⟩
  match v, hne with
  | [c], _ => cases hds
  | c :: d :: v, _ =>
      cases hds
      exact hv ⟨[], v, rfl⟩

theorem refuses_commentEnd {c : Char} {v : List Char} (hv : ¬ commentClosing <:+: c :: v)
    (hdash : c = '-' → v ≠ []) :
    Refuses .tight (.rule .commentEnd) (c :: v ++ commentClosing) := by
  refine .rule (.alt (fun y => .literal_none ?_) (fun y => .literal_none ?_))
  · intro h
    obtain ⟨hc, h⟩ := List.cons_prefix_cons.mp h
    have hv' : ¬ commentClosing <:+: v := not_infix_of_cons hv
    exact not_prefix_of_not_infix hv' (hdash hc.symm) y h
  · exact not_prefix_of_not_infix hv (List.cons_ne_nil _ _) y

/-- The text of a comment is read to the first end of a comment. -/
theorem reads_again_commentText {v : List Char} (hv : ¬ commentClosing <:+: v) :
    ∃ e, (e = commentClosing ∨ e = '-' :: commentClosing) ∧ ∀ y,
      Reads grammar .tight (.again (untilMatch (.rule .commentEnd))) (v ++ commentClosing ++ y)
        (some (e ++ y, [])) := by
  have hstop : ∀ e, (e = commentClosing ∨ e = '-' :: commentClosing) → ∀ y,
      Reads grammar .tight (.again (untilMatch (.rule .commentEnd))) (e ++ y)
        (some (e ++ y, [])) := by
    intro e he y
    obtain ⟨ts, hend⟩ := passes_commentEnd he
    exact .again_none (.seq_first (.absent_none (hend y)))
  induction v with
  | nil => exact ⟨_, .inl rfl, hstop _ (.inl rfl)⟩
  | cons c v ih =>
      by_cases hc : c = '-' ∧ v = []
      · obtain ⟨rfl, rfl⟩ := hc
        exact ⟨_, .inr rfl, hstop _ (.inr rfl)⟩
      · obtain ⟨e, he, hread⟩ :=
          ih (not_infix_of_cons hv)
        have hend := refuses_commentEnd hv fun hdash hnil => hc ⟨hdash, hnil⟩
        exact ⟨e, he, fun y => .again (.seq (.absent (hend y)) (.letter rfl rfl)) (hread y)⟩

theorem isSettled_commentText {v : List Char} (hv : ¬ commentClosing <:+: v) :
    Refuses .tight (.rule .commentText) (v ++ commentClosing) ∨
      ∃ e, (e = commentClosing ∨ e = '-' :: commentClosing) ∧
        Passes .tight (.rule .commentText) (v ++ commentClosing) e := by
  have hrefuses : ∀ e, (e = commentClosing ∨ e = '-' :: commentClosing) →
      Refuses .tight (.rule .commentText) e := by
    intro e he
    obtain ⟨ts, hend⟩ := passes_commentEnd he
    exact .rule (.seq_first fun y => .seq_first (.absent_none (hend y)))
  cases v with
  | nil => exact .inl (hrefuses _ (.inl rfl))
  | cons c v =>
      by_cases hc : c = '-' ∧ v = []
      · obtain ⟨rfl, rfl⟩ := hc
        exact .inl (hrefuses _ (.inr rfl))
      · obtain ⟨e, he, hread⟩ := reads_again_commentText
          (not_infix_of_cons hv)
        have hend := refuses_commentEnd hv fun hdash hnil => hc ⟨hdash, hnil⟩
        have hmany : Passes .tight (.many (untilMatch (.rule .commentEnd)))
            (v ++ commentClosing) e :=
          ⟨[], fun y => (Grammar.reads_many_iff_again (by decide)).mpr (hread y)⟩
        have hfirst : Passes .tight (untilMatch (.rule .commentEnd)) (c :: v ++ commentClosing)
            (v ++ commentClosing) :=
          ⟨[], fun y => .seq (.absent (hend y)) (.letter rfl rfl)⟩
        exact .inr ⟨e, he, .rule (.seq hfirst hmany)⟩

/-- A comment is read to its first end, and no further. -/
theorem isSettled_comment {w : List Char} (hw : ¬ commentClosing <:+: w) (t : Tightness) :
    IsSettled t (.rule .commentTag) ('\x7b' :: '#' :: (w ++ commentClosing)) := by
  have hstart : ∃ v, ¬ commentClosing <:+: v ∧
      Passes .tight (.rule .commentStart) ('\x7b' :: '#' :: (w ++ commentClosing))
        (v ++ commentClosing) := by
    by_cases hdash : ∃ v, w = '-' :: v
    · obtain ⟨v, rfl⟩ := hdash
      exact ⟨v, not_infix_of_cons hw,
        .rule (.alt_first (.literal ['\x7b', '#', '-'] _))⟩
    · refine ⟨w, hw, .rule (.alt_second (fun y => .literal_none ?_)
        (.literal ['\x7b', '#'] _))⟩
      rintro ⟨ds, hds⟩
      cases w with
      | nil => cases hds
      | cons c w =>
          cases hds
          exact hdash ⟨w, rfl⟩
  obtain ⟨v, hv, hstart⟩ := hstart
  refine .rule ?_
  rcases isSettled_commentText hv with htext | ⟨e, he, htext⟩
  · exact .inl (.seq_second hstart (.seq_first htext))
  · exact .inr (.seq hstart (.seq htext (passes_commentEnd he)))

/-! ## Inclusions -/

/-- What stands for a tag whose partial is registered under a key. -/
def IsInclusion (x : List Char) : Prop :=
  ∃ key : List Char, '"' ∉ key ∧ '\x7d' ∉ key ∧
    x = "\x7b% include \"".toList ++ (key ++ "\" %\x7d".toList)

theorem passes_spaces {w x : List Char} {c : Char} (hw : w.all Grammar.isSpace)
    (hc : Grammar.isSpace c = false) : Passes .tight spaces (w ++ c :: x) (c :: x) := by
  refine ⟨[], fun y => ?_⟩
  have hread := reads_spaces (w ++ c :: x ++ y)
  rw [List.append_assoc, List.dropWhile_append_of_pos (by simpa using hw), List.cons_append,
    List.dropWhile_cons_of_neg (by simp [hc]), ← List.cons_append, ← List.append_assoc] at hread
  exact hread

theorem passes_someSpaces {x : List Char} {c : Char} (hc : Grammar.isSpace c = false) :
    Passes .tight someSpaces (' ' :: c :: x) (c :: x) :=
  .seq ⟨[], fun _ => .letter rfl rfl⟩ (passes_spaces (w := []) rfl hc)

/-- An inclusion is read as such, whatever stands behind it. -/
theorem passes_inclusion {x : List Char} (hx : IsInclusion x) (t : Tightness) :
    Passes t (.rule .includeTag) x [] := by
  obtain ⟨key, hkey, -, rfl⟩ := hx
  have hstart : ∀ x, Passes .tight (.rule .tagStart) ('\x7b' :: '%' :: ' ' :: x) (' ' :: x) := by
    refine fun x => .rule (.alt_second (fun y => .literal_none ?_) (.literal ['\x7b', '%'] _))
    rintro ⟨ds, hds⟩
    cases hds
  have hword : ∀ x, Passes .tight (lit "include") ("include".toList ++ x) x := Passes.literal _
  have hquoted : ∀ x, Passes .tight (oneOf [.string, .stringArray]) ('"' :: (key ++ '"' :: x)) x := by
    intro x
    have hdouble : Passes .hidden (.rule .doubleQuoted) ('"' :: (key ++ '"' :: x)) x := by
      refine .rule ⟨[], fun y => ?_⟩
      have hread := reads_quoted hkey (x ++ y)
      rw [List.cons_append, List.append_assoc]
      exact hread
    exact .alt_first (.rule (.alt_first hdouble))
  have hmissing : Passes .tight (.optional (.rule .ignoreMissing)) ['%', '\x7d'] ['%', '\x7d'] := by
    refine ⟨[], fun y => .optional_none (.rule_none (.seq_first (.literal_none ?_)))⟩
    rintro ⟨ds, hds⟩
    cases hds
  have hend : Passes .tight (.rule .tagEnd) ['%', '\x7d'] [] := by
    refine .rule (.alt_second (fun y => .literal_none ?_) (.literal _ []))
    rintro ⟨ds, hds⟩
    cases hds
  exact .rule (.seq (hstart _) (.seq (passes_spaces (w := [' ']) rfl rfl) (.seq (hword _)
    (.seq (passes_someSpaces rfl) (.seq (hquoted _) (.seq (passes_spaces (w := [' ']) rfl rfl)
      (.seq hmissing (.seq (passes_spaces (w := []) rfl rfl) hend))))))))

/-! ## Tags, comments and raw sections -/

/-- The parts of a template that are not text: an expression, a tag of control, a comment, or a raw
section as a whole. -/
inductive Delimited : List Char → Prop
  | output {u : List Char} (hu : Inside u) :
      Delimited ('\x7b' :: '\x7b' :: (u ++ ['\x7d', '\x7d']))
  | control {u : List Char} (hu : Inside u)
      (hraw : Refuses .tight (.rule .rawTag) ('\x7b' :: '%' :: (u ++ ['\x7d']))) :
      Delimited ('\x7b' :: '%' :: (u ++ ['\x7d']))
  | comment {w : List Char} (hw : ¬ commentClosing <:+: w) :
      Delimited ('\x7b' :: '#' :: (w ++ commentClosing))
  | raw {x : List Char} (hx : Passes .tight (.rule .raw) x []) : Delimited x

/-- Rules for a part that is complete in itself. -/
def isLeaf (r : Rule) : Bool := r == .raw || ((kindOf? r).isSome && r != .rawTag)

theorem isLeaf_iff {r : Rule} : isLeaf r ↔ r = .raw ∨ (∃ d, kindOf? r = some d) ∧ r ≠ .rawTag := by
  simp [isLeaf, Option.isSome_iff_exists]

theorem kindOf?_cases {r : Rule} {d : Char} (h : kindOf? r = some d) :
    (d = '\x7b' ∧ closingOf? r = some ['\x7d', '\x7d']) ∨
      (d = '%' ∧ closingOf? r = some ['\x7d'] ∧ ∃ w, wordOf? r = some w) ∨
      (d = '#' ∧ r = .commentTag) := by
  cases r with
  | variableTag | superTag => cases h; exact .inl ⟨rfl, rfl⟩
  | commentTag => cases h; exact .inr (.inr ⟨rfl, rfl⟩)
  | includeTag | blockTag | macroTag | ifTag | elifTag | elseTag | forTag | filterTag | setTag
  | setGlobalTag | endblockTag | endmacroTag | endifTag | endforTag | endfilterTag | breakTag
  | continueTag | rawTag | endrawTag => cases h; exact .inr (.inl ⟨rfl, rfl, _, rfl⟩)
  | _ => cases h

theorem raw_of_refuses {x : List Char} (h : Refuses .tight (.rule .rawTag) x) :
    Refuses .tight (.rule .raw) x :=
  .rule (.seq_first h)

/-- A raw section starts with the tag that opens it. -/
theorem reads_rawTag_of_raw {x : List Char × List (Tree Rule)}
    (h : Reads grammar .tight (.once (.rule .raw)) cs (some x)) :
    ∃ x', Reads grammar .tight (.once (.rule .rawTag)) cs (some x') := by
  obtain ⟨_, h, -⟩ := Grammar.reads_rule_some.mp h
  obtain ⟨_, _, _, h, -⟩ := Grammar.reads_seq_some.mp h
  exact ⟨_, h⟩

/-- No other tag is read where a raw section is. -/
theorem refuses_of_raw {r : Rule} {d : Char} {x : List Char} (hd : kindOf? r = some d)
    (hne : r ≠ .rawTag) (hx : Passes .tight (.rule .raw) x []) : Refuses .tight (.rule r) x := by
  intro y
  obtain ⟨ts, hx⟩ := hx
  obtain ⟨⟨ds, us⟩, hraw⟩ := reads_rawTag_of_raw (hx y)
  obtain ⟨out, hout⟩ := Grammar.exists_reads rankedBy_ranking .tight (covers_of_kindOf? hd) (x ++ y)
  cases out with
  | none => exact hout
  | some found =>
      exfalso
      obtain ⟨es, hes⟩ := kind_of_reads rfl hraw
      obtain ⟨es', hes'⟩ := kind_of_reads hd hout
      rw [hes] at hes'
      rcases kindOf?_cases hd with ⟨rfl, -⟩ | ⟨-, -, w, hw⟩ | ⟨rfl, -⟩
      · cases hes'
      · exact hne (eq_of_reads rfl hw rfl hraw hout).symm
      · cases hes'

theorem isSettled_of_kindOf? {r : Rule} {d : Char} {x : List Char} (hd : kindOf? r = some d)
    (hne : r ≠ .rawTag) (hx : Delimited x) : IsSettled .tight (.rule r) x := by
  have hother : (∀ y es, x ++ y ≠ '\x7b' :: d :: es) → IsSettled .tight (.rule r) x :=
    fun h => .inl fun y => reads_none_of_kindOf? hd _ (h y)
  have hfits := covers_of_kindOf? hd
  have hbrace : Inside ['\x7b'] := .of_all (by decide)
  rcases kindOf?_cases hd with ⟨rfl, hclose⟩ | ⟨rfl, hclose, -⟩ | ⟨rfl, rfl⟩
  · have hclosing : isClosing ['\x7d', '\x7d'] (.rule r) := by rw [isClosing, hclose]; rfl
    cases hx with
    | output hu => exact isSettled_of_inside hclosing hfits (hbrace.append (hbrace.append hu)) _
    | control => exact hother fun y es h => by cases h
    | comment => exact hother fun y es h => by cases h
    | raw hx => exact .inl (refuses_of_raw hd hne hx)
  · have hclosing : isClosing ['\x7d'] (.rule r) := by rw [isClosing, hclose]; rfl
    have hpercent : Inside ['%'] := .of_all (by decide)
    cases hx with
    | output => exact hother fun y es h => by cases h
    | control hu _ =>
        exact isSettled_of_inside hclosing hfits (hbrace.append (hpercent.append hu)) _
    | comment => exact hother fun y es h => by cases h
    | raw hx => exact .inl (refuses_of_raw hd hne hx)
  · cases hx with
    | output => exact hother fun y es h => by cases h
    | control => exact hother fun y es h => by cases h
    | comment hw => exact isSettled_comment hw _
    | raw hx => exact .inl (refuses_of_raw hd hne hx)

/-- What a rule for a complete part makes of a part does not depend on what stands behind it. -/
theorem isSettled_of_delimited {r : Rule} {x : List Char} (hr : isLeaf r) (hx : Delimited x) :
    IsSettled .tight (.rule r) x := by
  rcases isLeaf_iff.mp hr with rfl | ⟨⟨d, hd⟩, hne⟩
  · have hother : (∀ y es, x ++ y ≠ '\x7b' :: '%' :: es) → IsSettled .tight (.rule .raw) x :=
      fun h => .inl (raw_of_refuses fun y => reads_none_of_kindOf? rfl _ (h y))
    cases hx with
    | output => exact hother fun y es h => by cases h
    | control hu hraw => exact .inl (raw_of_refuses hraw)
    | comment => exact hother fun y es h => by cases h
    | raw hx => exact .inr hx
  · exact isSettled_of_kindOf? hd hne hx

end Stencil.Language
