/-
What stands inside a tag.

Between its delimiters a tag holds plain characters and quoted texts, and the first brace that
closes outside of the quoted texts ends it.  Nothing that is read inside a tag looks further than
to that brace: the only rules that search the text ahead are those of quoted texts, and these find
their end in front of it.  So what a tag is read as does not depend on the text behind it.
-/
import Mathlib
import Stencil.Proofs.Language.Parse

namespace Stencil.Language

open Peg (lit chain choice repeated)
open Stencil.Grammar (Reads Found Query Tightness skipped shown letter?)

/-- Whether a character starts and ends a quoted text. -/
def isQuote (c : Char) : Bool := c == '"' || c == '\'' || c == '\x60'

/-- Whether a character has no meaning of its own inside a tag. -/
def isPlainChar (c : Char) : Bool := !isQuote c && c != '\x7d'

/-- Texts of plain characters and quoted texts. -/
inductive Inside : List Char → Prop
  | nil : Inside []
  | char {c : Char} {u : List Char} (hc : isPlainChar c) (hu : Inside u) : Inside (c :: u)
  | quoted {q : Char} {w u : List Char} (hq : isQuote q) (hw : q ∉ w) (hu : Inside u) :
      Inside (q :: (w ++ q :: u))

/-- The rules of what stands inside a tag. -/
def isInnerRule : Rule → Bool
  | .int | .float | .doubleQuoted | .singleQuoted | .backQuoted | .string | .boolean
  | .ident | .dottedIdent | .squareBrackets | .path
  | .opOr | .opAnd | .opNot | .opLte | .opGte | .opLt | .opGt | .opEq | .opIneq
  | .opPlus | .opMinus | .opTimes | .opSlash | .opModulo
  | .stringConcat | .basicVal | .basicOp | .basicExpr | .basicExprFilter | .stringExprFilter
  | .comparisonVal | .comparisonOp | .comparisonExpr | .inCondContainer | .inCond
  | .logicVal | .logicExpr | .array | .arrayFilter | .stringArray
  | .kwarg | .kwargs | .fnCall | .filter | .macroDefArg | .macroDefArgs | .macroFn
  | .macroFnWrapper | .macroCall | .testArg | .testArgs | .testCall | .testNot | .test
  | .variableStart | .tagStart | .commentStart | .ignoreMissing => true
  | _ => false

/-- Whether an expression takes only what may stand inside a tag. -/
def isInner : Expression → Bool
  | .literal l => l.all isPlainChar
  | .range first last => ['"', '\'', '\x60', '\x7d'].all fun c => !(first ≤ c && c ≤ last)
  | .space => true
  | .rule r => isInnerRule r
  | .seq a b | .alt a b => isInner a && isInner b
  | .many a | .optional a => isInner a
  | _ => false

/-- The quote of a rule for quoted texts. -/
def quoteOf? : Rule → Option Char
  | .doubleQuoted => some '"'
  | .singleQuoted => some '\''
  | .backQuoted => some '\x60'
  | _ => none

/-- A rule for what stands inside a tag is one for quoted texts, or it consists of such rules. -/
theorem isInner_body {r : Rule} (h : isInnerRule r) :
    (quoteOf? r).isSome ∨ isInner (body r) := by
  revert h
  cases r <;> decide

theorem body_of_quoteOf? {r : Rule} {q : Char} (h : quoteOf? r = some q) :
    body r = quoted q ∧ mode r = .atomic ∧ isQuote q := by
  cases r with
  | doubleQuoted | singleQuoted | backQuoted =>
      cases h
      exact ⟨rfl, rfl, by decide⟩
  | _ => cases h

/-! ## Steps inside -/

variable {u : List Char}

theorem not_isPlainChar_of_isQuote {c : Char} (h : isQuote c) : isPlainChar c = false := by
  simp [isPlainChar, h]

theorem Inside.append {v : List Char} (hu : Inside u) (hv : Inside v) : Inside (u ++ v) := by
  induction hu with
  | nil => exact hv
  | char hc _ ih => exact .char hc ih
  | quoted hq hw _ ih =>
      rw [List.cons_append, List.append_assoc, List.cons_append]
      exact .quoted hq hw ih

theorem Inside.of_all (h : u.all isPlainChar) : Inside u := by
  induction u with
  | nil => exact .nil
  | cons c u ih =>
      rw [List.all_cons, Bool.and_eq_true] at h
      exact .char h.1 (ih h.2)

/-- A plain character is taken from the inside, or there is none. -/
theorem Inside.letter (hu : Inside u) {p : Char → Bool}
    (hp : ∀ c, isPlainChar c = false → p c = false) :
    (∃ c v, u = c :: v ∧ p c ∧ Inside v) ∨
      ∀ y c ds, u ++ '\x7d' :: y = c :: ds → p c = false := by
  cases hu with
  | nil =>
      right
      intro y c ds h
      cases h
      exact hp _ (by decide)
  | @char c v hc hv =>
      cases hpc : p c with
      | true => exact .inl ⟨c, v, rfl, hpc, hv⟩
      | false =>
          right
          intro y d ds h
          cases h
          exact hpc
  | quoted hq hw hv =>
      right
      intro y d ds h
      cases h
      exact hp _ (not_isPlainChar_of_isQuote hq)

/-- Plain characters are taken from the inside, or they do not stand there. -/
theorem Inside.literal (hu : Inside u) {l : List Char} (hl : l.all isPlainChar) :
    (∃ v, u = l ++ v ∧ Inside v) ∨ ∀ y, ¬ l <+: u ++ '\x7d' :: y := by
  induction l generalizing u with
  | nil => exact .inl ⟨u, rfl, hu⟩
  | cons c l ih =>
      rw [List.all_cons, Bool.and_eq_true] at hl
      rcases hu.letter (p := (· == c)) (by
        intro d hd
        rw [beq_eq_false_iff_ne]
        rintro rfl
        rw [hl.1] at hd
        cases hd) with ⟨d, v, rfl, hd, hv⟩ | hnot
      · cases eq_of_beq hd
        rcases ih hv hl.2 with ⟨w, rfl, hw⟩ | hnot
        · exact .inl ⟨w, rfl, hw⟩
        · exact .inr fun y h => hnot y (List.cons_prefix_cons.mp h).2
      · right
        rintro y ⟨ds, hds⟩
        have := hnot y c (l ++ ds) hds.symm
        simp at this

/-- White space is passed over inside. -/
theorem Inside.skipped (hu : Inside u) (t : Tightness) :
    ∃ v, Inside v ∧ ∀ y, Grammar.skipped t (u ++ '\x7d' :: y) = v ++ '\x7d' :: y := by
  cases t with
  | tight => exact ⟨u, hu, fun _ => rfl⟩
  | hidden => exact ⟨u, hu, fun _ => rfl⟩
  | free =>
      induction hu with
      | nil => exact ⟨[], .nil, fun _ => rfl⟩
      | @char c u hc hu ih =>
          cases hs : Grammar.isSpace c with
          | true =>
              obtain ⟨v, hv, hskip⟩ := ih
              refine ⟨v, hv, fun y => ?_⟩
              rw [← hskip y]
              exact List.dropWhile_cons_of_pos hs
          | false =>
              refine ⟨c :: u, .char hc hu, fun y => ?_⟩
              exact List.dropWhile_cons_of_neg (by simp [hs])
      | @quoted q w u hq hw hu _ =>
          refine ⟨q :: (w ++ q :: u), .quoted hq hw hu, fun y => ?_⟩
          refine List.dropWhile_cons_of_neg ?_
          simp only [isQuote, Bool.or_eq_true, beq_iff_eq] at hq
          rcases hq with (rfl | rfl) | rfl <;> decide

/-! ## Quoted texts -/

theorem reads_again_untilMatch {q : Char} {w ds : List Char} (hw : q ∉ w) :
    Reads grammar .hidden (.again (untilMatch (.literal [q]))) (w ++ q :: ds)
      (some (q :: ds, [])) := by
  induction w with
  | nil =>
      exact .again_none (.seq_first (.absent_none (.literal (l := [q]) rfl)))
  | cons c w ih =>
      obtain ⟨hc, hw⟩ := not_or.mp (List.mem_cons.not.mp hw)
      have hnot : ¬ [q] <+: c :: (w ++ q :: ds) := by
        rintro ⟨es, hes⟩
        cases hes
        exact hc rfl
      exact .again (.seq (.absent (.literal_none hnot)) (.letter rfl rfl)) (ih hw)

/-- A quoted text is read to its second quote. -/
theorem reads_quoted {q : Char} {w : List Char} (hw : q ∉ w) (ds : List Char) :
    Reads grammar .hidden (.once (quoted q)) (q :: (w ++ q :: ds)) (some (ds, [])) := by
  have hmany : Reads grammar .hidden (.once (.many (untilMatch (.literal [q])))) (w ++ q :: ds)
      (some (q :: ds, [])) :=
    (Grammar.reads_many_iff_again (by decide)).mpr (reads_again_untilMatch hw)
  exact .seq (.literal rfl) (.seq hmany (.literal rfl))

theorem reads_quoted_none {q : Char} {cs : List Char} (h : ∀ ds, cs ≠ q :: ds) :
    Reads grammar .hidden (.once (quoted q)) cs none := by
  refine .seq_first (.literal_none ?_)
  rintro ⟨ds, hds⟩
  exact h ds hds.symm

/-! ## Readings inside -/

/-- The expression of a query. -/
def partOf : Query Rule → Expression
  | .once e | .again e => e

/-- Whether the reading of a query inside a tag is the same whatever stands behind the brace. -/
def StaysInside (t : Tightness) (query : Query Rule) (u y : List Char) (out : Found Rule) : Prop :=
  (out = none ∧ ∀ y', Reads grammar t query (u ++ '\x7d' :: y') none) ∨
    ∃ v ts, Inside v ∧ out = some (v ++ '\x7d' :: y, ts) ∧
      ∀ y', Reads grammar t query (u ++ '\x7d' :: y') (some (v ++ '\x7d' :: y', ts))

variable {t : Tightness} {query : Query Rule} {out : Found Rule} {y : List Char}

theorem StaysInside.reads (h : StaysInside t query u y out) :
    Reads grammar t query (u ++ '\x7d' :: y) out := by
  rcases h with ⟨rfl, h⟩ | ⟨v, ts, -, rfl, h⟩
  · exact h y
  · exact h y

theorem StaysInside.fails (h : StaysInside t query u y none) (y' : List Char) :
    Reads grammar t query (u ++ '\x7d' :: y') none := by
  rcases h with ⟨-, h⟩ | ⟨v, ts, -, heq, -⟩
  · exact h y'
  · cases heq

theorem StaysInside.takes {ds : List Char} {ts : List (Tree Rule)}
    (h : StaysInside t query u y (some (ds, ts))) :
    ∃ v, Inside v ∧ ds = v ++ '\x7d' :: y ∧
      ∀ y', Reads grammar t query (u ++ '\x7d' :: y') (some (v ++ '\x7d' :: y', ts)) := by
  rcases h with ⟨heq, -⟩ | ⟨v, ts', hv, heq, h⟩
  · cases heq
  · cases heq
    exact ⟨v, hv, rfl, h⟩

/-- The text that a rule takes inside a tag does not depend on what stands behind the brace. -/
theorem take_inside {v : List Char} (h : v ++ '\x7d' :: y <:+ u ++ '\x7d' :: y) (y' : List Char) :
    (u ++ '\x7d' :: y').take ((u ++ '\x7d' :: y').length - (v ++ '\x7d' :: y').length) =
      u.take (u.length - v.length) := by
  have hle := h.length_le
  simp only [List.length_append, List.length_cons] at hle ⊢
  have hsub : u.length + (y'.length + 1) - (v.length + (y'.length + 1)) = u.length - v.length := by
    omega
  rw [hsub, List.take_append_of_le_length (Nat.sub_le _ _)]

theorem isPlainChar_of_letter? {e : Expression} {p : Char → Bool} (he : letter? e = some p)
    (h : isInner e) {c : Char} (hc : isPlainChar c = false) : p c = false := by
  have hspecial : c = '"' ∨ c = '\'' ∨ c = '\x60' ∨ c = '\x7d' := by
    simp only [isPlainChar, isQuote, Bool.and_eq_false_iff, Bool.not_eq_false', Bool.or_eq_true,
      beq_iff_eq, bne_eq_false_iff_eq, or_assoc] at hc
    exact hc
  cases e with
  | range first last =>
      cases he
      simp only [isInner, List.all_cons, List.all_nil, Bool.and_true, Bool.and_eq_true,
        Bool.not_eq_true'] at h
      rcases hspecial with rfl | rfl | rfl | rfl
      · exact h.1
      · exact h.2.1
      · exact h.2.2.1
      · exact h.2.2.2
  | space =>
      cases he
      rcases hspecial with rfl | rfl | rfl | rfl <;> decide
  | anyChar => cases h
  | _ => cases he

theorem staysInside_quoted {r : Rule} {q : Char} (hr : quoteOf? r = some q) (hu : Inside u)
    (t : Tightness) (y : List Char) : ∃ out, StaysInside t (.once (.rule r)) u y out := by
  obtain ⟨hbody, hmode, hq⟩ := body_of_quoteOf? hr
  have hrule : ∀ {cs out}, Reads grammar .hidden (.once (quoted q)) cs out →
      Reads grammar (t.inside (grammar.mode r)) (.once (grammar.body r)) cs out := by
    intro cs out h
    show Reads grammar (t.inside (mode r)) (.once (body r)) cs out
    rw [hbody, hmode]
    exact h
  have hnone : (∀ y ds, u ++ '\x7d' :: y ≠ q :: ds) →
      StaysInside t (.once (.rule r)) u y none :=
    fun h => .inl ⟨rfl, fun y' => .rule_none (hrule (reads_quoted_none (h y')))⟩
  cases hu with
  | nil =>
      refine ⟨_, hnone fun y ds h => ?_⟩
      cases h
      revert hq
      decide
  | char hc hv =>
      refine ⟨_, hnone fun y ds h => ?_⟩
      cases h
      rw [not_isPlainChar_of_isQuote hq] at hc
      cases hc
  | @quoted p w v hp hw hv =>
      by_cases hpq : p = q
      · subst hpq
        let taken := (p :: (w ++ p :: v)).take ((p :: (w ++ p :: v)).length - v.length)
        let us := shown grammar t r taken []
        refine ⟨some (v ++ '\x7d' :: y, us), .inr ⟨v, us, hv, rfl, fun y' => ?_⟩⟩
        have hread := hrule (reads_quoted hw (v ++ '\x7d' :: y'))
        have hsplit : p :: (w ++ p :: v) ++ '\x7d' :: y' =
            p :: (w ++ p :: (v ++ '\x7d' :: y')) := by simp
        have htaken := take_inside (u := p :: (w ++ p :: v)) (v := v) (y := y')
          ⟨p :: (w ++ [p]), by simp⟩ y'
        have := Reads.rule (hsplit ▸ hread)
        rw [htaken] at this
        exact this
      · refine ⟨_, hnone fun y ds h => ?_⟩
        cases h
        exact hpq rfl

/-- What is read inside a tag does not depend on what stands behind the brace that ends it. -/
theorem staysInside_of_reads {cs : List Char} (h : Reads grammar t query cs out)
    (hquery : isInner (partOf query)) (hu : Inside u) (hcs : cs = u ++ '\x7d' :: y) :
    StaysInside t query u y out := by
  induction h generalizing u with
  | @literal t l _ ds h =>
      rcases hu.literal hquery with ⟨v, rfl, hv⟩ | hnot
      · have hds : ds = v ++ '\x7d' :: y := by
          rw [h, List.append_assoc] at hcs
          exact List.append_cancel_left hcs
        exact .inr ⟨v, [], hv, by rw [hds], fun y' => .literal (List.append_assoc _ _ _)⟩
      · exact absurd ⟨ds, (hcs ▸ h).symm⟩ (hnot y)
  | @literal_none t l _ h =>
      rcases hu.literal hquery with ⟨v, rfl, hv⟩ | hnot
      · exact absurd (hcs ▸ ⟨_, (List.append_assoc _ _ _).symm⟩) h
      · exact .inl ⟨rfl, fun y' => .literal_none (hnot y')⟩
  | letter he h =>
      rcases hu.letter fun c hc => isPlainChar_of_letter? he hquery hc with
        ⟨d, v, rfl, hd, hv⟩ | hnot
      · cases hcs
        exact .inr ⟨v, [], hv, rfl, fun y' => .letter he hd⟩
      · rw [hnot y _ _ hcs.symm] at h
        cases h
  | letter_none he h =>
      rcases hu.letter fun c hc => isPlainChar_of_letter? he hquery hc with
        ⟨d, v, rfl, hd, hv⟩ | hnot
      · rw [h d _ hcs] at hd
        cases hd
      · exact .inl ⟨rfl, fun y' => .letter_none he (hnot y')⟩
  | endOfText | endOfText_none | absent | absent_none => cases hquery
  | seq ha hb iha ihb =>
      simp only [partOf, isInner, Bool.and_eq_true] at hquery
      obtain ⟨v, hv, rfl, hA⟩ := (iha hquery.1 hu hcs).takes
      obtain ⟨w, hw, hskip⟩ := hv.skipped _
      obtain ⟨v', hv', rfl, hB⟩ := (ihb hquery.2 hw (hskip y)).takes
      exact .inr ⟨v', _, hv', rfl, fun y' => .seq (hA y') (by rw [hskip]; exact hB y')⟩
  | seq_first ha iha =>
      simp only [partOf, isInner, Bool.and_eq_true] at hquery
      exact .inl ⟨rfl, fun y' => .seq_first ((iha hquery.1 hu hcs).fails y')⟩
  | seq_second ha hb iha ihb =>
      simp only [partOf, isInner, Bool.and_eq_true] at hquery
      obtain ⟨v, hv, rfl, hA⟩ := (iha hquery.1 hu hcs).takes
      obtain ⟨w, hw, hskip⟩ := hv.skipped _
      have hB := (ihb hquery.2 hw (hskip y)).fails
      exact .inl ⟨rfl, fun y' => .seq_second (hA y') (by rw [hskip]; exact hB y')⟩
  | alt_first ha iha =>
      simp only [partOf, isInner, Bool.and_eq_true] at hquery
      obtain ⟨v, hv, rfl, hA⟩ := (iha hquery.1 hu hcs).takes
      exact .inr ⟨v, _, hv, rfl, fun y' => .alt_first (hA y')⟩
  | alt_second ha hb iha ihb =>
      simp only [partOf, isInner, Bool.and_eq_true] at hquery
      have hA := (iha hquery.1 hu hcs).fails
      rcases ihb hquery.2 hu hcs with ⟨heq, hB⟩ | ⟨v, ts', hv, heq, hB⟩
      · exact .inl ⟨heq, fun y' => .alt_second (hA y') (hB y')⟩
      · exact .inr ⟨v, ts', hv, heq, fun y' => .alt_second (hA y') (hB y')⟩
  | many_none ha iha =>
      have hA := (iha hquery hu hcs).fails
      exact .inr ⟨u, [], hu, by rw [hcs], fun y' => .many_none (hA y')⟩
  | many ha hs iha ihs =>
      obtain ⟨v, hv, rfl, hA⟩ := (iha hquery hu hcs).takes
      obtain ⟨v', hv', rfl, hS⟩ := (ihs hquery hv rfl).takes
      exact .inr ⟨v', _, hv', rfl, fun y' => .many (hA y') (hS y')⟩
  | again_none ha iha =>
      obtain ⟨w, hw, hskip⟩ := hu.skipped _
      have hA := (iha hquery hw (by rw [hcs, hskip])).fails
      exact .inr ⟨u, [], hu, by rw [hcs], fun y' => .again_none (by rw [hskip]; exact hA y')⟩
  | again ha hs iha ihs =>
      obtain ⟨w, hw, hskip⟩ := hu.skipped _
      obtain ⟨v, hv, rfl, hA⟩ := (iha hquery hw (by rw [hcs, hskip])).takes
      obtain ⟨v', hv', rfl, hS⟩ := (ihs hquery hv rfl).takes
      exact .inr ⟨v', _, hv', rfl, fun y' => .again (by rw [hskip]; exact hA y') (hS y')⟩
  | optional_none ha iha =>
      have hA := (iha hquery hu hcs).fails
      exact .inr ⟨u, [], hu, by rw [hcs], fun y' => .optional_none (hA y')⟩
  | optional ha iha =>
      obtain ⟨v, hv, rfl, hA⟩ := (iha hquery hu hcs).takes
      exact .inr ⟨v, _, hv, rfl, fun y' => .optional (hA y')⟩
  | rule hr ih =>
      subst hcs
      rcases isInner_body hquery with hquote | hbody
      · obtain ⟨q, hq⟩ := Option.isSome_iff_exists.mp hquote
        obtain ⟨out, hout⟩ := staysInside_quoted hq hu _ y
        cases hout.reads.det (.rule hr)
        exact hout
      · obtain ⟨v, hv, rfl, hR⟩ := (ih hbody hu rfl).takes
        have htaken := take_inside hr.suffix
        refine .inr ⟨v, _, hv, rfl, fun y' => ?_⟩
        have hread := Reads.rule (hR y')
        rw [htaken y'] at hread
        rw [htaken y]
        exact hread
  | rule_none hr ih =>
      subst hcs
      rcases isInner_body hquery with hquote | hbody
      · obtain ⟨q, hq⟩ := Option.isSome_iff_exists.mp hquote
        obtain ⟨out, hout⟩ := staysInside_quoted hq hu _ y
        cases hout.reads.det (.rule_none hr)
        exact hout
      · exact .inl ⟨rfl, fun y' => .rule_none ((ih hbody hu rfl).fails y')⟩

/-! ## Tags -/

/-- The braces that end a tag. -/
def closingOf? : Rule → Option (List Char)
  | .variableEnd | .variableTag | .superTag => some ['\x7d', '\x7d']
  | .tagEnd | .includeTag | .blockTag | .macroTag | .ifTag | .elifTag | .elseTag | .forTag
  | .filterTag | .setTag | .setGlobalTag | .endblockTag | .endmacroTag | .endifTag | .endforTag
  | .endfilterTag | .breakTag | .continueTag | .rawTag | .endrawTag => some ['\x7d']
  | _ => none

/-- Whether an expression takes the inside of a tag and the given braces behind it. -/
def isClosing (braces : List Char) : Expression → Bool
  | .literal l => l.drop (l.length - braces.length) == braces &&
      (l.take (l.length - braces.length)).all isPlainChar
  | .rule r => closingOf? r == some braces
  | .seq a b => isInner a && isClosing braces b
  | .alt a b => isClosing braces a && isClosing braces b
  | _ => false

theorem isClosing_body {r : Rule} {braces : List Char} (h : closingOf? r = some braces) :
    isClosing braces (body r) := by
  cases r with
  | variableEnd | variableTag | superTag | tagEnd | includeTag | blockTag | macroTag | ifTag
  | elifTag | elseTag | forTag | filterTag | setTag | setGlobalTag | endblockTag | endmacroTag
  | endifTag | endforTag | endfilterTag | breakTag | continueTag | rawTag | endrawTag =>
      cases h
      decide
  | _ => cases h

/-- Whether an expression fails at the start of a text, whatever stands behind the text. -/
def Refuses (t : Tightness) (e : Expression) (x : List Char) : Prop :=
  ∀ y, Reads grammar t (.once e) (x ++ y) none

/-- Whether an expression takes a text up to a rest, whatever stands behind the text. -/
def Passes (t : Tightness) (e : Expression) (x rest : List Char) : Prop :=
  ∃ ts, ∀ y, Reads grammar t (.once e) (x ++ y) (some (rest ++ y, ts))

/-- Whether what an expression makes of a text is the same whatever stands behind: it takes the
text, or it fails. -/
def IsSettled (t : Tightness) (e : Expression) (x : List Char) : Prop :=
  Refuses t e x ∨ Passes t e x []

section Passing

variable {a b : Expression} {r : Rule} {x rest last : List Char}

theorem Refuses.rule (h : Refuses (t.inside (mode r)) (body r) x) : Refuses t (.rule r) x :=
  fun y => .rule_none (h y)

theorem Passes.rule (h : Passes (t.inside (mode r)) (body r) x rest) :
    Passes t (.rule r) x rest := by
  obtain ⟨ts, h⟩ := h
  refine ⟨shown grammar t r (x.take (x.length - rest.length)) ts, fun y => ?_⟩
  have htaken : (x ++ y).take ((x ++ y).length - (rest ++ y).length) =
      x.take (x.length - rest.length) := by
    rw [List.length_append, List.length_append, Nat.add_sub_add_right,
      List.take_append_of_le_length (Nat.sub_le _ _)]
  have hread := Reads.rule (h y)
  rwa [htaken] at hread

theorem Refuses.seq_first (h : Refuses t a x) : Refuses t (.seq a b) x :=
  fun y => .seq_first (h y)

theorem Refuses.seq_second (ha : Passes .tight a x rest) (hb : Refuses .tight b rest) :
    Refuses .tight (.seq a b) x := by
  obtain ⟨ts, ha⟩ := ha
  exact fun y => .seq_second (ha y) (hb y)

theorem Passes.seq (ha : Passes .tight a x rest) (hb : Passes .tight b rest last) :
    Passes .tight (.seq a b) x last := by
  obtain ⟨ts, ha⟩ := ha
  obtain ⟨us, hb⟩ := hb
  exact ⟨us ++ ts, fun y => .seq (ha y) (hb y)⟩

theorem Refuses.alt (ha : Refuses t a x) (hb : Refuses t b x) : Refuses t (.alt a b) x :=
  fun y => .alt_second (ha y) (hb y)

theorem Passes.alt_first (ha : Passes t a x rest) : Passes t (.alt a b) x rest := by
  obtain ⟨ts, ha⟩ := ha
  exact ⟨ts, fun y => .alt_first (ha y)⟩

theorem Passes.alt_second (ha : Refuses t a x) (hb : Passes t b x rest) :
    Passes t (.alt a b) x rest := by
  obtain ⟨ts, hb⟩ := hb
  exact ⟨ts, fun y => .alt_second (ha y) (hb y)⟩

theorem Passes.literal (l rest : List Char) : Passes t (.literal l) (l ++ rest) rest :=
  ⟨[], fun _ => .literal (List.append_assoc _ _ _)⟩

theorem IsSettled.rule (h : IsSettled (t.inside (mode r)) (body r) x) : IsSettled t (.rule r) x :=
  h.imp Refuses.rule Passes.rule

theorem IsSettled.alt (ha : IsSettled t a x) (hb : IsSettled t b x) :
    IsSettled t (.alt a b) x := by
  rcases ha with ha | ha
  · exact hb.imp ha.alt (.alt_second ha)
  · exact .inr ha.alt_first

/-- What is settled by a text has one reading in front of everything. -/
theorem IsSettled.reads {y : List Char} (h : IsSettled t a x)
    (ha : Reads grammar t (.once a) (x ++ y) out) :
    (out = none ∧ ∀ y', Reads grammar t (.once a) (x ++ y') none) ∨
      ∃ ts, out = some (y, ts) ∧ ∀ y', Reads grammar t (.once a) (x ++ y') (some (y', ts)) := by
  rcases h with h | ⟨ts, h⟩
  · exact .inl ⟨ha.det (h y), h⟩
  · exact .inr ⟨ts, ha.det (h y), h⟩

end Passing

theorem Inside.ne_brace {c : Char} {v : List Char} (h : Inside (c :: v)) : c ≠ '\x7d' := by
  rintro rfl
  cases h with
  | char hc _ => revert hc; decide
  | quoted hq _ _ => revert hq; decide

theorem isSettled_literal {l ks : List Char} (he : isClosing ('\x7d' :: ks) (.literal l))
    (hu : Inside u) (t : Tightness) : IsSettled t (.literal l) (u ++ '\x7d' :: ks) := by
  simp only [isClosing, Bool.and_eq_true, beq_iff_eq] at he
  obtain ⟨l', hl, hplain⟩ : ∃ l', l = l' ++ '\x7d' :: ks ∧ l'.all isPlainChar := by
    refine ⟨_, ?_, he.2⟩
    conv_lhs => rw [← List.take_append_drop (l.length - ('\x7d' :: ks).length) l, he.1]
  subst hl
  rcases hu.literal hplain with ⟨v, rfl, hv⟩ | hnot
  · cases v with
    | nil =>
        rw [List.append_nil]
        have := Passes.literal (t := t) (l' ++ '\x7d' :: ks) []
        rw [List.append_nil] at this
        exact .inr this
    | cons c v =>
        refine .inl fun y => .literal_none ?_
        rw [List.append_assoc, List.append_assoc, List.prefix_append_right_inj]
        exact fun h => hv.ne_brace (List.cons_prefix_cons.mp h).1.symm
  · refine .inl fun y => .literal_none fun h => hnot (ks ++ y) ?_
    rw [List.append_assoc] at h
    exact (List.prefix_append _ _).trans h

theorem isSettled_seq {a b : Expression} {v w ks : List Char} {ts : List (Tree Rule)}
    (hA : ∀ y, Reads grammar t (.once a) (u ++ '\x7d' :: y) (some (v ++ '\x7d' :: y, ts)))
    (hskip : ∀ y, Grammar.skipped t (v ++ '\x7d' :: y) = w ++ '\x7d' :: y)
    (hB : IsSettled t b (w ++ '\x7d' :: ks)) : IsSettled t (.seq a b) (u ++ '\x7d' :: ks) := by
  have hassoc : ∀ (v y : List Char), v ++ '\x7d' :: ks ++ y = v ++ '\x7d' :: (ks ++ y) := by simp
  rcases hB with hB | ⟨us, hB⟩
  · refine .inl fun y => .seq_second (hassoc u y ▸ hA (ks ++ y)) ?_
    rw [hskip, ← hassoc]
    exact hB y
  · refine .inr ⟨us ++ ts, fun y => .seq (hassoc u y ▸ hA (ks ++ y)) ?_⟩
    rw [hskip, ← hassoc]
    exact hB y

/-- A tag is read to the braces that end it, and no further. -/
theorem isSettled_of_reads {e : Expression} {cs ks : List Char}
    (h : Reads grammar t (.once e) cs out) (he : isClosing ('\x7d' :: ks) e) (hu : Inside u)
    (hcs : cs = u ++ '\x7d' :: (ks ++ y)) : IsSettled t e (u ++ '\x7d' :: ks) := by
  generalize hquery : Query.once e = query at h
  induction h generalizing e u with
  | literal | literal_none =>
      cases hquery
      exact isSettled_literal he hu _
  | letter hletter | letter_none hletter =>
      cases hquery
      rename Expression => e
      cases e with
      | range | anyChar | space => cases he
      | _ => cases hletter
  | seq ha _ _ ihb | seq_second ha _ _ ihb =>
      cases hquery
      rw [isClosing, Bool.and_eq_true] at he
      obtain ⟨v, hv, rfl, hA⟩ := (staysInside_of_reads ha he.1 hu hcs).takes
      obtain ⟨w, hw, hskip⟩ := hv.skipped _
      exact isSettled_seq hA hskip (ihb he.2 hw (hskip _) rfl)
  | seq_first ha _ =>
      cases hquery
      rw [isClosing, Bool.and_eq_true] at he
      refine .inl fun y' => .seq_first ?_
      rw [List.append_assoc]
      exact (staysInside_of_reads ha he.1 hu hcs).fails (ks ++ y')
  | alt_first ha iha =>
      cases hquery
      rw [isClosing, Bool.and_eq_true] at he
      rcases iha he.1 hu hcs rfl with hA | ⟨ts, hA⟩
      · have hnone := hA y
        rw [List.append_assoc] at hnone
        cases (hcs ▸ ha).det hnone
      · exact .inr ⟨ts, fun y' => .alt_first (hA y')⟩
  | alt_second ha hb iha ihb =>
      cases hquery
      rw [isClosing, Bool.and_eq_true] at he
      exact (iha he.1 hu hcs rfl).alt (ihb he.2 hu hcs rfl)
  | rule hr ih | rule_none hr ih =>
      cases hquery
      rw [isClosing, beq_iff_eq] at he
      exact .rule (ih (isClosing_body he) hu hcs rfl)
  | again_none | again => cases hquery
  | _ =>
      cases hquery
      cases he

/-- What a tag ends with settles it for every expression that ends with a tag. -/
theorem isSettled_of_inside {e : Expression} {ks : List Char} (he : isClosing ('\x7d' :: ks) e)
    (hfits : e.fits ranking) (hu : Inside u) (t : Tightness) :
    IsSettled t e (u ++ '\x7d' :: ks) := by
  obtain ⟨out, hout⟩ := Grammar.exists_reads rankedBy_ranking t hfits (u ++ '\x7d' :: ks)
  exact isSettled_of_reads (y := []) hout he hu (by rw [List.append_nil])

end Stencil.Language
