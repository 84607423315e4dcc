/-
The parser finds what the grammar reads.

The calls of the rules at one place go through a dozen levels at most, so the parser has far more
fuel than it needs: it gives a tree exactly if the grammar reads the whole text.
-/
import Mathlib
import Stencil.Language.Grammar
import Stencil.Proofs.Grammar.Fuel

namespace Stencil.Language

open Peg (chain)
open Stencil.Grammar (Reads Found Query RankedBy)

/-- The levels of the rules: at one place, a rule calls rules of lower levels only. -/
def level : Rule → Nat
  | .string | .path | .basicOp | .comparisonOp | .arrayFilter | .kwarg | .fnCall | .macroDefArg
  | .macroFn | .macroCall | .testCall | .blockStart | .commentText | .includeTag | .commentTag
  | .blockTag | .macroTag | .ifTag | .elifTag | .elseTag | .forTag | .filterTag | .setTag
  | .setGlobalTag | .endblockTag | .endmacroTag | .endifTag | .endforTag | .endfilterTag
  | .breakTag | .continueTag | .variableTag | .superTag | .rawTag | .endrawTag | .extendsTag
  | .importMacroTag => 2
  | .stringConcat | .kwargs | .macroDefArgs | .macroFnWrapper | .testNot | .test | .text | .rawText
  | .raw | .filterSection | .forloop | .macroIf | .blockIf | .forIf | .filterSectionIf
  | .contentIf | .block | .macroDefinition | .topImports => 3
  | .basicVal | .stringExprFilter | .filterSectionContent | .macroContent | .blockContent
  | .forContent | .content => 4
  | .basicExpr | .inCondContainer => 5
  | .basicExprFilter => 6
  | .comparisonVal | .inCond => 7
  | .comparisonExpr => 8
  | .logicVal => 9
  | .logicExpr => 10
  | .testArg => 11
  | .testArgs => 12
  | _ => 1

/-- The ranking of the rules that a template is made of. -/
def ranking : Ranking Rule where
  covers r := r != .template
  mayBeEmpty r := r == .rawText || r == .endOfInput
  rank r := 14 * level r
  depth := 1500

theorem rankedBy_ranking : RankedBy grammar ranking where
  fits_body r h := by
    revert h
    cases r <;> decide
  empty_body r h := by
    revert h
    cases r <;> decide
  rank_body r h := by
    revert h
    cases r <;> decide
  depth_pos := by decide

/-- What a template is made of, behind the start of the text. -/
def wholeTemplate : Expression :=
  chain [.many (.rule .commentTag), .optional (.rule .topImports),
    .many (oneOf [.content, .macroDefinition]), .rule .endOfInput]

/-- A template is read to its end. -/
theorem eq_nil_of_reads_wholeTemplate {text ds : List Char} {ts : List (Tree Rule)}
    (h : Reads grammar .tight (.once wholeTemplate) text (some (ds, ts))) : ds = [] := by
  obtain ⟨_, _, _, -, h, -⟩ := Grammar.reads_seq_some.mp h
  obtain ⟨_, _, _, -, h, -⟩ := Grammar.reads_seq_some.mp h
  obtain ⟨_, _, _, -, h, -⟩ := Grammar.reads_seq_some.mp h
  obtain ⟨_, h, -⟩ := Grammar.reads_rule_some.mp h
  cases h with
  | endOfText => rfl
  | letter he => cases he

/-- The tree of a reading. -/
def templateTree (text : List Char) (ts : List (Tree Rule)) : Tree Rule :=
  .node .template text ts.reverse

theorem attempt_template {text : List Char} {out : Found Rule}
    (h : Reads grammar .tight (.once wholeTemplate) text out) :
    (Grammar.attempt grammar (1500 * (text.length + 1)) ⟨.free, false⟩ (.rule .template)
        ⟨0, text⟩ 0).1 =
      out.map fun found => (⟨text.length, []⟩, [templateTree text found.2]) := by
  have hneed : (Query.once wholeTemplate).need ranking text.length ≤
      1500 * text.length + 1498 := by
    have hrank : wholeTemplate.rank ranking ≤ 1498 := by decide
    simp only [Query.need, ranking] at hrank ⊢
    omega
  have hgives := h.gives rankedBy_ranking (by decide) _ hneed
  have hfuel : 1500 * (text.length + 1) = 1500 * text.length + 1498 + 2 := by omega
  have hpos : 0 < 1500 * text.length + 1498 := by omega
  rw [hfuel]
  generalize 1500 * text.length + 1498 = n at hgives hpos ⊢
  obtain ⟨n, rfl⟩ := Nat.exists_eq_add_of_le' hpos
  have hmode : grammar.mode .template = .compound := rfl
  have hbody : grammar.body .template = .seq .startOfText wholeTemplate := rfl
  have hstart : Grammar.attempt grammar (n + 1) ⟨.tight, false⟩ .startOfText ⟨0, text⟩ 0 =
      (some (⟨0, text⟩, []), 0) := rfl
  rw [Grammar.attempt_rule, hmode, hbody, Grammar.Tightness.inside, Grammar.attempt_seq, hstart]
  dsimp only [Grammar.Place.skip]
  cases out with
  | none =>
      obtain ⟨f, hrun⟩ := hgives.attempt_none false 0 0
      rw [hrun]
      rfl
  | some found =>
      obtain ⟨ds, ts⟩ := found
      cases eq_nil_of_reads_wholeTemplate h
      obtain ⟨f, hrun⟩ := hgives.attempt_some false 0 0
      rw [hrun]
      simp [templateTree, Grammar.shown, hmode, Grammar.Tightness.seen]

theorem parse_of_reads {text : List Char} {ts : List (Tree Rule)}
    (h : Reads grammar .tight (.once wholeTemplate) text (some ([], ts))) :
    parse text = .ok (templateTree text ts) := by
  have hattempt := attempt_template h
  rw [parse, Grammar.parse]
  generalize Grammar.attempt grammar (1500 * (text.length + 1)) ⟨.free, false⟩ (.rule .template)
    ⟨0, text⟩ 0 = found at hattempt ⊢
  obtain ⟨o, furthest⟩ := found
  obtain rfl : o = _ := hattempt
  rfl

/-- The parser gives a tree for the texts that are templates by the rules, and no others. -/
theorem parse_eq_ok_iff {text : List Char} {tree : Tree Rule} :
    parse text = .ok tree ↔
      ∃ ts, Reads grammar .tight (.once wholeTemplate) text (some ([], ts)) ∧
        tree = templateTree text ts := by
  constructor
  · intro h
    obtain ⟨out, hout⟩ := Grammar.exists_reads rankedBy_ranking .tight
      (a := wholeTemplate) (by decide) text
    have hattempt := attempt_template hout
    rw [parse, Grammar.parse] at h
    generalize Grammar.attempt grammar (1500 * (text.length + 1)) ⟨.free, false⟩
      (.rule .template) ⟨0, text⟩ 0 = found at hattempt h
    obtain ⟨o, furthest⟩ := found
    obtain rfl : o = _ := hattempt
    cases out with
    | none => cases h
    | some found =>
        obtain ⟨ds, ts⟩ := found
        cases eq_nil_of_reads_wholeTemplate hout
        cases h
        exact ⟨ts, hout, rfl⟩
  · rintro ⟨ts, h, rfl⟩
    exact parse_of_reads h

end Stencil.Language
