/-
Indented lines.

A text is split into lines in one way only: every line ends with its first line feed, and only the
last line may lack one.  An indent without a line feed makes of such a row of lines another one, so
the lines of an indented text are the indented lines of the text, with their terminators.  A line
that is more than its terminator is still more than its terminator with an indent in front, even if
the indent ends with a carriage return; so an indent can be taken off again, and of two indents, one
put on after the other, the outer one stands in front.
-/
import Mathlib
import Stencil.Proofs.Text.Search
import Stencil.Text.Lines

namespace Stencil.Text

variable {indent line text : List Char} {rows : List (List Char)}

/-! ## The split into lines -/

/-- Lines that follow each other in a text: each has one line feed, at its end, and only the last
may lack it. -/
inductive AreLines : List (List Char) → Prop
  | nil : AreLines []
  | last {body : List Char} (hne : body ≠ []) (hbody : '\n' ∉ body) : AreLines [body]
  | cons {body : List Char} {rows : List (List Char)} (hbody : '\n' ∉ body)
      (hrows : AreLines rows) : AreLines ((body ++ ['\n']) :: rows)

theorem AreLines.cons_char {c : Char} (hc : c ≠ '\n') (h : AreLines (line :: rows)) :
    AreLines ((c :: line) :: rows) := by
  cases h with
  | last _ hbody => exact .last (List.cons_ne_nil _ _) (by simp [hbody, hc.symm])
  | @cons body _ hbody hrows => exact @AreLines.cons (c :: body) _ (by simp [hbody, hc.symm]) hrows

theorem areLines_lines (text : List Char) : AreLines (lines text) := by
  induction text with
  | nil => exact .nil
  | cons c text ih =>
      rw [lines]
      split
      next => exact @AreLines.cons [] _ List.not_mem_nil ih
      next hc =>
        split
        next => exact .last (by simp) (by simpa using Ne.symm hc)
        next line rest hlines =>
          rw [hlines] at ih
          exact ih.cons_char hc

/-- Nothing gets lost between the lines. -/
theorem flatten_lines (text : List Char) : (lines text).flatten = text := by
  induction text with
  | nil => rfl
  | cons c text ih =>
      rw [lines]
      split
      next hc => simp [ih, hc]
      next =>
        split
        next hlines =>
          rw [hlines] at ih
          simp [← ih]
        next line rest hlines =>
          rw [hlines] at ih
          simp [← ih]

theorem lines_of_notMem {body : List Char} (hne : body ≠ []) (hbody : '\n' ∉ body) :
    lines body = [body] := by
  induction body with
  | nil => exact absurd rfl hne
  | cons c body ih =>
      obtain ⟨hc, hrest⟩ := List.ne_and_not_mem_of_not_mem_cons hbody
      cases body with
      | nil => simp [lines, hc.symm]
      | cons d body => rw [lines, if_neg hc.symm, ih (List.cons_ne_nil _ _) hrest]

theorem lines_append {body : List Char} (hbody : '\n' ∉ body) (rest : List Char) :
    lines ((body ++ ['\n']) ++ rest) = (body ++ ['\n']) :: lines rest := by
  induction body with
  | nil => simp [lines]
  | cons c body ih =>
      obtain ⟨hc, hrest⟩ := List.ne_and_not_mem_of_not_mem_cons hbody
      rw [List.cons_append, List.cons_append, lines, if_neg hc.symm, ih hrest]

/-- There is no other way to split a text into lines. -/
theorem AreLines.lines_flatten (h : AreLines rows) : lines rows.flatten = rows := by
  induction h with
  | nil => rfl
  | last hne hbody => simpa using lines_of_notMem hne hbody
  | cons hbody _ ih => rw [List.flatten_cons, lines_append hbody, ih]

/-! ## Indented lines -/

theorem isBareLine_iff : isBareLine line ↔ line = ['\n'] ∨ line = ['\r', '\n'] := by
  simp [isBareLine]

theorem indentLine_of_bare (h : isBareLine line) : indentLine indent line = line := if_pos h

theorem indentLine_of_not_bare (h : ¬ isBareLine line) :
    indentLine indent line = indent ++ line := if_neg h

/-- An indent in front of a line leaves no bare line: what there is in front of the terminator
stays in front of it. -/
theorem not_isBareLine_append (hindent : '\n' ∉ indent) (h : ¬ isBareLine line) :
    ¬ isBareLine (indent ++ line) := by
  rw [isBareLine_iff] at h ⊢
  rintro (hbare | hbare)
  · rcases List.append_eq_singleton_iff.mp hbare with ⟨-, hline⟩ | ⟨rfl, -⟩
    · exact h (.inl hline)
    · exact hindent (List.mem_singleton_self _)
  · rcases List.append_eq_cons_iff.mp hbare with ⟨-, hline⟩ | ⟨rest, rfl, hrest⟩
    · exact h (.inr hline)
    · rcases List.append_eq_singleton_iff.mp hrest.symm with ⟨-, hline⟩ | ⟨rfl, -⟩
      · exact h (.inl hline)
      · exact hindent (by simp)

theorem AreLines.map_indentLine (hindent : '\n' ∉ indent) (h : AreLines rows) :
    AreLines (rows.map (indentLine indent)) := by
  induction h with
  | nil => exact .nil
  | @last body hne hbody =>
      have hbare : ¬ isBareLine body := by
        rw [isBareLine_iff]
        rintro (rfl | rfl) <;> simp at hbody
      rw [List.map_singleton, indentLine_of_not_bare hbare]
      exact .last (by simp [hne]) (by simp [hindent, hbody])
  | @cons body rows hbody _ ih =>
      rw [List.map_cons]
      by_cases hbare : isBareLine (body ++ ['\n'])
      · rw [indentLine_of_bare hbare]
        exact .cons hbody ih
      · rw [indentLine_of_not_bare hbare, ← List.append_assoc]
        exact .cons (by simp [hindent, hbody]) ih

theorem indentLines_eq (indent text : List Char) :
    indentLines indent text = ((lines text).map (indentLine indent)).flatten := List.flatMap_def

theorem lines_indentLines (hindent : '\n' ∉ indent) (text : List Char) :
    lines (indentLines indent text) = (lines text).map (indentLine indent) := by
  rw [indentLines_eq]
  exact ((areLines_lines text).map_indentLine hindent).lines_flatten

/-- An empty indent leaves a text as it is. -/
theorem indentLines_nil (text : List Char) : indentLines [] text = text := by
  have hline : indentLine [] = id := by
    funext line
    simp [indentLine]
  rw [indentLines_eq, hline, List.map_id, flatten_lines]

/-! ## Terminators -/

/-- What a line ends with: a line feed, with the carriage return in front of it, or nothing. -/
def terminator (line : List Char) : List Char :=
  if line.getLast? = some '\n' then
    if line.dropLast.getLast? = some '\r' then ['\r', '\n'] else ['\n']
  else []

/-- A carriage return at the end of an indent joins no terminator, since a line feed on its own is
not indented. -/
theorem terminator_indentLine (hindent : '\n' ∉ indent) (line : List Char) :
    terminator (indentLine indent line) = terminator line := by
  by_cases hbare : isBareLine line
  · rw [indentLine_of_bare hbare]
  · rw [indentLine_of_not_bare hbare]
    rcases List.eq_nil_or_concat line with rfl | ⟨front, c, rfl⟩
    · have hlast : indent.getLast? ≠ some '\n' := fun h => hindent (List.mem_of_getLast? h)
      simp [terminator, hlast]
    · by_cases hc : c = '\n'
      · have hfront : front ≠ [] := by
          rintro rfl
          exact hbare (isBareLine_iff.mpr (.inl (by simp [hc])))
        have hlast : (indent ++ front).getLast? = front.getLast? :=
          List.getLast?_append_of_ne_nil _ hfront
        simp [terminator, ← List.append_assoc, hlast]
      · simp [terminator, ← List.append_assoc, hc]

/-! ## Taking an indent off -/

/-- One line without its indent, unless it is bare. -/
def outdentLine (indent line : List Char) : List Char :=
  if isBareLine line then line else (strip? indent line).getD line

/-- Takes an indent off every line that is not bare. -/
def outdentLines (indent text : List Char) : List Char :=
  (lines text).flatMap (outdentLine indent)

theorem outdentLine_indentLine (hindent : '\n' ∉ indent) (line : List Char) :
    outdentLine indent (indentLine indent line) = line := by
  by_cases hbare : isBareLine line
  · rw [indentLine_of_bare hbare, outdentLine, if_pos hbare]
  · rw [indentLine_of_not_bare hbare, outdentLine, if_neg (not_isBareLine_append hindent hbare),
      strip?_append, Option.getD_some]

theorem outdentLines_indentLines (hindent : '\n' ∉ indent) (text : List Char) :
    outdentLines indent (indentLines indent text) = text := by
  have hline : outdentLine indent ∘ indentLine indent = id :=
    funext (outdentLine_indentLine hindent)
  rw [outdentLines, lines_indentLines hindent, List.flatMap_def, List.map_map, hline, List.map_id,
    flatten_lines]

/-! ## One indent after another -/

theorem indentLine_indentLine (hindent : '\n' ∉ indent) (outer line : List Char) :
    indentLine outer (indentLine indent line) = indentLine (outer ++ indent) line := by
  by_cases hbare : isBareLine line
  · simp only [indentLine_of_bare hbare]
  · rw [indentLine_of_not_bare hbare, indentLine_of_not_bare hbare,
      indentLine_of_not_bare (not_isBareLine_append hindent hbare), List.append_assoc]

theorem indentLines_indentLines (hindent : '\n' ∉ indent) (outer text : List Char) :
    indentLines outer (indentLines indent text) = indentLines (outer ++ indent) text := by
  have hline : indentLine outer ∘ indentLine indent = indentLine (outer ++ indent) :=
    funext (indentLine_indentLine hindent outer)
  rw [indentLines_eq outer, lines_indentLines hindent, List.map_map, hline, ← indentLines_eq]

/-! ## Result -/

/-- An indent without line feeds keeps the number of the lines and the terminator of each, and
stands in front of exactly the lines that are more than their terminators.  Taking it off line by
line gives the text back, and what is indented again is indented once, by the outer indent with the
inner one behind it. -/
theorem indentLines_exact (hindent : '\n' ∉ indent) (text : List Char) :
    (lines (indentLines indent text)).length = (lines text).length ∧
    (lines (indentLines indent text)).map terminator = (lines text).map terminator ∧
    (∀ (i : Nat) line, (lines text)[i]? = some line → (lines (indentLines indent text))[i]? =
      some (if line = ['\n'] ∨ line = ['\r', '\n'] then line else indent ++ line)) ∧
    outdentLines indent (indentLines indent text) = text ∧
    ∀ outer, indentLines outer (indentLines indent text) = indentLines (outer ++ indent) text := by
  refine ⟨?_, ?_, fun i line hline => ?_, outdentLines_indentLines hindent text,
    fun outer => indentLines_indentLines hindent outer text⟩
  · rw [lines_indentLines hindent, List.length_map]
  · have hterminator : terminator ∘ indentLine indent = terminator :=
      funext (terminator_indentLine hindent)
    rw [lines_indentLines hindent, List.map_map, hterminator]
  · rw [lines_indentLines hindent, List.getElem?_map, hline, Option.map_some, indentLine]
    simp only [isBareLine_iff]

/-- A text with both terminators, a blank line of spaces and no line feed at its end, and an indent
that ends with a carriage return. -/
theorem indentLines_exact_mixedText :
    '\n' ∉ ['>', '\r'] ∧
      indentLines ['>', '\r'] "a\n\r\n\n \nb".toList = ">\ra\n\r\n\n>\r \n>\rb".toList ∧
      outdentLines ['>', '\r'] ">\ra\n\r\n\n>\r \n>\rb".toList = "a\n\r\n\n \nb".toList := by
  have hindent : '\n' ∉ ['>', '\r'] := by decide
  have htext : indentLines ['>', '\r'] "a\n\r\n\n \nb".toList =
      ">\ra\n\r\n\n>\r \n>\rb".toList := by decide
  obtain ⟨-, -, -, houtdent, -⟩ := indentLines_exact hindent "a\n\r\n\n \nb".toList
  rw [htext] at houtdent
  exact ⟨hindent, htext, houtdent⟩

end Stencil.Text
