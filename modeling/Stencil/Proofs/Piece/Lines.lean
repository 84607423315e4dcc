/-
The lines of a rejected text.

What is checked of a template is its text without the tags, and the position of a syntax error is a
position there.  A tag may spread over lines, with white space around its name, and the breaks inside
it are gone with it.  So the line of an error falls short of the line that the user sees by exactly
the breaks in the tags in front of the place, and tags that are put in front of a text move none of
its errors.  An error of another kind has no position at all.  Its line is then the first number with
a colon and a digit behind it that its words have in them, which come from the template.
-/
import Mathlib
import Stencil.Proofs.Piece.Leftmost
import Stencil.Proofs.Engine

namespace Stencil

open Stencil.Language (Sheet)

namespace Piece

variable {cs name rest x : List Char} {c : Char}

/-! ## What is left without the tags, and what goes with them -/

/-- The characters of a text that stand outside its tags. -/
def outside (cs : List Char) : List Char := write (fun _ => []) (scan 0 cs)

/-- The characters of a text that stand inside its tags, of which the first `skip` belong to one
already found. -/
def inside : (skip : Nat) → List Char → List Char
  | _, [] => []
  | skip + 1, c :: cs => c :: inside skip cs
  | 0, c :: cs =>
    match tag? (c :: cs) with
    | some (_, rest) => c :: inside (cs.length - rest.length) cs
    | none => inside 0 cs

theorem outside_nil : outside [] = [] := by
  rw [outside, scan]
  rfl

theorem outside_tagText (hx : TagText name x) (rest : List Char) :
    outside (x ++ rest) = outside rest := by
  rw [outside, scan_of_tag? (tag?_of_tagText hx rest)]
  rfl

theorem outside_char (h : tag? (c :: cs) = none) : outside (c :: cs) = c :: outside cs := by
  rw [outside, scan_of_not_tag? h]
  rfl

/-- The rest of a tag is inside it. -/
theorem inside_append (x rest : List Char) : inside x.length (x ++ rest) = x ++ inside 0 rest := by
  induction x with
  | nil => rfl
  | cons c x ih => rw [List.length_cons, List.cons_append, inside, ih, List.cons_append]

theorem inside_tagText (hx : TagText name x) (rest : List Char) :
    inside 0 (x ++ rest) = x ++ inside 0 rest := by
  have htag := tag?_of_tagText hx rest
  cases x with
  | nil => cases hx
  | cons c x =>
      rw [List.cons_append] at htag ⊢
      have hlength : (x ++ rest).length - rest.length = x.length := by simp
      rw [inside, htag]
      dsimp only
      rw [hlength, inside_append, List.cons_append]

theorem inside_char (h : tag? (c :: cs) = none) : inside 0 (c :: cs) = inside 0 cs := by
  rw [inside, h]

/-- Every character stands outside the tags or inside. -/
theorem count_outside_add_inside (cs : List Char) (c : Char) :
    (outside cs).count c + (inside 0 cs).count c = cs.count c := by
  have hcs := leftmost_scan cs
  generalize scan 0 cs = ps at hcs
  induction hcs with
  | nil => rfl
  | tag hx _ ih =>
      rw [outside_tagText hx, inside_tagText hx, List.count_append, List.count_append]
      omega
  | char hno _ ih =>
      have hnone := tag?_eq_none_iff_tagText.mpr hno
      rw [outside_char hnone, inside_char hnone, List.count_cons, List.count_cons]
      omega

/-- Tags in front of a text leave nothing outside. -/
theorem outside_flatten {tags : List (List Char)} (h : ∀ x ∈ tags, ∃ name, TagText name x)
    (cs : List Char) : outside (tags.flatten ++ cs) = outside cs := by
  induction tags with
  | nil => rfl
  | cons x tags ih =>
      obtain ⟨name, hx⟩ := h x List.mem_cons_self
      have hrest := ih fun y hy => h y (List.mem_cons_of_mem _ hy)
      rw [List.flatten_cons, List.append_assoc, outside_tagText hx, hrest]

/-! ## Places -/

/-- A place in what is left of a text is a place in the text: the one behind all tags in front of the
next character that is left. -/
theorem exists_place (cs : List Char) (n : Nat) :
    ∃ front back, cs = front ++ back ∧ tag? back = none ∧ outside front = (outside cs).take n := by
  have hcs := leftmost_scan cs
  generalize scan 0 cs = ps at hcs
  induction hcs generalizing n with
  | nil => exact ⟨[], [], rfl, rfl, by simp [outside_nil]⟩
  | @tag name x rest _ hx _ ih =>
      obtain ⟨front, back, rfl, hback, htake⟩ := ih n
      refine ⟨x ++ front, back, (List.append_assoc _ _ _).symm, hback, ?_⟩
      rw [outside_tagText hx, outside_tagText hx, htake]
  | @char c cs _ hno _ ih =>
      have hnone := tag?_eq_none_iff_tagText.mpr hno
      cases n with
      | zero => exact ⟨[], c :: cs, rfl, hnone, by simp [outside_nil]⟩
      | succ n =>
          obtain ⟨front, back, rfl, hback, htake⟩ := ih n
          -- A tag that starts here would start here in the whole text as well.
          have hfront : tag? (c :: front) = none := by
            refine tag?_eq_none_iff_tagText.mpr fun name x rest hx heq => ?_
            refine hno name x (rest ++ back) hx ?_
            rw [← List.append_assoc, ← heq, List.cons_append]
          refine ⟨c :: front, back, rfl, hback, ?_⟩
          rw [outside_char hfront, outside_char hnone, List.take_succ_cons, htake]

/-- The line of a place is its line in what is left, and the breaks in the tags in front of it. -/
theorem lineNumber_eq (front : List Char) :
    Text.lineNumber front =
      Text.lineNumber (outside front) + (inside 0 front).count '\n' := by
  have hcount := count_outside_add_inside front '\n'
  rw [Text.lineNumber, Text.lineNumber]
  omega

end Piece

/-! ## Remarks -/

namespace Remark

/-- A mark is a number in the text, with a colon and a digit behind it. -/
theorem exists_of_mark? {run text digits : List Char} (h : mark? run text = some digits) :
    ∃ before d behind, run.reverse ++ text = before ++ digits ++ ':' :: d :: behind ∧
      Text.isDigit d := by
  induction text generalizing run with
  | nil => cases h
  | cons c cs ih =>
      rw [mark?] at h
      split at h
      next hc =>
        obtain ⟨before, d, behind, heq, hd⟩ := ih h
        exact ⟨before, d, behind, by simpa using heq, hd⟩
      next =>
        split at h
        next hmark =>
          cases h
          simp only [Bool.and_eq_true, decide_eq_true_eq] at hmark
          obtain ⟨⟨rfl, -⟩, hnext⟩ := hmark
          cases cs with
          | nil => cases hnext
          | cons d behind => exact ⟨[], d, behind, rfl, hnext⟩
        next =>
          obtain ⟨before, d, behind, heq, hd⟩ := ih h
          refine ⟨run.reverse ++ c :: before, d, behind, ?_, hd⟩
          rw [List.reverse_nil, List.nil_append] at heq
          simp [heq]

/-- Whether a sentence names the line: the line is a number in its words, with a colon and a digit
behind it. -/
def Names (words : String) (line : Nat) : Prop :=
  ∃ before digits d behind, Text.quoteChars words.toList = before ++ digits ++ ':' :: d :: behind ∧
    Text.isDigit d ∧ Text.decimal? digits = some line

theorem names_of_line? {words : String} {line : Nat}
    (h : line? (.sentence words) = some (some line)) :
    Names words line := by
  rw [line?, Option.map_eq_some_iff] at h
  obtain ⟨digits, hdigits, h⟩ := h
  obtain ⟨before, d, behind, heq, hd⟩ := exists_of_mark? hdigits
  split at h
  next n hn =>
    split at h
    · cases h
      exact ⟨before, digits, d, behind, heq, hd, hn⟩
    · cases h
  next => cases h

/-- A line comes from a remark. -/
theorem exists_of_lineOf {remarks : List Remark} {line : Nat} (h : lineOf remarks = some line) :
    ∃ remark ∈ remarks, line? remark = some (some line) := by
  rw [lineOf, Option.join_eq_some_iff] at h
  exact List.exists_of_findSome?_eq_some h

end Remark

namespace EngineFault

/-- Only a syntax error has a position. -/
theorem eq_sentence_of_mem {fault : EngineFault} {remark : Remark} (h : remark ∈ fault.remarks)
    (hfault : ∀ key line, fault ≠ .defective key (.malformed line)) :
    ∃ words, remark = .sentence words := by
  cases fault with
  | defective key defect =>
      cases defect with
      | malformed line => exact absurd rfl (hfault key line)
      | _ =>
          rcases List.mem_cons.mp h with rfl | h
          · exact ⟨_, rfl⟩
          · exact ⟨_, List.mem_singleton.mp h⟩
  | _ => exact ⟨_, List.mem_singleton.mp h⟩

end EngineFault

/-! ## Errors of the check -/

namespace Language.Sheet

mutual

theorem blocksOfNode_eq_error {found : Dict (List Node)} {n : Node} {e : Defect}
    (h : blocksOfNode found n = .error e) : ∃ name, e = .duplicateBlock name := by
  cases n with
  | block opening name body closing =>
      rw [blocksOfNode] at h
      split at h
      · cases h
        exact ⟨name, rfl⟩
      · exact blocksOf_eq_error h
  | _ =>
      simp only [blocksOfNode] at h
      cases h

theorem blocksOf_eq_error {found : Dict (List Node)} {ns : List Node} {e : Defect}
    (h : blocksOf found ns = .error e) : ∃ name, e = .duplicateBlock name := by
  cases ns with
  | nil => cases h
  | cons n ns =>
      rw [blocksOf] at h
      rcases Activity.bind_eq_error.mp h with h | ⟨more, -, h⟩
      · exact blocksOfNode_eq_error h
      · exact blocksOf_eq_error h

end

theorem foldlM_addMacro_eq_error {found : Dict Macro} {ns : List Node} {e : Defect}
    (h : ns.foldlM addMacro found = .error e) : ∃ name, e = .duplicateMacro name := by
  induction ns generalizing found with
  | nil => cases h
  | cons n ns ih =>
      rcases Activity.bind_eq_error.mp h with h | ⟨more, -, h⟩
      · cases n with
        | macroDefinition opening name params body closing =>
            rw [addMacro] at h
            split at h
            · cases h
              exact ⟨name, rfl⟩
            · cases h
        | _ => cases h
      · exact ih h

/-- A text is malformed exactly if it does not follow the grammar, and the line is the one of the
furthest place that a rule was tried at. -/
theorem ofText_eq_malformed_iff {text : String} {line : Nat} :
    ofText text = .error (.malformed line) ↔
      ∃ furthest, parse text.toList = .error furthest ∧
        line = Text.lineNumber (text.toList.take furthest) := by
  unfold ofText
  -- The matcher is never unfolded: its fuel is a large number.
  generalize parse text.toList = parsed
  cases parsed with
  | error furthest =>
      constructor
      · intro h
        cases h
        exact ⟨furthest, rfl, rfl⟩
      · rintro ⟨_, h, rfl⟩
        cases h
        rfl
  | ok tree =>
      refine ⟨fun h => ?_, nofun⟩
      dsimp only at h
      generalize readTemplate tree = found at h
      cases found with
      | error problem => cases h
      | ok nodes =>
          exfalso
          rcases Activity.bind_eq_error.mp h with h | ⟨blocks, -, h⟩
          · obtain ⟨name, h⟩ := blocksOf_eq_error h
            cases h
          · rcases Activity.bind_eq_error.mp h with h | ⟨macros, -, h⟩
            · obtain ⟨name, h⟩ := foldlM_addMacro_eq_error h
              cases h
            · cases h

end Language.Sheet

namespace Engine

variable {key text : String}

theorem ofTexts_of_not_ofText {defect : Language.Defect} (h : Sheet.ofText text = .error defect) :
    ofTexts [(key, text)] = .error (.defective key defect) := by
  have hregister := register_of_not_ofText (key, text) h []
  rw [ofTexts, parseAll, List.foldlM_cons, hregister]
  rfl

theorem exists_of_forM_eq_error {ε α : Type} {f : α → Except ε Unit} {l : List α} {e : ε}
    (h : l.forM f = .error e) : ∃ a, f a = .error e := by
  induction l with
  | nil => cases h
  | cons a l ih =>
      rcases Activity.bind_eq_error.mp h with h | ⟨-, -, h⟩
      · exact ⟨a, h⟩
      · exact ih h

theorem checkParents_ne_defective {sheets : Dict Sheet} {start k : String} {fuel : Nat}
    {met : List String} (k' : String) (defect : Language.Defect) :
    checkParents sheets start fuel k met ≠ .error (.defective k' defect) := by
  induction fuel generalizing k met with
  | zero => simp [checkParents]
  | succ fuel ih =>
      rw [checkParents]
      split
      · simp
      · split
        · simp
        · split
          · exact ih
          · simp

theorem checkImports_ne_defective {sheets : Dict Sheet} {sheet : Sheet} (k k' : String)
    (defect : Language.Defect) : checkImports sheets k sheet ≠ .error (.defective k' defect) := by
  rw [checkImports]
  split <;> simp

/-- A check of one text blames the text only for what keeps it from being a sheet. -/
theorem ofText_of_ofTexts_eq_defective {k : String} {defect : Language.Defect}
    (h : ofTexts [(key, text)] = .error (.defective k defect)) :
    Sheet.ofText text = .error defect := by
  cases hsheet : Sheet.ofText text with
  | error found =>
      rw [ofTexts_of_not_ofText hsheet] at h
      cases h
      rfl
  | ok sheet =>
      exfalso
      have hregister := register_of_ofText (key, text) hsheet []
      have hall : parseAll [] [(key, text)] = .ok (Dict.insert key sheet []) := by
        rw [parseAll, List.foldlM_cons, hregister]
        rfl
      rw [ofTexts, hall] at h
      rcases Activity.bind_eq_error.mp h with h | ⟨sheets, -, h⟩
      · cases h
      rcases Activity.bind_eq_error.mp h with h | ⟨-, -, h⟩
      · obtain ⟨entry, h⟩ := exists_of_forM_eq_error h
        exact checkParents_ne_defective _ _ h
      rcases Activity.bind_eq_error.mp h with h | ⟨-, -, h⟩
      · obtain ⟨entry, h⟩ := exists_of_forM_eq_error h
        exact checkImports_ne_defective _ _ _ h
      · cases h

end Engine

namespace Template

open Piece (TagText outside inside)

variable {name text : String} {options : Options}

/-- What a text is compiled to is a matter of what is left of it, as far as it fails. -/
theorem compile_eq_error_iff {e : Error} :
    compile name text options = .error e ↔
      ∃ fault, Engine.ofTexts [(Engine.checkKey, String.ofList (outside text.toList))] =
        .error fault ∧ e = Engine.compileError name fault := by
  have hleft : Piece.withoutTags (Piece.ofText text) = String.ofList (outside text.toList) := rfl
  unfold compile
  dsimp only
  rw [hleft]
  generalize Engine.ofTexts _ = made
  cases made with
  | error fault =>
      constructor
      · intro h
        cases h
        exact ⟨fault, rfl, rfl⟩
      · rintro ⟨_, h, rfl⟩
        cases h
        rfl
  | ok engine => exact ⟨nofun, nofun⟩

/-- Tags in front of a text change nothing about its errors. -/
theorem compile_flatten_eq_error {tags : List (List Char)}
    (htags : ∀ x ∈ tags, ∃ name, TagText name x) (e : Error) :
    compile name (String.ofList (tags.flatten ++ text.toList)) options = .error e ↔
      compile name text options = .error e := by
  rw [compile_eq_error_iff, compile_eq_error_iff, String.toList_ofList,
    Piece.outside_flatten htags]

/-- The line of a syntax error is short of the line of its place by the breaks in the tags in front
of it. -/
theorem exists_place_of_parse (text : String) (furthest : Nat) :
    ∃ front back, text.toList = front ++ back ∧ Piece.tag? back = none ∧
      outside front = (outside text.toList).take furthest ∧
      Text.lineNumber front = Text.lineNumber ((outside text.toList).take furthest) +
        (inside 0 front).count '\n' := by
  obtain ⟨front, back, htext, hback, htake⟩ := Piece.exists_place text.toList furthest
  exact ⟨front, back, htext, hback, htake, htake ▸ Piece.lineNumber_eq front⟩

/-- The line of a syntax error. -/
theorem lineOf_malformed (line : Nat) :
    Remark.lineOf (EngineFault.defective Engine.checkKey (.malformed line)).remarks = some line := by
  have hnone : Remark.line? (.sentence ("Failed to parse '" ++ Engine.checkKey ++ "'")) = none := by
    decide +kernel
  rw [EngineFault.remarks, Remark.lineOf, List.findSome?_cons, hnone]
  rfl

/-! ## Result -/

/-- The line of an error.  Tags in front of a text leave its errors as they are, whatever breaks the
tags hold.  Where the text does not follow the grammar without its tags, the line is that of the
furthest place that was tried, less the breaks in the tags in front of that place; so it is right
exactly if there are none.  In all other cases the line is a number in the words of the fault, with a
colon and a digit behind it. -/
theorem compile_error_line (name text : String) (options : Options) :
    (∀ tags : List (List Char), (∀ x ∈ tags, ∃ name, TagText name x) → ∀ e,
      compile name (String.ofList (tags.flatten ++ text.toList)) options = .error e ↔
        compile name text options = .error e) ∧
    ∀ template message line,
      compile name text options = .error (.compile template message (some line)) →
      (∃ furthest front back, Language.parse (outside text.toList) = .error furthest ∧
        text.toList = front ++ back ∧ Piece.tag? back = none ∧
        outside front = (outside text.toList).take furthest ∧
        Text.lineNumber front = line + (inside 0 front).count '\n') ∨
      ∃ tree fault words, Language.parse (outside text.toList) = .ok tree ∧
        Engine.ofTexts [(Engine.checkKey, String.ofList (outside text.toList))] = .error fault ∧
        .sentence words ∈ fault.remarks ∧ Remark.Names words line := by
  refine ⟨fun tags htags e => compile_flatten_eq_error htags e, fun template message line h => ?_⟩
  obtain ⟨fault, hfault, he⟩ := compile_eq_error_iff.mp h
  have hline : Remark.lineOf fault.remarks = some line := by
    rw [Engine.compileError] at he
    exact (Error.compile.inj he).2.2.symm
  cases hparse : Language.parse (outside text.toList) with
  | error furthest =>
      left
      have hsheet := Sheet.ofText_eq_malformed_iff.mpr ⟨furthest, by rwa [String.toList_ofList], rfl⟩
      rw [Engine.ofTexts_of_not_ofText hsheet] at hfault
      cases hfault
      rw [lineOf_malformed, String.toList_ofList] at hline
      cases hline
      obtain ⟨front, back, hplace⟩ := exists_place_of_parse text furthest
      exact ⟨furthest, front, back, rfl, hplace⟩
  | ok tree =>
      right
      have hnot : ∀ key at_, fault ≠ .defective key (.malformed at_) := by
        rintro key at_ rfl
        have hsheet := Engine.ofText_of_ofTexts_eq_defective hfault
        obtain ⟨furthest, herror, -⟩ := Sheet.ofText_eq_malformed_iff.mp hsheet
        rw [String.toList_ofList, hparse] at herror
        cases herror
      obtain ⟨remark, hremark, hnames⟩ := Remark.exists_of_lineOf hline
      obtain ⟨words, rfl⟩ := EngineFault.eq_sentence_of_mem hremark hnot
      exact ⟨tree, fault, words, rfl, hfault, hremark, Remark.names_of_line? hnames⟩

/-! ## A tag over two lines -/

/-- Whether the grammar gives up on a text, at that place. -/
def failsAt (furthest : Nat) (text : String) : Bool :=
  match Language.parse text.toList with
  | .error n => n == furthest
  | .ok _ => false

theorem parse_of_failsAt {furthest : Nat} (h : failsAt furthest text) :
    Language.parse text.toList = .error furthest := by
  unfold failsAt at h
  generalize Language.parse text.toList = parsed at h ⊢
  cases parsed with
  | error n => rw [beq_iff_eq.mp h]
  | ok tree => cases h

/-- A tag with a break in front of the name. -/
def twoLineTag : List Char := "\x7b\x7b>\na \x7d\x7d".toList

theorem tagText_twoLineTag : TagText ['a'] twoLineTag := by
  have hbreak : ∀ c ∈ ['\n'], Text.isBlank c := List.forall_mem_singleton.mpr (by decide)
  have hspace : ∀ c ∈ [' '], Text.isBlank c := List.forall_mem_singleton.mpr (by decide)
  exact .mk (by decide) (List.forall_mem_singleton.mpr (by decide)) hbreak hspace

/-- An expression that is not closed. -/
def openExpression : String := "\x7b\x7b oops"

/-- The grammar gives up at the end. -/
theorem parse_openExpression :
    Language.parse openExpression.toList = .error openExpression.toList.length :=
  parse_of_failsAt (by decide +kernel)

theorem compile_openExpression :
    ∃ message, compile "" openExpression {} = .error (.compile "" message (some 1)) := by
  have hsheet := Sheet.ofText_eq_malformed_iff.mpr ⟨_, parse_openExpression, rfl⟩
  have hline : Text.lineNumber (openExpression.toList.take openExpression.toList.length) = 1 := by
    decide
  have hleft : String.ofList (outside openExpression.toList) = openExpression := by rfl
  have hfault : Engine.ofTexts [(Engine.checkKey, String.ofList (outside openExpression.toList))] =
      .error (.defective Engine.checkKey (.malformed 1)) := by
    rw [hleft]
    exact Engine.ofTexts_of_not_ofText (hline ▸ hsheet)
  have hcompile : compile "" openExpression {} =
      .error (Engine.compileError "" (.defective Engine.checkKey (.malformed 1))) :=
    compile_eq_error_iff.mpr ⟨_, hfault, rfl⟩
  rw [Engine.compileError, lineOf_malformed] at hcompile
  exact ⟨_, hcompile⟩

/-- With a tag in front that holds one break, the same expression is on the second line, up to the
end, where the grammar gives up.  It is reported on the first line as before. -/
theorem compile_twoLineTag :
    TagText ['a'] twoLineTag ∧ twoLineTag.count '\n' = 1 ∧
      Language.parse openExpression.toList = .error openExpression.toList.length ∧
      Text.lineNumber openExpression.toList = 1 ∧
      Text.lineNumber (twoLineTag ++ openExpression.toList) = 2 ∧
      ∃ message, compile "" openExpression {} = .error (.compile "" message (some 1)) ∧
        compile "" (String.ofList (twoLineTag ++ openExpression.toList)) {} =
          .error (.compile "" message (some 1)) := by
  obtain ⟨message, hmessage⟩ := compile_openExpression
  have htags : ∀ x ∈ [twoLineTag], ∃ name, TagText name x :=
    List.forall_mem_singleton.mpr ⟨_, tagText_twoLineTag⟩
  have hsame := (compile_flatten_eq_error htags _).mpr hmessage
  rw [List.flatten_singleton] at hsame
  exact ⟨tagText_twoLineTag, by decide, parse_openExpression, by decide, by decide, message,
    hmessage, hsame⟩

theorem compile_error_line_twoLineTag :
    ∃ message, compile "" (String.ofList (twoLineTag ++ openExpression.toList)) {} =
        .error (.compile "" message (some 1)) ∧
      ∃ furthest front back, Language.parse openExpression.toList = .error furthest ∧
        twoLineTag ++ openExpression.toList = front ++ back ∧ Piece.tag? back = none ∧
        outside front = openExpression.toList.take furthest ∧
        Text.lineNumber front = 1 + (inside 0 front).count '\n' := by
  have htags : ∀ x ∈ [twoLineTag], ∃ name, TagText name x :=
    List.forall_mem_singleton.mpr ⟨_, tagText_twoLineTag⟩
  obtain ⟨message, hmessage⟩ := compile_openExpression
  have herror := ((compile_error_line "" openExpression {}).1 _ htags _).mpr hmessage
  rw [List.flatten_singleton] at herror
  have houtside : outside (twoLineTag ++ openExpression.toList) = openExpression.toList :=
    (Piece.outside_tagText tagText_twoLineTag _).trans rfl
  have hline := (compile_error_line "" _ {}).2 _ _ _ herror
  rw [String.toList_ofList, houtside] at hline
  rcases hline with hplace | ⟨tree, -, -, hparse, -⟩
  · exact ⟨message, herror, hplace⟩
  · rw [parse_openExpression] at hparse
    cases hparse

end Template

end Stencil
