/-
What can be built.

Compiling looks at a text without its tags; a render registers the same text with an inclusion in
place of every tag that has a partial.  Where the tags stand in the text, the second one is a
template because the first one is, and then only partials that are nested too deep keep an engine
from being made.
-/
import Mathlib
import Stencil.Proofs.Closure.Keys
import Stencil.Proofs.Language.Sheet
import Stencil.Proofs.Piece
import Stencil.Proofs.Template

namespace Stencil

open Stencil.Language (Sheet InText IsInclusion bare)

/-! ## Names in tags -/

namespace Piece

theorem isNameChar_of_mem_scan {name : String} {cs : List Char} (h : tag name ∈ scan 0 cs) :
    ∀ c ∈ name.toList, isNameChar c := by
  induction hn : cs.length using Nat.strong_induction_on generalizing cs with
  | _ n ih =>
      cases cs with
      | nil =>
          rw [scan] at h
          cases h
      | cons c cs =>
          cases htag : tag? (c :: cs) with
          | none =>
              rw [scan_of_not_tag? htag] at h
              rcases List.mem_cons.mp h with h | h
              · cases h
              · exact ih cs.length (by simp [← hn]) h rfl
          | some found =>
              obtain ⟨first, rest⟩ := found
              have hlt : rest.length < n :=
                hn ▸ Nat.lt_succ_of_le (isSuffix_of_tag? htag).length_le
              rw [scan_of_tag? htag] at h
              rcases List.mem_cons.mp h with h | h
              · cases h
                obtain ⟨k, ks, rfl, hk, hks⟩ := exists_cons_of_tag? htag
                rw [String.toList_ofList]
                exact List.forall_mem_cons.mpr ⟨hk, hks⟩
              · exact ih rest.length hlt h rfl

/-- No name in a tag holds a character that cannot stand in a name. -/
theorem not_mem_of_mem_ofText {name text : String} {c : Char} (hc : isNameChar c = false)
    (h : tag name ∈ ofText text) : c ∉ name.toList := by
  intro hmem
  rw [isNameChar_of_mem_scan h _ hmem] at hc
  cases hc

theorem tag_mem_of_mem_names {name : String} {pieces : List Piece} (h : name ∈ names pieces) :
    tag name ∈ pieces := by
  obtain ⟨p, hp, hname⟩ := List.mem_filterMap.mp h
  cases p with
  | char c => cases hname
  | tag n =>
      cases hname
      exact hp

theorem write_congr {f g : String → List Char} {pieces : List Piece}
    (h : ∀ name, tag name ∈ pieces → f name = g name) : write f pieces = write g pieces := by
  induction pieces with
  | nil => rfl
  | cons p pieces ih =>
      have hrest := ih fun name hname => h name (List.mem_cons_of_mem _ hname)
      cases p with
      | char c => rw [Language.write_char, Language.write_char, hrest]
      | tag name => rw [Language.write_tag, Language.write_tag, hrest, h name List.mem_cons_self]

end Piece

namespace Closure

variable {overrides lookup : Dict Closure} {t u : Template} {key name : String}
  {row : List String} {below : Dict Closure} {pieces : List Piece}

/-! ## The text with its inclusions -/

/-- The pieces of a text without the tags whose partials are not known. -/
def kept (lookup : Dict Closure) (pieces : List Piece) : List Piece :=
  pieces.filter fun p => p.name?.all lookup.hasKey

theorem hasKey_of_mem_kept (h : .tag name ∈ kept lookup pieces) : lookup.hasKey name := by
  simpa [kept, Piece.name?] using (List.mem_filter.mp h).2

theorem write_kept {f : String → List Char} (h : ∀ name, ¬ lookup.hasKey name → f name = []) :
    Piece.write f (kept lookup pieces) = Piece.write f pieces := by
  induction pieces with
  | nil => rfl
  | cons p pieces ih =>
      cases p with
      | char c =>
          rw [kept, List.filter_cons_of_pos rfl, Language.write_char, Language.write_char, ← ih]
          rfl
      | tag name =>
          by_cases hname : lookup.hasKey name
          · rw [kept, List.filter_cons_of_pos (by simpa [Piece.name?] using hname),
              Language.write_tag, Language.write_tag, ← ih]
            rfl
          · rw [kept, List.filter_cons_of_neg (by simpa [Piece.name?] using hname),
              Language.write_tag, h name hname, ← ih]
            rfl

/-- Whether a key can stand in an inclusion: it holds no quote, which would end it, and no brace,
which would end the comment that an inclusion stands in. -/
def IsQuotable (key : String) : Prop := '"' ∉ key.toList ∧ '\x7d' ∉ key.toList

theorem isQuotable_childKey (hkey : IsQuotable key) (hname : IsQuotable name) :
    IsQuotable (Engine.childKey key name) := by
  rw [IsQuotable, Engine.childKey, String.toList_append, String.toList_append]
  simp [hkey.1, hkey.2, hname.1, hname.2]

theorem isQuotable_rootKey : IsQuotable Engine.rootKey := by
  constructor <;> decide

theorem isQuotable_of_mem_ofText {text : String} (h : .tag name ∈ Piece.ofText text) :
    IsQuotable name :=
  ⟨Piece.not_mem_of_mem_ofText (by decide) h, Piece.not_mem_of_mem_ofText (by decide) h⟩

theorem isInclusion_inclusion (hname : lookup.hasKey name) (hkey : IsQuotable key)
    (hquotable : IsQuotable name) : IsInclusion (inclusion lookup key name) := by
  obtain ⟨hquote, hbrace⟩ := isQuotable_childKey hkey hquotable
  refine ⟨(Engine.childKey key name).toList, hquote, hbrace, ?_⟩
  rw [inclusion, if_pos hname, List.append_assoc]

/-- What a render registers is a template of its own where the tags stand in the text of one. -/
theorem exists_ofText_withInclusions {text : String} (hkey : IsQuotable key)
    (hin : InText (kept lookup (Piece.ofText text))) {sheet : Sheet}
    (hsheet : Sheet.ofText (Piece.withoutTags (Piece.ofText text)) = .ok sheet)
    (halone : sheet.IsAlone) :
    ∃ sheet', Sheet.ofText (withInclusions lookup key (Piece.ofText text)) = .ok sheet' ∧
      sheet'.IsAlone := by
  classical
  -- A name that stands in no tag may be written in any way.
  let written : String → List Char := fun name =>
    if IsInclusion (inclusion lookup key name) then inclusion lookup key name
    else "\x7b% include \"\" %\x7d".toList
  have hwritten : ∀ name, IsInclusion (written name) := by
    intro name
    dsimp only [written]
    split
    · assumption
    · exact ⟨[], List.not_mem_nil, List.not_mem_nil, rfl⟩
  have hfull : Piece.write written (kept lookup (Piece.ofText text)) =
      Piece.write (inclusion lookup key) (Piece.ofText text) := by
    rw [← write_kept (f := inclusion lookup key) fun name hname => if_neg hname]
    refine Piece.write_congr fun name hname => if_pos ?_
    exact isInclusion_inclusion (hasKey_of_mem_kept hname) hkey
      (isQuotable_of_mem_ofText (List.mem_filter.mp hname).1)
  have hbare : bare (kept lookup (Piece.ofText text)) =
      Piece.write (fun _ => []) (Piece.ofText text) := write_kept fun _ _ => rfl
  have hexists := Sheet.exists_ofText_of_inText hwritten hin (s := sheet)
  rw [hbare, hfull] at hexists
  exact hexists hsheet halone

/-! ## Templates that were compiled -/

/-- What a compiled template must be like for a render: its tags stand in the text, as far as their
partials are known, and it does not import itself from the check. -/
structure IsReady (lookup : Dict Closure) (u : Template) : Prop where
  compiled : ∃ name text options, Template.compile name text options = .ok u
  inText : InText (kept lookup (Piece.ofText u.source))
  not_self : ∀ sheet, Sheet.ofText (Piece.withoutTags (Piece.ofText u.source)) = .ok sheet →
    ∀ space, (Engine.checkKey, space) ∉ sheet.imports

theorem exists_sheet_of_isReady (h : IsReady lookup u) (hkey : IsQuotable key) :
    ∃ sheet, Sheet.ofText (withInclusions lookup key (Piece.ofText u.source)) = .ok sheet ∧
      sheet.IsAlone := by
  obtain ⟨name, text, options, hu⟩ := h.compiled
  obtain ⟨⟨e, he⟩, hfields⟩ := Template.compile_eq_ok.mp hu
  have hpieces : Piece.ofText u.source = Piece.ofText text := by
    rw [hfields]
    exact Piece.ofText_normalText text
  rw [← hpieces] at he
  obtain ⟨sheet, hsheet, hparent, himports⟩ := Engine.exists_ofText_of_ofTexts he
  have halone : sheet.IsAlone := by
    refine ⟨hparent, List.eq_nil_iff_forall_not_mem.mpr fun ⟨file, space⟩ hmem => ?_⟩
    obtain rfl : file = Engine.checkKey := himports _ hmem
    exact h.not_self sheet hsheet space hmem
  exact exists_ofText_withInclusions hkey h.inText hsheet halone

/-- Every key of a render can stand in an inclusion. -/
theorem isQuotable_rowKey (hkey : IsQuotable key) (h : (tagged? overrides t lookup row).isSome) :
    IsQuotable (rowKey key row) := by
  induction row generalizing key t lookup with
  | nil => exact hkey
  | cons first row ih =>
      rw [tagged?] at h
      split at h
      next hfirst =>
        obtain ⟨child, hchild⟩ := exists_get?_of_mem_known hfirst
        rw [hchild] at h
        rw [known, List.mem_eraseDups, List.mem_filter] at hfirst
        have hname := isQuotable_of_mem_ofText (Piece.tag_mem_of_mem_names hfirst.1)
        exact ih (isQuotable_childKey hkey hname) h
      next => cases h

/-! ## Engines -/

/-- Partials that are nested too deep are the only reason why the sources of a render cannot be
listed. -/
theorem sources_eq_error {room : Nat} {e : Error}
    (h : sources overrides room key t lookup = .error e) :
    ∃ name, e = .partialDepth name maxDepth := by
  induction room generalizing key t lookup with
  | zero =>
      cases h
      exact ⟨t.name, rfl⟩
  | succ room ih =>
      obtain ⟨-, name, -, -, -, hname⟩ := sources_succ_eq_error h
      rw [sourcesBelow] at hname
      split at hname
      · cases hname
      · exact ih hname

/-- What becomes of the texts that a render lists becomes of its engine. -/
theorem engine_of_sources {texts : List (String × String)}
    (h : sources overrides (maxDepth + 1) Engine.rootKey t lookup = .ok texts) :
    t.engine lookup overrides = match Engine.ofTexts texts with
      | .ok engine => .ok engine
      | .error fault => .error (Engine.compileError t.name fault) := by
  rw [Template.engine, h]
  rfl

/-- If all that a render lists makes sheets that stand alone, only partials that are nested too deep
keep its engine from being made. -/
theorem engine_of_isAlone
    (h : ∀ row u below, tagged? overrides t lookup row = some (u, below) →
      ∃ sheet, Sheet.ofText (withInclusions below (rowKey Engine.rootKey row)
        (Piece.ofText u.source)) = .ok sheet ∧ sheet.IsAlone) :
    (∃ engine, t.engine lookup overrides = .ok engine) ∨
      ∃ name, t.engine lookup overrides = .error (.partialDepth name maxDepth) := by
  cases hsources : sources overrides (maxDepth + 1) Engine.rootKey t lookup with
  | error e =>
      obtain ⟨name, rfl⟩ := sources_eq_error hsources
      refine .inr ⟨name, ?_⟩
      simp only [Template.engine, hsources, bind, Except.bind]
  | ok texts =>
      have hall : ∀ entry ∈ texts, ∃ sheet, Sheet.ofText entry.2 = .ok sheet ∧ sheet.IsAlone := by
        intro listed hlisted
        rw [sources_eq_rows hsources] at hlisted
        obtain ⟨row, hrow, rfl⟩ := List.mem_map.mp hlisted
        obtain ⟨⟨u, below⟩, htagged⟩ := Option.isSome_iff_exists.mp
          ((mem_rows_iff hsources row).mp hrow)
        rw [entry_of_tagged? htagged]
        exact h row u below htagged
      obtain ⟨engine, hengine⟩ := Engine.exists_ofTexts_of_isAlone hall
      refine .inl ⟨engine, ?_⟩
      rw [engine_of_sources hsources, hengine]

/-! ## Result -/

/-- Whatever partials are known, at load or at run time: if the template and all that a render
reaches from it were compiled, with their tags in the text, the engine of the render is made, or the
partials are nested too deep. -/
theorem engine_of_isReady
    (h : ∀ row u below, tagged? overrides t lookup row = some (u, below) → IsReady below u) :
    (∃ engine, t.engine lookup overrides = .ok engine) ∨
      ∃ name, t.engine lookup overrides = .error (.partialDepth name maxDepth) :=
  engine_of_isAlone fun row u below htagged =>
    exists_sheet_of_isReady (h row u below htagged)
      (isQuotable_rowKey isQuotable_rootKey (by rw [htagged]; rfl))

/-! ## A template with a tag in its text, and one with a tag behind a brace -/

theorem inText_map_char {x : List Char} (h : '\x7b' ∉ x) : InText (x.map .char) := by
  induction x with
  | nil => exact .nil
  | cons c x ih =>
      have hc : c ≠ '\x7b' := fun heq => h (heq ▸ List.mem_cons_self)
      exact .char (fun heq => absurd heq hc) (ih fun hmem => h (List.mem_cons_of_mem _ hmem))

/-- A template that has no blocks and no macros and mentions no other one is ready if its tags stand
in its text. -/
theorem isReady_of_isUnstructured (name : String) {text : String} (options : Options)
    (h : Sheet.isUnstructured (Piece.withoutTags (Piece.ofText text)))
    (hin : InText (kept lookup (Piece.ofText text))) :
    IsReady lookup ⟨name, text, Piece.normalText (Piece.ofText text),
      Piece.names (Piece.ofText text), options⟩ := by
  obtain ⟨sheet, hsheet, halone⟩ := Sheet.exists_ofText_of_isUnstructured h
  have hpieces : Piece.ofText (Piece.normalText (Piece.ofText text)) = Piece.ofText text :=
    Piece.ofText_normalText text
  refine ⟨⟨name, text, options, ?_⟩, ?_, fun sheet' hsheet' space hmem => ?_⟩
  · refine Template.compile_eq_ok.mpr ⟨Engine.exists_ofTexts_of_isAlone fun entry hentry => ?_, rfl⟩
    rw [List.mem_singleton.mp hentry]
    exact ⟨sheet, hsheet, halone⟩
  · rwa [hpieces]
  · rw [hpieces, hsheet] at hsheet'
    cases hsheet'
    rw [halone.2] at hmem
    cases hmem

/-- A template that shows a partial under a condition. -/
def conditionalText : String := "\x7b% if b %\x7d[\x7b\x7b> a\x7d\x7d]\x7b% endif %\x7d"

/-- The partial `a` of a template. -/
def partialA : Dict Closure := [("a", .mk (plainTemplate "inner" []) [])]

/-- A tag of control without a quoted text that is not the start of a raw section. -/
theorem complete_control {u : List Char} (hu : u.all Language.isPlainChar)
    (hword : ∀ y es, Language.fromWord? ('\x7b' :: '%' :: (u ++ '\x7d' :: y)) = some es →
      ¬ "raw".toList <+: es) :
    Language.Complete (('\x7b' :: '%' :: (u ++ ['\x7d'])).map .char) := by
  refine .delimited (.control (.of_all hu) fun y => ?_)
  obtain ⟨out, hout⟩ := Grammar.exists_reads Language.rankedBy_ranking .tight
    (Language.covers_of_kindOf? (r := .rawTag) rfl) ('\x7b' :: '%' :: (u ++ ['\x7d']) ++ y)
  cases out with
  | none => exact hout
  | some found =>
      obtain ⟨es, hes, hraw⟩ := Language.word_of_reads rfl hout
      rw [List.cons_append, List.cons_append, List.append_assoc] at hes
      exact absurd hraw (hword y es hes)

theorem inText_conditionalText : InText (Piece.ofText conditionalText) := by
  have hopen : Language.Complete ("\x7b% if b %\x7d".toList.map .char) :=
    complete_control (u := " if b %".toList) rfl fun y es hes => by
      cases hes
      rintro ⟨ds, hds⟩
      cases hds
  have hclose : Language.Complete ("\x7b% endif %\x7d".toList.map .char) :=
    complete_control (u := " endif %".toList) rfl fun y es hes => by
      cases hes
      rintro ⟨ds, hds⟩
      cases hds
  have hpieces : Piece.ofText conditionalText = "\x7b% if b %\x7d".toList.map .char ++
      .char '[' :: .tag "a" :: .char ']' :: ("\x7b% endif %\x7d".toList.map .char ++ []) := by
    rfl
  rw [hpieces]
  exact .complete hopen (.char nofun (.tag (.char nofun (.complete hclose .nil))))

theorem engine_of_isReady_conditional :
    (∀ row u below, tagged? [] (plainTemplate conditionalText ["a"]) partialA row = some (u, below) →
        IsReady below u) ∧
      ∃ engine, (plainTemplate conditionalText ["a"]).engine partialA [] = .ok engine := by
  have hroot : IsReady partialA (plainTemplate conditionalText ["a"]) :=
    isReady_of_isUnstructured "t" {} (by decide +kernel) inText_conditionalText
  have hinner : IsReady [] (plainTemplate "inner" []) :=
    isReady_of_isUnstructured "t" {} (by decide +kernel)
      (inText_map_char (x := "inner".toList) (by decide))
  have hready : ∀ row u below,
      tagged? [] (plainTemplate conditionalText ["a"]) partialA row = some (u, below) →
        IsReady below u := by
    intro row u below h
    match row with
    | [] =>
        cases h
        exact hroot
    | [name] =>
        rw [tagged?] at h
        split at h
        next hname =>
          obtain rfl : name = "a" := List.mem_singleton.mp hname
          cases h
          exact hinner
        next => cases h
    | name :: name' :: row =>
        rw [tagged?] at h
        split at h
        next hname =>
          obtain rfl : name = "a" := List.mem_singleton.mp hname
          cases h
        next => cases h
  refine ⟨hready, ?_⟩
  rcases engine_of_isReady hready with h | ⟨name, h⟩
  · exact h
  · obtain ⟨texts, htexts⟩ : ∃ texts, sources [] (maxDepth + 1) Engine.rootKey
        (plainTemplate conditionalText ["a"]) partialA = .ok texts := ⟨_, rfl⟩
    rw [engine_of_sources htexts] at h
    generalize Engine.ofTexts texts = made at h
    cases made <;> cases h

/-- A template with a brace right in front of a tag. -/
def bracedText : String := "\x7b\x7b\x7b> a\x7d\x7d\x7d"

/-- Without the tag two braces are left, which are text; with the inclusion the brace starts an
expression. -/
theorem engine_bracedText :
    Template.compile "t" bracedText {} = .ok (plainTemplate bracedText ["a"]) ∧
      Template.compile "t" "inner" {} = .ok (plainTemplate "inner" []) ∧
      ∃ message line, (plainTemplate bracedText ["a"]).engine partialA [] =
        .error (.compile "t" message line) := by
  have hbraced : Language.isPlain (Piece.withoutTags (Piece.ofText bracedText)) := by
    decide +kernel
  have hinner : Language.isPlain (Piece.withoutTags (Piece.ofText "inner")) := by
    decide +kernel
  refine ⟨Template.compile_of_isPlain hbraced "t" {}, Template.compile_of_isPlain hinner "t" {}, ?_⟩
  obtain ⟨text, rest, htext, hsources⟩ : ∃ text rest,
      text = "\x7b\x7b% include \"__hgn_root>a\" %\x7d\x7d" ∧
      sources [] (maxDepth + 1) Engine.rootKey (plainTemplate bracedText ["a"]) partialA =
        .ok ((Engine.rootKey, text) :: rest) := ⟨_, _, rfl, rfl⟩
  have hparse : (Language.parse text.toList).isOk = false := by
    rw [htext]
    decide +kernel
  clear htext
  obtain ⟨defect, hdefect⟩ : ∃ defect, Sheet.ofText text = .error defect := by
    unfold Sheet.ofText
    generalize Language.parse _ = parsed at hparse ⊢
    cases parsed with
    | ok tree => cases hparse
    | error _ => exact ⟨_, rfl⟩
  have hfault : Engine.ofTexts ((Engine.rootKey, text) :: rest) =
      .error (.defective Engine.rootKey defect) := by
    rw [Engine.ofTexts, Engine.parseAll, List.foldlM_cons,
      Engine.register_of_not_ofText (Engine.rootKey, text) hdefect []]
    rfl
  have hengine : (plainTemplate bracedText ["a"]).engine partialA [] =
      .error (Engine.compileError "t" (.defective Engine.rootKey defect)) := by
    rw [engine_of_sources hsources, hfault]
    rfl
  exact ⟨_, _, hengine⟩

end Closure

end Stencil
