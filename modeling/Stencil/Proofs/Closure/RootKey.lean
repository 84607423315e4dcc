/-
The key of the root is never seen.

A render could list its templates under any other key as well.  Where the tags of a template stand
in its text or in its comments, what stands for them is read as an inclusion or not at all, so the
sheets under two keys are the same under other names, and so is whatever they print.  In a raw
section an inclusion is text, and the key of the root is printed with it.
-/
import Mathlib
import Stencil.Proofs.Closure.Build
import Stencil.Proofs.Language.Sight
import Stencil.Proofs.Render.Renaming
import Stencil.Proofs.Text.Lines

namespace Stencil

open Stencil.Language (Node Sheet OutOfSight Twin inclusionOf)
open Stencil.Render (Renames)

namespace Closure

/-! ## Renaming keys -/

/-- Renames the keys that start with the key of one root to those that start with the key of
another, and keeps the latter from being hit twice. -/
def rekey (old new key : String) : String :=
  match Text.strip? old.toList key.toList with
  | some rest => new ++ String.ofList rest
  | none => if new.toList <+: key.toList then "" else key

section Rekey

variable {old new : String}

theorem rekey_append (old new rest : String) : rekey old new (old ++ rest) = new ++ rest := by
  rw [rekey, String.toList_append, Text.strip?_append]
  dsimp only
  rw [String.ofList_toList]

theorem rekey_eq_append_iff (hnew : new ≠ "") {key rest : String} :
    rekey old new key = new ++ rest ↔ key = old ++ rest := by
  constructor
  · intro h
    unfold rekey at h
    split at h
    next r hr =>
      rw [Text.strip?_eq_some_iff] at hr
      rw [← String.toList_inj, String.toList_append, hr]
      rw [← String.toList_inj, String.toList_append, String.toList_append,
        List.append_cancel_left_eq, String.toList_ofList] at h
      rw [h]
    next hr =>
      exfalso
      split at h
      · have hempty := congrArg String.toList h
        rw [String.toList_append] at hempty
        exact hnew (String.toList_inj.mp (List.append_eq_nil_iff.mp hempty.symm).1)
      next hnot =>
        subst h
        exact hnot (by rw [String.toList_append]; exact List.prefix_append _ _)
  · rintro rfl
    exact rekey_append old new rest

theorem rekey_empty (hold : old ≠ "") : rekey old new "" = "" := by
  unfold rekey
  split
  next r hr =>
    rw [Text.strip?_eq_some_iff] at hr
    exact absurd (String.toList_inj.mp (List.append_eq_nil_iff.mp hr.symm).1) hold
  next => split <;> rfl

theorem rekey_of_unmentioned {key : String} (hold : ¬ old.toList <:+: key.toList)
    (hnew : ¬ new.toList <:+: key.toList) : rekey old new key = key := by
  unfold rekey
  split
  next r hr =>
    rw [Text.strip?_eq_some_iff] at hr
    exact absurd (hr ▸ (List.prefix_append _ _).isInfix) hold
  next => exact if_neg fun h => hnew h.isInfix

/-- What stands behind the key of the root. -/
def rowSuffix (row : List String) : String :=
  String.ofList (row.flatMap fun name => '>' :: name.toList)

theorem rowKey_eq_append (key : String) (row : List String) :
    rowKey key row = key ++ rowSuffix row := by
  rw [← String.toList_inj, toList_rowKey, String.toList_append, rowSuffix, String.toList_ofList]

theorem rekey_rowKey (old new : String) (row : List String) :
    rekey old new (rowKey old row) = rowKey new row := by
  rw [rowKey_eq_append, rowKey_eq_append, rekey_append]

theorem rekey_childKey (old new : String) (row : List String) (name : String) :
    rekey old new (Engine.childKey (rowKey old row) name) =
      Engine.childKey (rowKey new row) name := by
  have hchild : ∀ key, Engine.childKey (rowKey key row) name = rowKey key (row ++ [name]) := by
    intro key
    rw [rowKey, rowKey, List.foldl_append]
    rfl
  rw [hchild, hchild, rekey_rowKey]

end Rekey

/-! ## Texts -/

section Texts

variable {lookup overrides : Dict Closure} {t u : Template} {key old new name : String}
  {pieces : List Piece} {row : List String} {below : Dict Closure}

instance : Decidable (IsQuotable key) := inferInstanceAs (Decidable (_ ∧ _))

/-- The key that stands for a tag, and the empty one where no inclusion does. -/
def tagKey (lookup : Dict Closure) (key name : String) : String :=
  if lookup.hasKey name ∧ IsQuotable name then Engine.childKey key name else ""

theorem isQuotable_tagKey (hkey : IsQuotable key) (name : String) :
    IsQuotable (tagKey lookup key name) := by
  rw [tagKey]
  split
  next h => exact isQuotable_childKey hkey h.2
  next => exact ⟨by simp, by simp⟩

theorem toList_withInclusions {text : String} :
    (withInclusions lookup key (Piece.ofText text)).toList =
      Piece.write (fun name => inclusionOf (tagKey lookup key name))
        (kept lookup (Piece.ofText text)) := by
  rw [withInclusions, String.toList_ofList,
    ← write_kept (f := inclusion lookup key) fun name hname => if_neg hname]
  refine Piece.write_congr fun name hname => ?_
  have hknown := hasKey_of_mem_kept hname
  have hquotable := isQuotable_of_mem_ofText (List.mem_filter.mp hname).1
  have hinclusion : inclusion lookup key name = inclusionOf (Engine.childKey key name) :=
    (if_pos hknown).trans (List.append_assoc _ _ _)
  have htag : tagKey lookup key name = Engine.childKey key name := if_pos ⟨hknown, hquotable⟩
  exact hinclusion.trans (congrArg inclusionOf htag.symm)

/-- What a compiled template must be like for its keys to stay unseen in a render: its tags stand in
its text or its comments, as far as their partials are known, it does not import itself from the
check, and it does not mention the keys of two roots itself. -/
structure HidesKeys (old new : String) (lookup : Dict Closure) (u : Template) : Prop where
  compiled : ∃ name text options, Template.compile name text options = .ok u
  outOfSight : OutOfSight (kept lookup (Piece.ofText u.source))
  not_self : ∀ sheet, Sheet.ofText (Piece.withoutTags (Piece.ofText u.source)) = .ok sheet →
    ∀ space, (Engine.checkKey, space) ∉ sheet.imports
  not_old : ¬ old.toList <:+: (Piece.withoutTags (Piece.ofText u.source)).toList
  not_new : ¬ new.toList <:+: (Piece.withoutTags (Piece.ofText u.source)).toList

theorem HidesKeys.isReady (h : HidesKeys old new lookup u) : IsReady lookup u :=
  ⟨h.compiled, h.outOfSight.inText, h.not_self⟩

theorem HidesKeys.symm (h : HidesKeys old new lookup u) : HidesKeys new old lookup u :=
  ⟨h.compiled, h.outOfSight, h.not_self, h.not_new, h.not_old⟩

theorem ne_empty_of_unmentioned {text : List Char} (h : ¬ key.toList <:+: text) : key ≠ "" := by
  rintro rfl
  exact h List.nil_infix

/-- The sheets of a template under two keys are the same under other names. -/
theorem exists_sheets (h : HidesKeys old new below u) (hold : IsQuotable (rowKey old row))
    (hnew : IsQuotable (rowKey new row)) :
    ∃ sheet, sheet.IsAlone ∧
      Sheet.ofText (withInclusions below (rowKey old row) (Piece.ofText u.source)) = .ok sheet ∧
      (sheet.rename (rekey old new)).IsAlone ∧
      Sheet.ofText (withInclusions below (rowKey new row) (Piece.ofText u.source)) =
        .ok (sheet.rename (rekey old new)) := by
  obtain ⟨sheet, hsheet, halone⟩ := exists_sheet_of_isReady h.isReady hold
  obtain ⟨sheet', hsheet', halone'⟩ := exists_sheet_of_isReady h.isReady hnew
  have hkeys : ∀ name, rekey old new (tagKey below (rowKey old row) name) =
      tagKey below (rowKey new row) name := by
    intro name
    rw [tagKey, tagKey]
    split
    · exact rekey_childKey old new row name
    · exact rekey_empty (ne_empty_of_unmentioned h.not_old)
  have hbare : Language.bare (kept below (Piece.ofText u.source)) =
      (Piece.withoutTags (Piece.ofText u.source)).toList := by
    rw [Piece.withoutTags, String.toList_ofList]
    exact write_kept fun _ _ => rfl
  have htwin : Twin (rekey old new)
      (withInclusions below (rowKey old row) (Piece.ofText u.source)).toList
      (withInclusions below (rowKey new row) (Piece.ofText u.source)).toList := by
    rw [toList_withInclusions, toList_withInclusions]
    simp only [← hkeys]
    refine h.outOfSight.twin (isQuotable_tagKey hold) (fun name => ?_) fun file hfile => ?_
    · rw [hkeys]
      exact isQuotable_tagKey hnew name
    · rw [hbare] at hfile
      exact rekey_of_unmentioned (fun hold => h.not_old (hold.trans hfile))
        fun hnew => h.not_new (hnew.trans hfile)
  obtain rfl := Sheet.eq_rename_of_twin htwin hsheet halone hsheet' halone'
  exact ⟨sheet, halone, hsheet, halone', hsheet'⟩

end Texts

/-! ## Engines -/

section Engines

variable {lookup overrides : Dict Closure} {t u : Template} {old new : String}
  {texts texts' : List (String × String)}

/-- Whether the sources of a render can be listed does not depend on the key of the root. -/
theorem exists_sources {room : Nat} (h : sources overrides room old t lookup = .ok texts)
    (new : String) : ∃ texts', sources overrides room new t lookup = .ok texts' := by
  induction room generalizing old new t lookup texts with
  | zero => cases h
  | succ room ih =>
      cases hnew : sources overrides (room + 1) new t lookup with
      | ok texts' => exact ⟨texts', rfl⟩
      | error e =>
          exfalso
          obtain ⟨before, name, after, hknown, -, herror⟩ := sources_succ_eq_error hnew
          obtain ⟨below, hbelow, -⟩ := sources_succ_eq_ok h
          obtain ⟨found, -, hfound⟩ := Activity.exists_of_forall₂ hbelow
            (a := name) (by rw [hknown]; exact List.mem_append_right _ List.mem_cons_self)
          rw [sourcesBelow] at hfound herror
          cases hchild : lookup.get? name with
          | none =>
              rw [hchild] at herror
              cases herror
          | some child =>
              rw [hchild] at hfound herror
              dsimp only at hfound herror
              obtain ⟨texts', htexts'⟩ := ih hfound (Engine.childKey new name)
              rw [htexts'] at herror
              cases herror

/-- Texts whose sheets are the same under other names make dictionaries of sheets that are. -/
theorem get?_parseAll_of_forall₂ {σ : String → String}
    (h : List.Forall₂ (fun e e' => (∀ key, σ key = e'.1 ↔ key = e.1) ∧
      ∃ sheet, Sheet.ofText e.2 = .ok sheet ∧
        Sheet.ofText e'.2 = .ok (sheet.rename σ)) texts texts')
    {sheets sheets' found found' : Dict Sheet}
    (hsheets : ∀ key, Dict.get? (σ key) sheets' = (Dict.get? key sheets).map (Sheet.rename σ))
    (hfound : Engine.parseAll sheets texts = .ok found)
    (hfound' : Engine.parseAll sheets' texts' = .ok found') (key : String) :
    Dict.get? (σ key) found' = (Dict.get? key found).map (Sheet.rename σ) := by
  induction h generalizing sheets sheets' with
  | nil =>
      cases hfound
      cases hfound'
      exact hsheets key
  | @cons e e' _ _ he _ ih =>
      obtain ⟨hkey, sheet, hsheet, hsheet'⟩ := he
      rw [Engine.parseAll, List.foldlM_cons, Engine.register_of_ofText e hsheet] at hfound
      rw [Engine.parseAll, List.foldlM_cons, Engine.register_of_ofText e' hsheet'] at hfound'
      refine ih (fun key => ?_) hfound hfound'
      by_cases heq : key = e.1
      · rw [(hkey key).mpr heq, heq, Dict.get?_insert_self, Dict.get?_insert_self]
        rfl
      · rw [Dict.get?_insert_ne (Ne.symm (mt (hkey key).mp heq)), Dict.get?_insert_ne (Ne.symm heq),
          hsheets]

end Engines

end Closure

/-! ## Renders -/

/-- The engine for a template whose root is listed under a key. -/
def Template.engineUnder (key : String) (t : Template) (lookup overrides : Dict Closure) :
    Except Error Engine := do
  let texts ← Closure.sources overrides (Closure.maxDepth + 1) key t lookup
  match Engine.ofTexts texts with
  | .ok engine => return engine
  | .error fault => throw (Engine.compileError t.name fault)

namespace Closure

/-- Renders a closure whose root is listed under a key. -/
def renderUnder (key : String) (c : Closure) (given : Dict Json) (runtime : Dict Closure)
    (indent : String) : Except Error String := do
  let engine ← c.template.engineUnder key (Dict.override c.partials runtime) runtime
  match Render.page ⟨engine.sheets, given⟩ c.template.options.autoescape key with
  | .ok printed => .ok (String.ofList (Text.indentLines indent.toList printed.toList))
  | .error fault => .error (Engine.renderError c.template.name fault)

/-- A render is one under the key of the root. -/
theorem renderUnder_rootKey (c : Closure) (given : Dict Json) (runtime : Dict Closure)
    (indent : String) :
    c.renderUnder Engine.rootKey given runtime indent = c.render given runtime indent := by
  cases runtime with
  | nil =>
      show (c.template.engine c.partials [] >>= fun engine =>
        c.template.renderWith engine given indent) = _
      rw [render, renderKeeping]
      cases c.template.engine c.partials [] <;> rfl
  | cons entry runtime => rfl

section Renders

variable {lookup overrides runtime : Dict Closure} {t : Template} {c : Closure}
  {old new key : String} {engine : Engine} {out : String}

/-- With keys that stay unseen there is an engine under the one if there is one under the other, and
its sheets are the same under other names. -/
theorem exists_engineUnder (hold : IsQuotable old) (hnew : IsQuotable new)
    (h : ∀ row u below, tagged? overrides t lookup row = some (u, below) →
      HidesKeys old new below u)
    (hengine : t.engineUnder old lookup overrides = .ok engine) :
    ∃ engine', t.engineUnder new lookup overrides = .ok engine' ∧
      ∀ given, Renames (rekey old new) ⟨engine.sheets, given⟩ ⟨engine'.sheets, given⟩ := by
  obtain ⟨texts, htexts, hmade⟩ := Activity.bind_eq_ok.mp hengine
  obtain ⟨texts', htexts'⟩ := exists_sources htexts new
  have hroot := h [] t lookup rfl
  have hwritten : List.Forall₂ (fun e e' => (∀ key, rekey old new key = e'.1 ↔ key = e.1) ∧
      ∃ sheet, sheet.IsAlone ∧ Sheet.ofText e.2 = .ok sheet ∧
        (sheet.rename (rekey old new)).IsAlone ∧
        Sheet.ofText e'.2 = .ok (sheet.rename (rekey old new))) texts texts' := by
    rw [sources_eq_rows htexts, sources_eq_rows htexts', List.forall₂_map_left_iff,
      List.forall₂_map_right_iff, List.forall₂_same]
    intro row hrow
    have hsome := (mem_rows_iff htexts row).mp hrow
    obtain ⟨⟨u, below⟩, htagged⟩ := Option.isSome_iff_exists.mp hsome
    rw [entry_of_tagged? htagged, entry_of_tagged? htagged]
    refine ⟨fun key => ?_, exists_sheets (h row u below htagged) (isQuotable_rowKey hold hsome)
      (isQuotable_rowKey hnew hsome)⟩
    rw [rowKey_eq_append, rowKey_eq_append]
    exact rekey_eq_append_iff (ne_empty_of_unmentioned hroot.not_new)
  have halone : ∀ e ∈ texts', ∃ sheet, Sheet.ofText e.2 = .ok sheet ∧ sheet.IsAlone := by
    intro e' he'
    obtain ⟨e, -, -, sheet, -, -, halone, hsheet⟩ := Activity.exists_of_forall₂ hwritten.flip he'
    exact ⟨_, hsheet, halone⟩
  obtain ⟨engine', hengine'⟩ := Engine.exists_ofTexts_of_isAlone halone
  refine ⟨engine', ?_, fun given => ⟨rekey_empty (ne_empty_of_unmentioned hroot.not_old), rfl, ?_⟩⟩
  · rw [Template.engineUnder, htexts']
    show (match Engine.ofTexts texts' with
      | .ok engine => Except.ok engine
      | .error fault => .error (Engine.compileError t.name fault)) = _
    rw [hengine']
  · cases hfound : Engine.ofTexts texts with
    | error fault =>
        rw [hfound] at hmade
        cases hmade
    | ok made =>
        rw [hfound] at hmade
        cases hmade
        refine get?_parseAll_of_forall₂ (hwritten.imp fun e e' he => ?_) (fun _ => rfl)
          (parseAll_of_ofTexts hfound) (parseAll_of_ofTexts hengine')
        obtain ⟨hkey, sheet, -, hsheet, -, hsheet'⟩ := he
        exact ⟨hkey, sheet, hsheet, hsheet'⟩

/-- With keys that stay unseen a render under the one prints what a render under the other does. -/
theorem renderUnder_of_renderUnder (hold : IsQuotable old) (hnew : IsQuotable new)
    (h : ∀ row u below, tagged? runtime c.template (Dict.override c.partials runtime) row =
      some (u, below) → HidesKeys old new below u) {given : Dict Json} {indent : String}
    (hout : c.renderUnder old given runtime indent = .ok out) :
    c.renderUnder new given runtime indent = .ok out := by
  obtain ⟨engine, hengine, hout⟩ := Activity.bind_eq_ok.mp hout
  obtain ⟨engine', hengine', hrenames⟩ := exists_engineUnder hold hnew h hengine
  have hpage := Render.page_rename (hrenames given) c.template.options.autoescape old
  have hkey : rekey old new old = new := rekey_rowKey old new []
  rw [hkey] at hpage
  rw [renderUnder, hengine']
  show (match Render.page ⟨engine'.sheets, given⟩ c.template.options.autoescape new with
    | .ok printed => Except.ok (String.ofList (Text.indentLines indent.toList printed.toList))
    | .error fault => .error (Engine.renderError c.template.name fault)) = _
  cases hprinted : Render.page ⟨engine.sheets, given⟩ c.template.options.autoescape old with
  | error fault =>
      rw [hprinted] at hout
      cases hout
  | ok printed =>
      rw [hprinted] at hpage hout
      cases hprinted' : Render.page ⟨engine'.sheets, given⟩ c.template.options.autoescape new with
      | error fault =>
          rw [hprinted'] at hpage
          cases hpage
      | ok printed' =>
          rw [hprinted'] at hpage
          cases hpage
          exact hout

/-! ## Result -/

/-- Whatever the context, the indent and the partials given at run time: where the tags of all that
a render reaches stand in text or in comments, what it prints does not depend on the key that it
lists the root under. -/
theorem render_eq_ok_iff_renderUnder (hkey : IsQuotable key)
    (h : ∀ row u below, tagged? runtime c.template (Dict.override c.partials runtime) row =
      some (u, below) → HidesKeys Engine.rootKey key below u) (given : Dict Json)
    (indent : String) :
    c.render given runtime indent = .ok out ↔ c.renderUnder key given runtime indent = .ok out := by
  rw [← renderUnder_rootKey]
  exact ⟨renderUnder_of_renderUnder isQuotable_rootKey hkey h,
    renderUnder_of_renderUnder hkey isQuotable_rootKey fun row u below htagged =>
      (h row u below htagged).symm⟩

end Renders

/-! ## Renders of two templates -/

section Examples

variable {lookup : Dict Closure} {text : String}

/-- Whether two lists hold the same texts, raw sections and inclusions and nothing else. -/
def sameNodes : List Node → List Node → Bool
  | [], [] => true
  | .text s :: ns, .text s' :: ns' => s == s' && sameNodes ns ns'
  | .raw m s k :: ns, .raw m' s' k' :: ns' => m == m' && s == s' && k == k' && sameNodes ns ns'
  | .includes m files mayMiss :: ns, .includes m' files' mayMiss' :: ns' =>
    m == m' && files == files' && mayMiss == mayMiss' && sameNodes ns ns'
  | _, _ => false

theorem eq_of_sameNodes {ns ns' : List Node} (h : sameNodes ns ns') : ns = ns' := by
  fun_induction sameNodes ns ns' with
  | case1 => rfl
  | case2 s ns s' ns' ih =>
      simp only [Bool.and_eq_true, beq_iff_eq] at h
      rw [h.1, ih h.2]
  | case3 m s k ns m' s' k' ns' ih =>
      simp only [Bool.and_eq_true, beq_iff_eq] at h
      rw [h.1.1.1, h.1.1.2, h.1.2, ih h.2]
  | case4 m files mayMiss ns m' files' mayMiss' ns' ih =>
      simp only [Bool.and_eq_true, beq_iff_eq] at h
      rw [h.1.1.1, h.1.1.2, h.1.2, ih h.2]
  | case5 => cases h

/-- Whether a text is read as such nodes. -/
def readsAs (nodes : List Node) (text : String) : Bool :=
  match Language.parse text.toList with
  | .error _ => false
  | .ok tree =>
    match Language.readTemplate tree with
    | .error _ => false
    | .ok found => sameNodes found nodes

theorem nodes_of_readsAs {nodes : List Node} {sheet : Sheet} (h : readsAs nodes text)
    (hsheet : Sheet.ofText text = .ok sheet) : sheet.nodes = Language.trimTemplate nodes := by
  obtain ⟨tree, found, hparse, hread, hmade⟩ := Sheet.ofText_eq_ok.mp hsheet
  unfold readsAs at h
  rw [hparse] at h
  dsimp only at h
  rw [hread] at h
  rw [Sheet.nodes_of_ofNodes hmade, eq_of_sameNodes h]

/-- A template that has no blocks and no macros and mentions no other one can be compiled. -/
theorem compile_of_isUnstructured (h : Sheet.isUnstructured (Piece.withoutTags (Piece.ofText text)))
    (name : String) (options : Options) :
    Template.compile name text options = .ok ⟨name, text, Piece.normalText (Piece.ofText text),
      Piece.names (Piece.ofText text), options⟩ := by
  refine Template.compile_eq_ok.mpr ⟨Engine.exists_ofTexts_of_isAlone fun entry hentry => ?_, rfl⟩
  rw [List.mem_singleton.mp hentry]
  exact Sheet.exists_ofText_of_isUnstructured h

theorem page_of_run {stage : Render.Stage} {escape : Bool} {root printed : String} {sheet : Sheet}
    (hfound : Dict.get? root stage.sheets = some sheet)
    (hrun : ((Render.renderTop stage escape sheet.nodes).run (Render.Scope.start root)).1 =
      .ok printed) : Render.page stage escape root = .ok printed := by
  rw [Render.page, hfound]
  dsimp only [Option.map_some, Option.getD_some]
  split
  next found _ heq =>
    rw [heq] at hrun
    exact congrArg _ (Except.ok.inj hrun)
  next problem _ heq =>
    rw [heq] at hrun
    cases hrun

/-- Its keys stay unseen if its tags stand in text or comments and it does not mention them. -/
theorem hidesKeys_of_isUnstructured {old new : String} (name : String) (options : Options)
    (h : Sheet.isUnstructured (Piece.withoutTags (Piece.ofText text)))
    (hsight : OutOfSight (kept lookup (Piece.ofText text)))
    (hold : ¬ old.toList <:+: (Piece.withoutTags (Piece.ofText text)).toList)
    (hnew : ¬ new.toList <:+: (Piece.withoutTags (Piece.ofText text)).toList) :
    HidesKeys old new lookup ⟨name, text, Piece.normalText (Piece.ofText text),
      Piece.names (Piece.ofText text), options⟩ := by
  obtain ⟨hcompiled, -, hself⟩ := isReady_of_isUnstructured name options h hsight.inText
  have hpieces : Piece.ofText (Piece.normalText (Piece.ofText text)) = Piece.ofText text :=
    Piece.ofText_normalText text
  refine ⟨hcompiled, ?_, hself, ?_, ?_⟩ <;> dsimp only <;> rwa [hpieces]

/-- What a closure prints whose sources are two such templates with different keys. -/
theorem render_of_isUnstructured {c : Closure} {key text below printed : String}
    (hsources : sources [] (maxDepth + 1) Engine.rootKey c.template c.partials =
      .ok [(Engine.rootKey, text), (key, below)]) (hkey : Engine.rootKey ≠ key)
    (htext : Sheet.isUnstructured text) (hbelow : Sheet.isUnstructured below)
    (given : Dict Json) (hpage : ∀ sheets sheet sheetBelow, Sheet.ofText text = .ok sheet →
      Sheet.ofText below = .ok sheetBelow → Dict.get? Engine.rootKey sheets = some sheet →
      Dict.get? key sheets = some sheetBelow →
      Render.page ⟨sheets, given⟩ c.template.options.autoescape Engine.rootKey = .ok printed) :
    c.render given [] "" = .ok printed := by
  have hall : ∀ entry ∈ [(Engine.rootKey, text), (key, below)],
      ∃ sheet, Sheet.ofText entry.2 = .ok sheet ∧ sheet.IsAlone := by
    simp only [List.forall_mem_cons]
    exact ⟨Sheet.exists_ofText_of_isUnstructured htext,
      Sheet.exists_ofText_of_isUnstructured hbelow, nofun⟩
  obtain ⟨engine, hengine⟩ := Engine.exists_ofTexts_of_isAlone hall
  have hparse := parseAll_of_ofTexts hengine
  have hkeys : (Dict.keys [(Engine.rootKey, text), (key, below)]).Nodup := by
    simpa [Dict.keys] using hkey
  obtain ⟨sheet, hsheet, hfound⟩ := get?_parseAll_of_mem hparse hkeys (List.mem_cons_self)
  obtain ⟨sheetBelow, hsheetBelow, hfoundBelow⟩ := get?_parseAll_of_mem hparse hkeys
    (List.mem_cons_of_mem _ List.mem_cons_self)
  have hmade : c.template.engine c.partials [] = .ok engine := by
    rw [engine_of_sources hsources, hengine]
  have hprinted : engine.page c.template.options.autoescape given = .ok printed :=
    hpage _ _ _ hsheet hsheetBelow hfound hfoundBelow
  rw [render, renderKeeping, hmade]
  dsimp only
  rw [Template.renderWith, hprinted]
  dsimp only
  rw [String.toList_empty, Text.indentLines_nil, String.ofList_toList]

/-! ## A template with a tag in its text, and one with a tag in a raw section -/

/-- A template with a tag in its text. -/
def bracketRoot : Closure :=
  .mk (plainTemplate "[\x7b\x7b> a\x7d\x7d]" ["a"]) partialA

theorem render_bracketRoot : bracketRoot.render [] [] "" = .ok "[inner]" := by
  have hsources : sources [] (maxDepth + 1) Engine.rootKey bracketRoot.template
      bracketRoot.partials = .ok [(Engine.rootKey, "[\x7b% include \"__hgn_root>a\" %\x7d]"),
        ("__hgn_root>a", "inner")] := by rfl
  refine render_of_isUnstructured hsources (by decide) (by decide +kernel) (by decide +kernel) []
    fun sheets sheet below hsheet hbelow hfound hkey => ?_
  have hread : readsAs [.text "[", .includes {} ["__hgn_root>a"] false, .text "]"]
      "[\x7b% include \"__hgn_root>a\" %\x7d]" := by decide +kernel
  have hnodes : sheet.nodes = [.text "[", .includes {} ["__hgn_root>a"] false, .text "]"] := by
    rw [nodes_of_readsAs hread hsheet]
    simp only [Language.trimTemplate, Language.trimBody, Language.trimNodes, Language.trimNode]
    rfl
  have hreadBelow : readsAs [.text "inner"] "inner" := by decide +kernel
  have hinner : below.nodes = [.text "inner"] := by
    rw [nodes_of_readsAs hreadBelow hbelow]
    simp only [Language.trimTemplate, Language.trimBody, Language.trimNodes, Language.trimNode]
    rfl
  have hfind : ["__hgn_root>a"].find? (Dict.hasKey · sheets) = some "__hgn_root>a" :=
    List.find?_cons_of_pos (Dict.hasKey_iff_exists.mpr ⟨below, hkey⟩)
  refine page_of_run hfound ?_
  simp only [hnodes, Render.renderTop, Render.renderNode, Render.renderIncluded, hfind, hkey,
    Option.map_some, Option.getD_some, hinner]
  rfl

theorem render_eq_ok_iff_renderUnder_bracketRoot :
    (∀ row u below, tagged? [] bracketRoot.template (Dict.override bracketRoot.partials []) row =
        some (u, below) → HidesKeys Engine.rootKey "main" below u) ∧
      bracketRoot.render [] [] "" = .ok "[inner]" ∧
      bracketRoot.renderUnder "main" [] [] "" = .ok "[inner]" := by
  have hsight : OutOfSight [.char '[', .tag "a", .char ']'] :=
    .char nofun (.tag (.char nofun .nil))
  have hroot : HidesKeys Engine.rootKey "main" partialA bracketRoot.template :=
    hidesKeys_of_isUnstructured "t" {} (by decide +kernel) hsight (by decide +kernel)
      (by decide +kernel)
  have hsightBelow : OutOfSight ("inner".toList.map .char) :=
    .char nofun (.char nofun (.char nofun (.char nofun (.char nofun .nil))))
  have hinner : HidesKeys Engine.rootKey "main" [] (plainTemplate "inner" []) :=
    hidesKeys_of_isUnstructured "t" {} (by decide +kernel) hsightBelow (by decide +kernel)
      (by decide +kernel)
  have hhides : ∀ row u below, tagged? [] bracketRoot.template
      (Dict.override bracketRoot.partials []) row = some (u, below) →
        HidesKeys Engine.rootKey "main" below u := by
    intro row u below htagged
    have hcases : (u = bracketRoot.template ∧ below = partialA) ∨
        (u = plainTemplate "inner" [] ∧ below = []) := by
      refine of_tagged? (P := fun u below => (u = bracketRoot.template ∧ below = partialA) ∨
        (u = plainTemplate "inner" [] ∧ below = [])) ?_ (.inl ⟨rfl, rfl⟩) htagged
      rintro u below name child (⟨rfl, rfl⟩ | ⟨rfl, rfl⟩) hname hchild
      · obtain rfl : name = "a" := List.mem_singleton.mp hname
        cases hchild
        exact .inr ⟨rfl, rfl⟩
      · cases hname
    rcases hcases with ⟨rfl, rfl⟩ | ⟨rfl, rfl⟩
    · exact hroot
    · exact hinner
  exact ⟨hhides, render_bracketRoot,
    (render_eq_ok_iff_renderUnder (by decide) hhides [] "").mp render_bracketRoot⟩

/-- A template with a tag in a raw section. -/
def rawText : String := "[\x7b% raw %\x7d\x7b\x7b> a\x7d\x7d\x7b% endraw %\x7d]"

/-- The template with an empty partial. -/
def rawRoot : Closure :=
  .mk (plainTemplate rawText ["a"]) [("a", .mk (plainTemplate "" []) [])]

/-- The inclusion is text of the raw section, so the key is printed. -/
theorem render_rawRoot :
    Template.compile "t" rawText {} = .ok rawRoot.template ∧
      Template.compile "t" "" {} = .ok (plainTemplate "" []) ∧
      ¬ Engine.rootKey.toList <:+: rawText.toList ∧
      rawRoot.render [] [] "" = .ok "[\x7b% include \"__hgn_root>a\" %\x7d]" := by
  refine ⟨compile_of_isUnstructured (by decide +kernel) "t" {},
    compile_of_isUnstructured (by decide +kernel) "t" {}, by decide +kernel, ?_⟩
  have hsources : sources [] (maxDepth + 1) Engine.rootKey rawRoot.template rawRoot.partials =
      .ok [(Engine.rootKey,
          "[\x7b% raw %\x7d\x7b% include \"__hgn_root>a\" %\x7d\x7b% endraw %\x7d]"),
        ("__hgn_root>a", "")] := by rfl
  refine render_of_isUnstructured hsources (by decide) (by decide +kernel) (by decide +kernel) []
    fun sheets sheet _ hsheet _ hfound _ => ?_
  have hread : readsAs [.text "[", .raw {} "\x7b% include \"__hgn_root>a\" %\x7d" {}, .text "]"]
      "[\x7b% raw %\x7d\x7b% include \"__hgn_root>a\" %\x7d\x7b% endraw %\x7d]" := by
    decide +kernel
  have hnodes : sheet.nodes = [.text "[", .raw {} "\x7b% include \"__hgn_root>a\" %\x7d" {},
      .text "]"] := by
    rw [nodes_of_readsAs hread hsheet]
    simp only [Language.trimTemplate, Language.trimBody, Language.trimNodes, Language.trimNode]
    rfl
  refine page_of_run hfound ?_
  rw [hnodes]
  rfl

end Examples

end Closure

end Stencil
