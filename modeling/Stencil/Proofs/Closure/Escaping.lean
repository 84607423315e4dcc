/-
Who decides about escaping.

Every template keeps the options that it was compiled with, but a render asks only its root about
the switch: it is set once, for the page, and holds in every template that is included.  So the
options of all partials, of the closure and of those that are supplied, have no influence.  With the
switch of the root on, a text that leaves an expression is escaped, whatever the template that holds
the expression was compiled with; with it off, a partial that was compiled to be escaped is not.
-/
import Mathlib
import Stencil.Proofs.Closure.Alike
import Stencil.Proofs.Closure.RootKey
import Stencil.Proofs.Render.Escaping

namespace Stencil.Closure

open Stencil.Language (Node Sheet)
open Stencil.Render (AllEscape Escaped)

/-! ## Other options -/

mutual

/-- A closure with other options: each template gets those for the row of names that leads to it. -/
def withOptions (options : List String → Options) : Closure → Closure
  | .mk t p => .mk { t with options := options [] } (partialsWithOptions options p)

/-- Partials with other options. -/
def partialsWithOptions (options : List String → Options) :
    List (String × Closure) → List (String × Closure)
  | [] => []
  | (name, c) :: p =>
    (name, c.withOptions fun row => options (name :: row)) :: partialsWithOptions options p

end

variable {c : Closure} {p overrides runtime : Dict Closure} {options : List String → Options}

theorem partialsWithOptions_eq_map (options : List String → Options) (p : List (String × Closure)) :
    partialsWithOptions options p =
      p.map fun entry => (entry.1, entry.2.withOptions fun row => options (entry.1 :: row)) := by
  induction p with
  | nil => rfl
  | cons entry p ih => rw [partialsWithOptions, ih, List.map_cons]

/-- Whether one closure is the other with other options. -/
def Recompiled (c c' : Closure) : Prop := ∃ options, c' = c.withOptions options

theorem related_partialsWithOptions (options : List String → Options)
    (p : List (String × Closure)) : Related Recompiled p (partialsWithOptions options p) := by
  intro name
  induction p with
  | nil => exact .none
  | cons entry p ih =>
      obtain ⟨k, c⟩ := entry
      rw [partialsWithOptions, Dict.get?_cons, Dict.get?_cons]
      split
      · exact .some ⟨_, rfl⟩
      · exact ih

theorem related_reverse (options : List String → Options) (p : List (String × Closure)) :
    Related Recompiled p.reverse (partialsWithOptions options p).reverse := by
  rw [partialsWithOptions_eq_map, ← List.map_reverse, ← partialsWithOptions_eq_map]
  exact related_partialsWithOptions options p.reverse

/-- Other options change neither a name nor a source. -/
theorem keepsTexts_recompiled : KeepsTexts Recompiled := by
  refine ⟨?_, ?_, ?_⟩
  · rintro ⟨t, p⟩ _ ⟨options, rfl⟩
    rfl
  · rintro ⟨t, p⟩ _ ⟨options, rfl⟩
    rfl
  · rintro ⟨t, p⟩ _ ⟨options, rfl⟩
    exact related_partialsWithOptions options p

/-- Templates that differ in their options have the same engine. -/
theorem engine_withOptions (t : Template) (o : Options) {p p' overrides overrides' : Dict Closure}
    (hp : Related Recompiled p p')
    (htop : Related Recompiled overrides.reverse overrides'.reverse) :
    ({ t with options := o } : Template).engine p' overrides' = t.engine p overrides := by
  have hsources : sources overrides (maxDepth + 1) Engine.rootKey t p =
      sources overrides' (maxDepth + 1) Engine.rootKey { t with options := o } p' :=
    sources_of_keepsTexts keepsTexts_recompiled htop _ _ rfl rfl hp
  rw [Template.engine, Template.engine, hsources]

/-- The options of everything but the root, and all options of the root but the switch, have no
influence on a render. -/
theorem render_withOptions (c : Closure) (runtime : Dict Closure)
    {options runtimeOptions : List String → Options}
    (hroot : (options []).autoescape = c.template.options.autoescape) (given : Dict Json)
    (indent : String) :
    (c.withOptions options).render given (partialsWithOptions runtimeOptions runtime) indent =
      c.render given runtime indent := by
  obtain ⟨t, p⟩ := c
  have htop := related_reverse runtimeOptions runtime
  have hp := (related_partialsWithOptions options p).override htop
  have hengine := engine_withOptions t (options []) hp htop
  have hwith : ∀ engine, ({ t with options := options [] } : Template).renderWith engine given
      indent = t.renderWith engine given indent := by
    intro engine
    have hswitch : (options []).autoescape = t.options.autoescape := hroot
    rw [Template.renderWith, Template.renderWith, hswitch]
  rw [render_eq_bind, render_eq_bind]
  exact congrArg₂ (fun made page => made >>= page) hengine (funext hwith)

/-! ## The switch of the root -/

theorem exists_text_of_parseAll {sheets found : Dict Sheet} {texts : List (String × String)}
    (h : Engine.parseAll sheets texts = .ok found) {key : String} {sheet : Sheet}
    (hsheet : found.get? key = some sheet) :
    sheets.get? key = some sheet ∨ ∃ entry ∈ texts, Sheet.ofText entry.2 = .ok sheet := by
  induction texts generalizing sheets with
  | nil =>
      cases h
      exact .inl hsheet
  | cons entry texts ih =>
      obtain ⟨more, hentry, h⟩ := Activity.bind_eq_ok.mp h
      obtain ⟨made, hmade, rfl⟩ := register_eq_ok hentry
      rcases ih h with hthere | ⟨entry', hentry', hsheet'⟩
      · rw [Dict.get?_insert] at hthere
        split at hthere
        · cases hthere
          exact .inr ⟨entry, List.mem_cons_self, hmade⟩
        · exact .inl hthere
      · exact .inr ⟨entry', List.mem_cons_of_mem _ hentry', hsheet'⟩

theorem ofNodes_of_ofText {text : String} {sheet : Sheet} (h : Sheet.ofText text = .ok sheet) :
    Sheet.ofNodes sheet.nodes = .ok sheet := by
  obtain ⟨tree, nodes, -, -, hmade⟩ := Sheet.ofText_eq_ok.mp h
  rwa [Sheet.nodes_of_ofNodes hmade]

/-- Whether every template that a render reaches, with its tags as inclusions, has only such literal
texts and prints nothing else that is not escaped. -/
def AllReachedEscape (literal : String → Prop) (c : Closure) (runtime : Dict Closure) : Prop :=
  ∀ row u below,
    tagged? runtime c.template (Dict.override c.partials runtime) row = some (u, below) →
      ∀ sheet, Sheet.ofText (withInclusions below (rowKey Engine.rootKey row)
        (Piece.ofText u.source)) = .ok sheet → AllEscape literal sheet.nodes

/-- With the switch of the root on, a render prints literal texts and escaped values. -/
theorem escaped_of_render {literal : String → Prop} (hroot : c.template.options.autoescape = true)
    (hreached : AllReachedEscape literal c runtime) {given : Dict Json} {indent out : String}
    (h : c.render given runtime indent = .ok out) :
    ∃ printed, Escaped literal printed ∧
      out = String.ofList (Text.indentLines indent.toList printed.toList) := by
  rw [render_eq_bind] at h
  obtain ⟨engine, hengine, h⟩ := Activity.bind_eq_ok.mp h
  obtain ⟨texts, htexts, hmade⟩ := Activity.bind_eq_ok.mp hengine
  have hstage : Render.StageEscapes literal ⟨engine.sheets, given⟩ := by
    intro key sheet hsheet
    cases hofTexts : Engine.ofTexts texts with
    | error fault =>
        rw [hofTexts] at hmade
        cases hmade
    | ok made =>
        rw [hofTexts] at hmade
        cases hmade
        rcases exists_text_of_parseAll (parseAll_of_ofTexts hofTexts) hsheet with
          hnone | ⟨entry, hentry, hofText⟩
        · cases hnone
        · rw [sources_eq_rows htexts, List.mem_map] at hentry
          obtain ⟨row, hrow, rfl⟩ := hentry
          obtain ⟨⟨u, below⟩, htagged⟩ :=
            Option.isSome_iff_exists.mp ((mem_rows_iff htexts row).mp hrow)
          rw [entry_of_tagged? htagged] at hofText
          exact Render.sheetEscapes_of_ofNodes (ofNodes_of_ofText hofText)
            (hreached row u below htagged sheet hofText)
  rw [Template.renderWith, hroot] at h
  cases hpage : engine.page true given with
  | error fault =>
      rw [hpage] at h
      cases h
  | ok printed =>
      rw [hpage] at h
      cases h
      exact ⟨printed, Render.escaped_of_page hstage hpage, rfl⟩

/-! ## Result -/

/-- For every closure, whatever is supplied at run time: the switch of the root decides for all
expressions of all templates.  The options that the other templates were compiled with have no
influence on the outcome; and with the switch on, the page is made of the literal texts of the
templates and of values that were escaped, wherever the expression stands that they come from. -/
theorem root_decides_escaping (c : Closure) (runtime : Dict Closure) (given : Dict Json)
    (indent : String) :
    (∀ options runtimeOptions : List String → Options,
      (options []).autoescape = c.template.options.autoescape →
        (c.withOptions options).render given (partialsWithOptions runtimeOptions runtime) indent =
          c.render given runtime indent) ∧
    (c.template.options.autoescape = true → ∀ literal, AllReachedEscape literal c runtime →
      ∀ out, c.render given runtime indent = .ok out →
        ∃ printed, Escaped literal printed ∧
          out = String.ofList (Text.indentLines indent.toList printed.toList)) :=
  ⟨fun _ _ hroot => render_withOptions c runtime hroot given indent,
    fun hroot _ hreached _ hout => escaped_of_render hroot hreached hout⟩

/-! ## A template and its partial under different options -/

/-- A template whose partial prints a variable, each compiled with a switch of its own. -/
def mixedRoot (ofRoot ofPartial : Bool) : Closure :=
  .mk { plainTemplate "\x7b\x7b> a\x7d\x7d" ["a"] with options := { autoescape := ofRoot } }
    [("a", .mk { plainTemplate "\x7b\x7b x \x7d\x7d" [] with
      options := { autoescape := ofPartial } } [])]

/-- Whether a text is read as the output of a variable. -/
def readsVariable (path text : String) : Bool :=
  match Language.parse text.toList with
  | .error _ => false
  | .ok tree =>
    match Language.readTemplate tree with
    | .ok [.output margin (.mk (.ident found) false [])] => margin == {} && found == path
    | _ => false

theorem nodes_of_readsVariable {path text : String} {sheet : Sheet} (h : readsVariable path text)
    (hsheet : Sheet.ofText text = .ok sheet) :
    sheet.nodes = [.output {} (.mk (.ident path) false [])] := by
  obtain ⟨tree, nodes, hparse, hread, hmade⟩ := Sheet.ofText_eq_ok.mp hsheet
  unfold readsVariable at h
  rw [hparse] at h
  dsimp only at h
  rw [hread] at h
  split at h
  next margin name heq =>
    cases heq
    obtain ⟨rfl, rfl⟩ : margin = {} ∧ name = path := by simpa using h
    rw [Sheet.nodes_of_ofNodes hmade]
    simp only [Language.trimTemplate, Language.trimBody, Language.trimNodes, Language.trimNode]
    rfl
  next => cases h

theorem nodes_includesA {sheet : Sheet}
    (h : Sheet.ofText "\x7b% include \"__hgn_root>a\" %\x7d" = .ok sheet) :
    sheet.nodes = [.includes {} ["__hgn_root>a"] false] := by
  have hread : readsAs [.includes {} ["__hgn_root>a"] false]
      "\x7b% include \"__hgn_root>a\" %\x7d" := by decide +kernel
  rw [nodes_of_readsAs hread h]
  simp only [Language.trimTemplate, Language.trimBody, Language.trimNodes, Language.trimNode]
  rfl

theorem nodes_printsX {sheet : Sheet} (h : Sheet.ofText "\x7b\x7b x \x7d\x7d" = .ok sheet) :
    sheet.nodes = [.output {} (.mk (.ident "x") false [])] :=
  nodes_of_readsVariable (by decide +kernel) h

theorem render_mixedRoot (ofRoot ofPartial : Bool) :
    (mixedRoot ofRoot ofPartial).render [("x", .string "<")] [] "" =
      .ok (if ofRoot then "&lt;" else "<") := by
  have hsources : sources [] (maxDepth + 1) Engine.rootKey (mixedRoot ofRoot ofPartial).template
      (mixedRoot ofRoot ofPartial).partials =
        .ok [(Engine.rootKey, "\x7b% include \"__hgn_root>a\" %\x7d"),
          ("__hgn_root>a", "\x7b\x7b x \x7d\x7d")] := by
    cases ofRoot <;> cases ofPartial <;> rfl
  refine render_of_isUnstructured hsources (by decide) (by decide +kernel) (by decide +kernel) _
    fun sheets sheet below hsheet hbelow hfound hkey => ?_
  have hfind : ["__hgn_root>a"].find? (Dict.hasKey · sheets) = some "__hgn_root>a" :=
    List.find?_cons_of_pos (Dict.hasKey_iff_exists.mpr ⟨below, hkey⟩)
  refine page_of_run hfound ?_
  simp only [nodes_includesA hsheet, Render.renderTop, Render.renderNode, Render.renderIncluded,
    hfind, hkey, Option.map_some, Option.getD_some, nodes_printsX hbelow]
  cases ofRoot <;> rfl

/-- The partial was compiled to be escaped and is not, for the root was compiled not to be. -/
theorem render_unescaped_partial :
    Template.compile "t" "\x7b\x7b> a\x7d\x7d" {} = .ok (mixedRoot false true).template ∧
      (∀ partialA, (mixedRoot false true).partials.get? "a" = some partialA →
        Template.compile "t" "\x7b\x7b x \x7d\x7d" { autoescape := true } =
          .ok partialA.template) ∧
      (mixedRoot false true).render [("x", .string "<")] [] "" = .ok "<" ∧
      Text.escapeHtml "<" = "&lt;" := by
  refine ⟨compile_of_isUnstructured (by decide +kernel) "t" {}, fun partialA hpartial => ?_,
    render_mixedRoot false true, by decide⟩
  cases hpartial
  exact compile_of_isUnstructured (by decide +kernel) "t" { autoescape := true }

theorem allReachedEscape_mixedRoot :
    AllReachedEscape (fun _ => False) (mixedRoot true false) [] := by
  rintro (_ | ⟨name, rest⟩) u below htagged sheet hsheet
  · cases htagged
    have hnodes : sheet.nodes = _ := nodes_includesA hsheet
    rw [hnodes]
    exact ⟨trivial, trivial⟩
  · obtain rfl : name = "a" := by
      rw [tagged?] at htagged
      split at htagged
      next hname => exact List.mem_singleton.mp hname
      next => cases htagged
    cases rest with
    | nil =>
        cases htagged
        have hnodes : sheet.nodes = _ := nodes_printsX hsheet
        rw [hnodes]
        exact ⟨rfl, trivial⟩
    | cons name' rest => cases htagged

/-- The root is compiled to be escaped, so its partial is, with either switch of its own. -/
theorem root_decides_escaping_mixedRoot :
    (mixedRoot true false).render [("x", .string "<")] [] "" =
        (mixedRoot true true).render [("x", .string "<")] [] "" ∧
      (mixedRoot true false).render [("x", .string "<")] [] "" = .ok "&lt;" ∧
      ∃ printed, Escaped (fun _ => False) printed ∧
        "&lt;" = String.ofList (Text.indentLines [] printed.toList) := by
  obtain ⟨hoptions, hescaped⟩ :=
    root_decides_escaping (mixedRoot true false) [] [("x", .string "<")] ""
  have hsame := hoptions (fun _ => { autoescape := true }) (fun _ => {}) rfl
  exact ⟨hsame.symm, render_mixedRoot true false,
    hescaped rfl _ allReachedEscape_mixedRoot _ (render_mixedRoot true false)⟩

end Stencil.Closure
