/-
What a page is made of.

The switch for escaping is handed from the page down to everything that is rendered for it: to loops
and branches, to the templates that are included, to blocks and to the bodies of macros.  No template
has a switch of its own.  So with the switch on, a page consists of the texts that stand in templates
and of values that were escaped on their way out of an expression, wherever the expression stands.

Some expressions go round the switch on purpose, and they are told by their syntax: those that vouch
for their value, concatenations, and the listing of everything that is visible.
-/
import Mathlib
import Stencil.Proofs.Activity
import Stencil.Proofs.Dict
import Stencil.Render.Page

namespace Stencil.Render

open Stencil.Language (Call Expr LogicOp Macro Margin Node Sheet Term)

/-! ## Expressions that are escaped, and nodes that print nothing else -/

/-- Whether a text that leaves an expression is escaped when the switch is on. -/
def isEscaped (e : Expr) : Bool :=
  !e.isSafe && (e.negated || !(changingFilters e).isEmpty ||
    match e.term with
    | .concat _ => false
    | .ident path => path != everything
    | _ => true)

mutual

/-- Whether a node prints only such literal texts and expressions that are escaped.  A section with a
filter changes what was printed, so only the one that leaves it as it is will do. -/
def Escapes (literal : String → Prop) : Node → Prop
  | .text s | .raw _ s _ => literal s
  | .output _ e => isEscaped e
  | .filtered _ filter body _ => filter.name = "safe" ∧ AllEscape literal body
  | .block _ _ body _ | .macroDefinition _ _ _ body _ => AllEscape literal body
  | .loop _ _ _ _ body otherwise _ =>
    AllEscape literal body ∧ OtherwiseEscapes literal otherwise
  | .choose branches otherwise _ => BranchesEscape literal branches ∧ LastEscapes literal otherwise
  | .comment _ | .assign _ _ _ _ | .includes _ _ _ | .inherits _ _ | .imports _ _ _ | .leave _
  | .next _ | .replaced => True

/-- Whether all nodes of a list do. -/
def AllEscape (literal : String → Prop) : List Node → Prop
  | [] => True
  | n :: ns => Escapes literal n ∧ AllEscape literal ns

def OtherwiseEscapes (literal : String → Prop) : Option (List Node) → Prop
  | none => True
  | some ns => AllEscape literal ns

def BranchesEscape (literal : String → Prop) : List (Margin × Expr × List Node) → Prop
  | [] => True
  | (_, _, ns) :: rest => AllEscape literal ns ∧ BranchesEscape literal rest

def LastEscapes (literal : String → Prop) : Option (Margin × List Node) → Prop
  | none => True
  | some (_, ns) => AllEscape literal ns

end

/-- Texts made of literal ones and of values as they leave an expression with the switch on.  What is
escaped is a text; a number or a list is printed as it is. -/
inductive Escaped (literal : String → Prop) : String → Prop
  | empty : Escaped literal ""
  | text {s : String} (h : literal s) : Escaped literal s
  | value (v : Json) : Escaped literal (escapeValue v).printed
  | append {a b : String} (ha : Escaped literal a) (hb : Escaped literal b) : Escaped literal (a ++ b)

/-! ## Sheets

The blocks and the macros of a sheet are bodies of its nodes. -/

/-- Whether a sheet prints nothing else, in its nodes, its blocks and its macros. -/
structure SheetEscapes (literal : String → Prop) (sheet : Sheet) : Prop where
  nodes : AllEscape literal sheet.nodes
  blocks : ∀ name body, Dict.get? name sheet.blocks = some body → AllEscape literal body
  macros : ∀ name m, Dict.get? name sheet.macros = some m → AllEscape literal m.body

section Sheets

variable {literal : String → Prop}

/-- A new entry is one more to look at. -/
theorem forall_get?_insert {α : Type} {P : α → Prop} {d : Dict α} {key : String} {v : α}
    (hd : ∀ k w, Dict.get? k d = some w → P w) (hv : P v) :
    ∀ k w, Dict.get? k (d.insert key v) = some w → P w := by
  intro k w hw
  rw [Dict.get?_insert] at hw
  split at hw
  · cases hw
    exact hv
  · exact hd k w hw

mutual

theorem blocksOfNode_escape {found found' : Dict (List Node)} {n : Node} (hn : Escapes literal n)
    (hfound : ∀ k body, Dict.get? k found = some body → AllEscape literal body)
    (h : Sheet.blocksOfNode found n = .ok found') :
    ∀ k body, Dict.get? k found' = some body → AllEscape literal body := by
  cases n with
  | block opening name body closing =>
      rw [Sheet.blocksOfNode] at h
      split at h
      · cases h
      · exact blocksOf_escape hn (forall_get?_insert hfound hn) h
  | _ =>
      simp only [Sheet.blocksOfNode] at h
      cases h
      exact hfound

theorem blocksOf_escape {found found' : Dict (List Node)} {ns : List Node}
    (hns : AllEscape literal ns)
    (hfound : ∀ k body, Dict.get? k found = some body → AllEscape literal body)
    (h : Sheet.blocksOf found ns = .ok found') :
    ∀ k body, Dict.get? k found' = some body → AllEscape literal body := by
  cases ns with
  | nil =>
      cases h
      exact hfound
  | cons n ns =>
      rw [Sheet.blocksOf] at h
      obtain ⟨more, hmore, h⟩ := Activity.bind_eq_ok.mp h
      exact blocksOf_escape hns.2 (blocksOfNode_escape hns.1 hfound hmore) h

end

theorem foldlM_addMacro_escape {found found' : Dict Macro} {ns : List Node}
    (hns : AllEscape literal ns)
    (hfound : ∀ k m, Dict.get? k found = some m → AllEscape literal m.body)
    (h : ns.foldlM Sheet.addMacro found = .ok found') :
    ∀ k m, Dict.get? k found' = some m → AllEscape literal m.body := by
  induction ns generalizing found with
  | nil =>
      cases h
      exact hfound
  | cons n ns ih =>
      obtain ⟨more, hmore, h⟩ := Activity.bind_eq_ok.mp h
      refine ih hns.2 ?_ h
      cases n with
      | macroDefinition opening name params body closing =>
          rw [Sheet.addMacro] at hmore
          split at hmore
          · cases hmore
          · cases hmore
            exact forall_get?_insert hfound hns.1
      | _ =>
          cases hmore
          exact hfound

/-- A sheet prints nothing else if its nodes do not. -/
theorem sheetEscapes_of_ofNodes {sheet : Sheet} {ns : List Node} (h : Sheet.ofNodes ns = .ok sheet)
    (hns : AllEscape literal ns) : SheetEscapes literal sheet := by
  obtain ⟨blocks, hblocks, h⟩ := Activity.bind_eq_ok.mp h
  obtain ⟨macros, hmacros, h⟩ := Activity.bind_eq_ok.mp h
  cases h
  exact ⟨hns, blocksOf_escape hns (by simp) hblocks, foldlM_addMacro_escape hns (by simp) hmacros⟩

end Sheets

/-! ## Results of runs -/

variable {α β : Type} {P : α → Prop} {Q : β → Prop}

/-- Whether every result of a part of a render is such. -/
def Yields (P : α → Prop) (x : Run α) : Prop := ∀ s a, (x.run.run s).1 = .ok a → P a

namespace Yields

variable {x : Run α} {f : α → Run β}

theorem pure {a : α} (h : P a) : Yields P (Pure.pure a : Run α) := by
  intro s b hb
  cases hb
  exact h

theorem throw (p : Problem) : Yields P (MonadExcept.throw p : Run α) := by
  intro s a ha
  cases ha

theorem bind (hx : Yields P x) (hf : ∀ a, P a → Yields Q (f a)) : Yields Q (x >>= f) := by
  intro s b hb
  rw [Activity.run_bind] at hb
  have hs := hx s
  generalize x.run.run s = r at hb hs
  obtain ⟨p | a, t⟩ := r
  · cases hb
  · exact hf a (hs a rfl) t b hb

/-- What comes first need not be known where everything that follows is. -/
theorem after (x : Run α) (hf : ∀ a, Yields Q (f a)) : Yields Q (x >>= f) :=
  bind (P := fun _ => True) (fun _ _ _ => trivial) fun a _ => hf a

end Yields

/-! ## Steps -/

/-- Whether values that are to be escaped, and bodies that print nothing else, come out as they
should when the switch is on. -/
structure EvaluatorsEscape (literal : String → Prop) (ev : Evaluators) : Prop where
  value : ∀ e, isEscaped e → Yields (fun v => Escaped literal v.printed) (ev.value true e)
  body : ∀ nodes, AllEscape literal nodes → Yields (Escaped literal) (ev.body true nodes)

/-- Whether all sheets of a stage print nothing else. -/
def StageEscapes (literal : String → Prop) (stage : Stage) : Prop :=
  ∀ key sheet, Dict.get? key stage.sheets = some sheet → SheetEscapes literal sheet

section Steps

variable {literal : String → Prop} {stage : Stage} {ev : Evaluators}
  (hev : EvaluatorsEscape literal ev) (hstage : StageEscapes literal stage)

/-! A value that is no text is not changed by escaping. -/

theorem Escaped.bool (b : Bool) : Escaped literal (Json.bool b).printed := .value (.bool b)

theorem Escaped.number (n : Number) : Escaped literal (Json.number n).printed := .value (.number n)

theorem Escaped.array (items : List Json) : Escaped literal (Json.array items).printed :=
  .value (.array items)

include hev hstage

theorem yields_callMacro (space name : String) (args : List (String × Expr)) :
    Yields (Escaped literal) (callMacro stage ev true space name args) := by
  refine .after _ fun scope => ?_
  dsimp only
  cases hspace : stage.space? (callingTemplate scope) space with
  | none => exact .throw _
  | some found =>
      obtain ⟨home, macros⟩ := found
      dsimp only
      cases hmacro : Dict.get? name macros with
      | none => exact .throw _
      | some definition =>
          -- The macros of a namespace are those of some sheet.
          obtain ⟨key, sheet, hsheet, rfl⟩ : ∃ key sheet,
              Dict.get? key stage.sheets = some sheet ∧ sheet.macros = macros := by
            rw [Stage.space?] at hspace
            obtain ⟨sheet, hsheet, hspace⟩ := Option.bind_eq_some_iff.mp hspace
            split at hspace
            · obtain ⟨imported, himported, hspace⟩ := Option.bind_eq_some_iff.mp hspace
              cases hspace
              exact ⟨_, imported, himported, rfl⟩
            · split at hspace
              · cases hspace
                exact ⟨_, sheet, hsheet, rfl⟩
              · cases hspace
          have hbody := (hstage key sheet hsheet).macros name definition hmacro
          refine .after _ fun values => .after _ fun _ => ?_
          exact (hev.body _ hbody).bind fun printed hprinted => .after _ fun _ => .pure hprinted

/-- What an expression starts from may only be left as it is if it can be printed. -/
theorem yields_startValue {e : Expr} (he : isEscaped e) (hnegated : e.negated = false) :
    Yields (fun found => ∀ v, found = some (v, false) → changingFilters e = [] →
      Escaped literal v.printed) (startValue stage ev true e) := by
  have hsome : ∀ {v : Json} {escapable : Bool}, (escapable = false → changingFilters e = [] →
      Escaped literal v.printed) → ∀ w, some (v, escapable) = some (w, false) →
        changingFilters e = [] → Escaped literal w.printed := by
    intro v escapable h w hw hfilters
    cases hw
    exact h rfl hfilters
  rw [startValue]
  cases hterm : e.term with
  | string s => exact .pure (hsome nofun)
  | int n => exact .pure (hsome fun _ _ => .number _)
  | float x => exact .pure (hsome fun _ _ => .number _)
  | bool b => exact .pure (hsome fun _ _ => .bool b)
  | array items => exact .after _ fun values => .pure (hsome fun _ _ => .array values)
  | member item container negated =>
      exact .after _ fun present => .pure (hsome fun _ _ => .bool present)
  | concat parts =>
      refine .after _ fun joined => .pure (hsome fun _ hfilters => ?_)
      simp [isEscaped, hnegated, hfilters, hterm] at he
  | call call => exact .after _ fun value => .pure (hsome nofun)
  | macroCall space name args =>
      exact (yields_callMacro hev hstage space name args).bind fun printed hprinted =>
        .pure (hsome fun _ _ => hprinted)
  | test path negated name args =>
      exact .after _ fun answer => .pure (hsome fun _ _ => .bool answer)
  | logic op lhs rhs => exact .after _ fun holds => .pure (hsome fun _ _ => .bool holds)
  | math op lhs rhs =>
      refine .after _ fun found => ?_
      cases found with
      | none => exact .pure (hsome fun _ _ => .value (.string "NaN"))
      | some n => exact .pure (hsome fun _ _ => .number n)
  | ident path =>
      have hident : ∀ {v : Json}, ∀ w, some (v, path != everything) = some (w, false) →
          changingFilters e = [] → Escaped literal w.printed := by
        intro v
        refine hsome fun hfalse hfilters => ?_
        simp [isEscaped, hnegated, hfilters, hterm, hfalse] at he
      refine .after _ fun found => ?_
      split
      · exact .after _ fun value => .pure hident
      · exact .pure hident
      · exact .after _ fun value => .pure hident
      · exact .pure nofun
      · exact .throw _

/-- With the switch on, an expression that is escaped comes out as text that may be printed. -/
theorem yields_valueStep {e : Expr} (he : isEscaped e) :
    Yields (fun v => Escaped literal v.printed) (valueStep stage ev true e) := by
  have hsafe : e.isSafe = false := by
    simp only [isEscaped, Bool.and_eq_true, Bool.not_eq_true'] at he
    exact he.1
  cases hnegated : e.negated with
  | true =>
      refine .after _ fun found => ?_
      cases found with
      | none => exact .pure (.bool true)
      | some start =>
          refine .after _ fun value => ?_
          rw [if_pos hnegated]
          exact .pure (.bool _)
  | false =>
      refine (yields_startValue hev hstage he hnegated).bind fun found hfound => ?_
      cases found with
      | none => exact .pure (.bool true)
      | some start =>
          obtain ⟨start, escapable⟩ := start
          dsimp only
          by_cases hfilters : changingFilters e = []
          · -- Without filters the value is what the expression started from.
            rw [hfilters, applyFilters]
            simp only [pure_bind, hnegated, hsafe]
            cases escapable with
            | true => exact .pure (.value start)
            | false => exact .pure (hfound start rfl hfilters)
          · refine .after _ fun value => ?_
            have hescapes : (true && (escapable || !(changingFilters e).isEmpty) && !e.isSafe) =
                true := by simp [hsafe, hfilters]
            rw [if_neg (by simp [hnegated]), if_pos hescapes]
            exact .pure (.value value)

/-! ## Nodes -/

omit hev hstage in
theorem yields_renderItems (state : Nat → String × Json → Loop) {body : Run String}
    (hbody : Yields (Escaped literal) body) (index : Nat) (items : List (String × Json)) :
    Yields (Escaped literal) (renderItems state body index items) := by
  induction items generalizing index with
  | nil => exact .pure .empty
  | cons item items ih =>
      refine .after _ fun _ => hbody.bind fun printed hprinted => .after _ fun scope => ?_
      dsimp only
      split
      · exact .pure hprinted
      · exact (ih _).bind fun rest hrest => .pure (hprinted.append hrest)

omit hstage in
theorem yields_renderLoop (key : Option String) (name : String) (container : Expr)
    {body : List Node} {otherwise : Option (List Node)} (hbody : AllEscape literal body)
    (hotherwise : OtherwiseEscapes literal otherwise) :
    Yields (Escaped literal) (renderLoop ev true key name container body otherwise) := by
  rw [renderLoop]
  split
  · exact .throw _
  · refine .after _ fun value => .after _ fun items => ?_
    split
    · exact hev.body _ hotherwise
    · exact .pure .empty
    · refine .after _ fun _ => ?_
      exact (yields_renderItems _ (hev.body _ hbody) _ _).bind fun printed hprinted =>
        .after _ fun _ => .pure hprinted

theorem yields_renderIncluded (files : List String) (mayMiss : Bool) :
    Yields (Escaped literal) (renderIncluded stage ev true files mayMiss) := by
  rw [renderIncluded]
  split
  · split
    · exact .pure .empty
    · exact .throw _
  next file _ =>
    have hnodes : AllEscape literal
        (((Dict.get? file stage.sheets).map (·.nodes)).getD []) := by
      cases hsheet : Dict.get? file stage.sheets with
      | none => trivial
      | some sheet => exact (hstage file sheet hsheet).nodes
    exact .after _ fun _ => (hev.body _ hnodes).bind fun printed hprinted =>
      .after _ fun _ => .pure hprinted

theorem yields_renderBlock (name : String) {body : List Node} (hbody : AllEscape literal body) :
    Yields (Escaped literal) (renderBlock stage ev true name body) := by
  refine .after _ fun scope => ?_
  dsimp only
  split
  next defined hdefined =>
    obtain ⟨sheet, hsheet, hblock⟩ := Option.bind_eq_some_iff.mp hdefined
    exact .after _ fun _ => hev.body _ ((hstage _ sheet hsheet).blocks name defined hblock)
  next => exact hev.body _ hbody

omit hstage in
theorem yields_renderBranches {branches : List (Margin × Expr × List Node)}
    {otherwise : Option (Margin × List Node)} (hbranches : BranchesEscape literal branches)
    (hotherwise : LastEscapes literal otherwise) :
    Yields (Escaped literal) (renderBranches ev true otherwise branches) := by
  induction branches with
  | nil =>
      cases otherwise with
      | none => exact .pure .empty
      | some last => exact hev.body _ hotherwise
  | cons branch branches ih =>
      refine .after _ fun holds => ?_
      split
      · exact hev.body _ hbranches.1
      · exact ih hbranches.2

omit hev hstage in
theorem yields_signalLoop (command : String) (signal : Signal) :
    Yields (Escaped literal) (signalLoop command signal) := by
  refine .after _ fun scope => ?_
  split
  · exact .throw _
  · exact .after _ fun _ => .pure .empty

theorem yields_renderNode {node : Node} (hnode : Escapes literal node) :
    Yields (Escaped literal) (renderNode stage ev true node) := by
  cases node with
  | text s => exact .pure (.text hnode)
  | raw opening s closing => exact .pure (.text hnode)
  | comment | imports | macroDefinition => exact .pure .empty
  | output margin e => exact (hev.value e hnode).bind fun v hv => .pure hv
  | assign margin name e isGlobal => exact .after _ fun v => .after _ fun _ => .pure .empty
  | includes margin files mayMiss => exact yields_renderIncluded hev hstage files mayMiss
  | inherits | replaced => exact .throw _
  | filtered opening filter body closing =>
      obtain ⟨hsafe, hbody⟩ := hnode
      refine (hev.body body hbody).bind fun printed hprinted => ?_
      rw [if_pos hsafe]
      exact .pure hprinted
  | block opening name body closing => exact yields_renderBlock hev hstage name hnode
  | loop opening key value container body otherwise closing =>
      exact yields_renderLoop hev key value container hnode.1 hnode.2
  | choose branches otherwise closing => exact yields_renderBranches hev hnode.1 hnode.2
  | leave | next => exact yields_signalLoop _ _

theorem yields_bodyStep {nodes : List Node} (hnodes : AllEscape literal nodes) :
    Yields (Escaped literal) (bodyStep stage ev true nodes) := by
  induction nodes with
  | nil => exact .pure .empty
  | cons node nodes ih =>
      refine (yields_renderNode hev hstage hnodes.1).bind fun printed hprinted => ?_
      refine .after _ fun scope => ?_
      split
      · exact .pure hprinted
      · exact (ih hnodes.2).bind fun rest hrest => .pure (hprinted.append hrest)

end Steps

/-! ## Pages -/

section Pages

variable {literal : String → Prop} {stage : Stage} (hstage : StageEscapes literal stage)

include hstage

/-- However deep the parts of templates are nested, the evaluators hand the switch down. -/
theorem evaluatorsEscape (fuel : Nat) : EvaluatorsEscape literal
    ⟨value stage fuel, condition stage fuel, number stage fuel, body stage fuel⟩ := by
  induction fuel with
  | zero => exact ⟨fun _ _ => .throw _, fun _ _ => .throw _⟩
  | succ fuel ih =>
      exact ⟨fun e he => yields_valueStep ih hstage he,
        fun nodes hnodes => yields_bodyStep ih hstage hnodes⟩

theorem yields_renderTop {nodes : List Node} (hnodes : AllEscape literal nodes) :
    Yields (Escaped literal) (renderTop stage true nodes) := by
  induction nodes with
  | nil => exact .pure .empty
  | cons node nodes ih =>
      have hnode := yields_renderNode (evaluatorsEscape hstage maxNesting) hstage hnodes.1
      exact hnode.bind fun printed hprinted =>
        (ih hnodes.2).bind fun rest hrest => .pure (hprinted.append hrest)

/-- With the switch on, a page is made of literal texts and of values that were escaped, if all
sheets leave their values to be escaped. -/
theorem escaped_of_page {root out : String} (h : page stage true root = .ok out) :
    Escaped literal out := by
  have hnodes : AllEscape literal (((Dict.get? root stage.sheets).map (·.nodes)).getD []) := by
    cases hsheet : Dict.get? root stage.sheets with
    | none => trivial
    | some sheet => exact (hstage root sheet hsheet).nodes
  have hyields := yields_renderTop hstage hnodes (Scope.start root)
  rw [page] at h
  split at h
  next printed _ hrun =>
    cases h
    exact hyields _ (congrArg Prod.fst hrun)
  next => cases h

end Pages

end Stencil.Render
