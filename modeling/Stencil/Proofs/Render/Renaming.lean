/-
Renders under other names.

The templates of a render have keys, and nothing that a template can say asks for one: a key is
looked up when a template is included, and when a macro or a block is looked for, and it stands in
the problems of a render that fails.  A problem never shows in an output.  So if the keys are
renamed in all sheets and the sheets are found under the new keys as they were under the old ones,
whatever is rendered gives the same, scope by scope.
-/
import Mathlib
import Stencil.Proofs.Language.Renaming
import Stencil.Render.Page

namespace Stencil.Render

open Stencil.Language (Call Expr LogicOp Macro Margin Node Sheet Term renameNodes renameBranches
  renameLast renameOtherwise)

variable {σ : String → String} {α β γ δ : Type}

/-! ## Scopes -/

/-- A frame of a render under other names. -/
def Frame.rename (σ : String → String) (f : Frame) : Frame := { f with template := σ f.template }

/-- A scope of a render under other names. -/
def Scope.rename (σ : String → String) (s : Scope) : Scope where
  frames := s.frames.map (Frame.rename σ)
  blocks := s.blocks.map fun b => (b.1, σ b.2)

theorem findInFrames?_rename (path : String) (fs : List Frame) :
    findInFrames? path (fs.map (Frame.rename σ)) = findInFrames? path fs := by
  induction fs with
  | nil => rfl
  | cons f fs ih => simp only [List.map_cons, findInFrames?, ih]; rfl

theorem visibleFrom_rename (given inner : Dict Json) (fs : List Frame) :
    visibleFrom given inner (fs.map (Frame.rename σ)) = visibleFrom given inner fs := by
  induction fs generalizing inner with
  | nil => rfl
  | cons f fs ih => simp only [List.map_cons, visibleFrom, ih]; rfl

theorem setOutsideLoops_rename (name : String) (value : Json) (fs : List Frame) :
    setOutsideLoops name value (fs.map (Frame.rename σ)) =
      (setOutsideLoops name value fs).map (Frame.rename σ) := by
  induction fs with
  | nil => rfl
  | cons f fs ih =>
      have hloop : (f.rename σ).loop? = f.loop? := rfl
      simp only [List.map_cons, setOutsideLoops, hloop, ih]
      cases f.loop? <;> rfl

namespace Scope

variable {s : Scope}

theorem rename_start (key : String) : (start key).rename σ = start (σ key) := rfl

@[simp] theorem find?_rename (given : Dict Json) (path : String) :
    (s.rename σ).find? given path = s.find? given path := by
  rw [find?, find?, rename, findInFrames?_rename]

@[simp] theorem visible_rename (given : Dict Json) : (s.rename σ).visible given = s.visible given :=
  visibleFrom_rename _ _ _

@[simp] theorem loop?_rename : (s.rename σ).loop? = s.loop? := by
  rw [loop?, loop?, rename, List.head?_map]
  cases s.frames.head? <;> rfl

@[simp] theorem skipsRest_rename : (s.rename σ).skipsRest = s.skipsRest := by
  rw [skipsRest, skipsRest, loop?_rename]

theorem pop_rename : s.pop.rename σ = (s.rename σ).pop := by
  simp only [pop, rename, List.map_tail]

theorem modifyTop_rename {f : Frame → Frame} (hf : ∀ t, (f t).rename σ = f (t.rename σ)) :
    (s.modifyTop f).rename σ = (s.rename σ).modifyTop f := by
  obtain ⟨frames, blocks⟩ := s
  cases frames with
  | nil => rfl
  | cons top outer => simp only [modifyTop, rename, List.map_cons, hf]

theorem set_rename (isGlobal : Bool) (name : String) (value : Json) :
    (s.set isGlobal name value).rename σ = (s.rename σ).set isGlobal name value := by
  cases isGlobal
  · exact modifyTop_rename fun _ => rfl
  · simp only [set, rename, setOutsideLoops_rename, if_true]

theorem template_rename (hσ : σ "" = "") : (s.rename σ).template = σ s.template := by
  rw [template, template, rename, List.head?_map]
  cases s.frames.head?
  · exact hσ.symm
  · rfl

theorem callingTemplate_rename (hσ : σ "" = "") :
    callingTemplate (s.rename σ) = σ (callingTemplate s) := by
  rw [callingTemplate, callingTemplate, template_rename hσ, rename, List.head?_map]
  cases s.blocks.head? <;> rfl

end Scope

/-! ## Runs -/

/-- What two parts of a render come to if they come to the same under other names: the same result,
or a problem each, and the same scope. -/
inductive SameOutcome (σ : String → String) :
    Except Problem α × Scope → Except Problem α × Scope → Prop
  | ok (a : α) (s : Scope) : SameOutcome σ (.ok a, s) (.ok a, s.rename σ)
  | error (p q : Problem) (s : Scope) : SameOutcome σ (.error p, s) (.error q, s.rename σ)

/-- Whether one part of a render comes under other names to what another one comes to. -/
def Follows (σ : String → String) (x y : Run α) : Prop :=
  ∀ s, SameOutcome σ (x.run.run s) (y.run.run (s.rename σ))

namespace Follows

variable {x y : Run α} {f g : α → Run β}

theorem pure (a : α) : Follows σ (Pure.pure a : Run α) (Pure.pure a) := fun s => .ok a s

theorem throw (p q : Problem) : Follows σ (MonadExcept.throw p : Run α) (MonadExcept.throw q) :=
  fun s => .error p q s

theorem bind (h : Follows σ x y) (hf : ∀ a, Follows σ (f a) (g a)) :
    Follows σ (x >>= f) (y >>= g) := by
  intro s
  have hs := h s
  rw [Activity.run_bind, Activity.run_bind]
  generalize x.run.run s = r, y.run.run (s.rename σ) = r' at hs ⊢
  cases hs with
  | ok a t => exact hf a t
  | error p q t => exact .error p q t

theorem map (h : Follows σ x y) (f : α → β) : Follows σ (f <$> x) (f <$> y) := by
  rw [map_eq_pure_bind, map_eq_pure_bind]
  exact h.bind fun a => pure (f a)

/-- What follows a look at the scope looks at the renamed one. -/
theorem get_bind {f g : Scope → Run β} (h : ∀ s, Follows σ (f s) (g (s.rename σ))) :
    Follows σ (get >>= f) (get >>= g) := fun s => h s s

theorem modify {f g : Scope → Scope} (h : ∀ s, (f s).rename σ = g (s.rename σ)) :
    Follows σ (modify f : Run PUnit) (modify g) := by
  intro s
  have hs := SameOutcome.ok (σ := σ) PUnit.unit (f s)
  rw [h s] at hs
  exact hs

/-- Whatever is done about a problem, it must not depend on which problem it is. -/
theorem tryCatch {f g : Problem → Run α} (h : Follows σ x y) (hf : ∀ p q, Follows σ (f p) (g q)) :
    Follows σ (MonadExcept.tryCatch x f) (MonadExcept.tryCatch y g) := by
  intro s
  have hs := h s
  have hrun : ∀ (x : Run α) (f : Problem → Run α) s, (MonadExcept.tryCatch x f).run.run s =
      match x.run.run s with
      | (.ok a, t) => (.ok a, t)
      | (.error p, t) => (f p).run.run t := by
    intro x f s
    show (ExceptT.tryCatch x f).run.run s = _
    rw [ExceptT.tryCatch]
    show StateT.run (x.run >>= _) s = _
    rw [StateT.run_bind]
    rcases hx : x.run.run s with ⟨p | a, t⟩
    · rfl
    · rfl
  rw [hrun, hrun]
  generalize x.run.run s = r, y.run.run (s.rename σ) = r' at hs ⊢
  cases hs with
  | ok a t => exact .ok a t
  | error p q t => exact hf p q t

theorem settle {ε : Type} (problem : ε → Problem) (outcome : Except ε α) :
    Follows σ (settle problem outcome) (settle problem outcome) := by
  cases outcome with
  | ok a => exact pure a
  | error e => exact throw _ _

/-- Two outcomes with the same result, or a problem each. -/
theorem settle_toOption {o o' : Except Problem α} (h : o'.toOption = o.toOption) :
    Follows σ (Render.settle id o) (Render.settle id o') := by
  cases o <;> cases o' <;> cases h
  · exact throw _ _
  · exact pure _

theorem mapM {f g : α → Run β} (h : ∀ a, Follows σ (f a) (g a)) (l : List α) :
    Follows σ (l.mapM f) (l.mapM g) := by
  induction l with
  | nil => exact pure []
  | cons a l ih =>
      rw [List.mapM_cons, List.mapM_cons]
      exact (h a).bind fun b => ih.bind fun bs => pure _

end Follows

/-! ## Stages -/

/-- Whether one stage is another one under other names: under the new name of every sheet there is
the renamed sheet. -/
structure Renames (σ : String → String) (stage stage' : Stage) : Prop where
  empty : σ "" = ""
  given : stage'.given = stage.given
  sheets : ∀ key,
    Dict.get? (σ key) stage'.sheets = (Dict.get? key stage.sheets).map (Sheet.rename σ)

namespace Renames

variable {stage stage' : Stage} (h : Renames σ stage stage')

include h

theorem hasKey (key : String) :
    Dict.hasKey (σ key) stage'.sheets = Dict.hasKey key stage.sheets := by
  rw [Dict.hasKey, Dict.hasKey, h.sheets, Option.isSome_map]

theorem nodes (key : String) :
    ((Dict.get? (σ key) stage'.sheets).map (·.nodes)).getD [] =
      renameNodes σ (((Dict.get? key stage.sheets).map (·.nodes)).getD []) := by
  rw [h.sheets]
  cases Dict.get? key stage.sheets <;> rfl

end Renames

/-- Whether evaluators do the same under other names. -/
structure EvaluatorsFollow (σ : String → String) (ev ev' : Evaluators) : Prop where
  value : ∀ escape e, Follows σ (ev.value escape e) (ev'.value escape e)
  condition : ∀ escape e, Follows σ (ev.condition escape e) (ev'.condition escape e)
  number : ∀ escape e, Follows σ (ev.number escape e) (ev'.number escape e)
  body : ∀ escape ns, Follows σ (ev.body escape ns) (ev'.body escape (renameNodes σ ns))

section Steps

variable {stage stage' : Stage} {ev ev' : Evaluators}

theorem toOption_bind {ε : Type} (x : Except ε α) (f : α → Except ε β) :
    (x >>= f).toOption = x.toOption.bind fun a => (f a).toOption := by
  cases x <;> rfl

theorem toOption_foldlM {ε : Type} {f g : β → α → Except ε β}
    (h : ∀ b a, (f b a).toOption = (g b a).toOption) (l : List α) (b : β) :
    (l.foldlM f b).toOption = (l.foldlM g b).toOption := by
  induction l generalizing b with
  | nil => rfl
  | cons a l ih =>
      rw [List.foldlM_cons, List.foldlM_cons, toOption_bind, toOption_bind, h b a]
      congr 1
      funext b'
      exact ih b'

/-- What is found for a variable, and whether anything is, does not depend on the names; only the
problem does. -/
theorem lookUp_rename (given : Dict Json) (s : Scope) (fuel : Nat) (path : String) :
    (lookUp given (s.rename σ) fuel path).toOption = (lookUp given s fuel path).toOption := by
  induction fuel generalizing path with
  | zero => rfl
  | succ fuel ih =>
      rw [lookUp, lookUp]
      split
      · rw [Scope.find?_rename]
        cases s.find? given path <;> rfl
      · rw [toOption_bind, toOption_bind]
        congr 1
        · refine toOption_foldlM (fun text subscript => ?_) _ _
          have hsub := ih subscript
          generalize lookUp given (s.rename σ) fuel subscript = r,
            lookUp given s fuel subscript = r' at hsub ⊢
          cases r <;> cases r' <;> cases hsub
          · rfl
          · rfl
        · funext evaluated
          dsimp only
          rw [Scope.find?_rename]
          cases s.find? given (String.ofList (plainPath evaluated)) <;> rfl

theorem readVariable_bind (hstage : Renames σ stage stage') (path : String)
    {f g : Except Problem Json → Run α}
    (h : ∀ o o' : Except Problem Json, o'.toOption = o.toOption → Follows σ (f o) (g o')) :
    Follows σ (readVariable stage path >>= f) (readVariable stage' path >>= g) := by
  have hget : ∀ (stage : Stage) (f : Except Problem Json → Run α),
      (readVariable stage path >>= f) = get >>= fun s => f (variableValue stage.given s path) := by
    intro stage f
    rw [readVariable, bind_assoc]
    exact bind_congr fun s => pure_bind _ _
  rw [hget, hget]
  refine Follows.get_bind fun s => h _ _ ?_
  rw [variableValue, variableValue, hstage.given]
  split
  · rw [Scope.visible_rename]
  · exact lookUp_rename _ _ _ _

/-! ## Expressions -/

variable (hev : EvaluatorsFollow σ ev ev')

include hev

theorem follows_argumentValues (args : List (String × Expr)) :
    Follows σ (argumentValues ev args) (argumentValues ev' args) := by
  induction args with
  | nil => exact .pure []
  | cons arg args ih =>
      exact (hev.value _ _).bind fun value => ih.bind fun values => .pure _

omit hev in
theorem follows_inCall {x y : Run α} (kind : Callee) (name : String) (h : Follows σ x y) :
    Follows σ (inCall kind name x) (inCall kind name y) :=
  h.tryCatch fun _ _ => .throw _ _

theorem follows_applyFilter (call : Call) (value : Json) :
    Follows σ (applyFilter ev call value) (applyFilter ev' call value) := by
  unfold applyFilter
  split
  · exact .throw _ _
  · exact follows_inCall _ _ ((follows_argumentValues hev _).bind fun _ => .settle _ _)

theorem follows_callFunction (call : Call) :
    Follows σ (callFunction ev call) (callFunction ev' call) := by
  unfold callFunction
  split
  · exact .throw _ _
  · exact follows_inCall _ _ ((follows_argumentValues hev _).bind fun _ => .settle _ _)

theorem follows_putToTest (hstage : Renames σ stage stage') (path : String) (negated : Bool)
    (name : String) (args : List Expr) :
    Follows σ (putToTest stage ev path negated name args)
      (putToTest stage' ev' path negated name args) := by
  unfold putToTest
  split
  · exact .throw _ _
  next test _ =>
    refine (follows_inCall _ _ (.mapM (fun e => hev.value _ e) args)).bind fun args => ?_
    refine readVariable_bind hstage path fun o o' ho => ?_
    rw [ho]
    exact (follows_inCall _ _ (.settle _ _)).bind fun answer => .pure _

theorem follows_parameterValues (name : String) (given : List (String × Expr))
    (params : List (String × Option Expr)) :
    Follows σ (parameterValues ev name given params) (parameterValues ev' name given params) := by
  induction params with
  | nil => exact .pure []
  | cons param params ih =>
      rw [parameterValues, parameterValues]
      split
      · exact .throw _ _
      · exact (hev.value _ _).bind fun value => ih.bind fun values => .pure _

omit hev in
/-- The macros of a namespace are the renamed ones. -/
theorem space?_rename (hstage : Renames σ stage stage') (template space : String) :
    stage'.space? (σ template) space =
      (stage.space? template space).map fun found =>
        (σ found.1, found.2.mapValues (Macro.rename σ)) := by
  rw [Stage.space?, Stage.space?, hstage.sheets]
  rcases Dict.get? template stage.sheets with _ | sheet
  · rfl
  · simp only [Option.map_some, Option.bind_eq_bind, Option.bind_some]
    have himports : (sheet.rename σ).imports.reverse.find? (·.2 = space) =
        (sheet.imports.reverse.find? (·.2 = space)).map fun i => (σ i.1, i.2) := by
      rw [Sheet.rename, ← List.map_reverse, List.find?_map]
      rfl
    rw [himports]
    generalize sheet.imports.reverse.find? _ = found
    rcases found with _ | ⟨file, as⟩
    · have hempty : (sheet.rename σ).macros.isEmpty = sheet.macros.isEmpty := List.isEmpty_map
      simp only [Option.map_none, hempty]
      split <;> rfl
    · simp only [Option.map_some, hstage.sheets]
      cases Dict.get? file stage.sheets <;> rfl

theorem follows_callMacro (hstage : Renames σ stage stage') (escape : Bool) (space name : String)
    (args : List (String × Expr)) :
    Follows σ (callMacro stage ev escape space name args)
      (callMacro stage' ev' escape space name args) := by
  unfold callMacro
  refine .get_bind fun s => ?_
  dsimp only
  rw [Scope.callingTemplate_rename hstage.empty, space?_rename hstage]
  rcases stage.space? (callingTemplate s) space with _ | ⟨home, macros⟩
  · exact .throw _ _
  · simp only [Option.map_some, Dict.get?_mapValues]
    rcases Dict.get? name macros with _ | definition
    · exact .throw _ _
    · refine (follows_parameterValues hev _ _ _).bind fun values => ?_
      refine Follows.bind (.modify fun _ => rfl) fun _ => ?_
      refine (hev.body _ _).bind fun printed => ?_
      exact Follows.bind (.modify fun _ => Scope.pop_rename) fun _ => .pure _

theorem follows_defaultValue (escape : Bool) (e : Expr) :
    Follows σ (defaultValue ev escape e) (defaultValue ev' escape e) := by
  unfold defaultValue
  split
  · split
    · exact hev.value _ _
    · exact .throw _ _
  · exact .throw _ _

theorem follows_partValue (hstage : Renames σ stage stage') (part : Term) :
    Follows σ (partValue stage ev part) (partValue stage' ev' part) := by
  cases part with
  | string | int | float => exact .pure _
  | ident path =>
      rw [partValue, partValue]
      refine readVariable_bind hstage path fun o o' ho => ?_
      refine (Follows.settle_toOption ho).bind fun value => ?_
      cases partText? value
      · exact .throw _ _
      · exact .pure _
  | call call =>
      rw [partValue, partValue]
      refine (follows_callFunction hev call).bind fun value => ?_
      cases partText? value
      · exact .throw _ _
      · exact .pure _
  | _ => exact .throw _ _

theorem follows_joinedValue (hstage : Renames σ stage stage') (parts : List Term) :
    Follows σ (joinedValue stage ev parts) (joinedValue stage' ev' parts) := by
  induction parts with
  | nil => exact .pure _
  | cons part parts ih =>
      exact (follows_partValue hev hstage part).bind fun _ => ih.bind fun _ => .pure _

theorem follows_memberValue (item container : Expr) (negated : Bool) :
    Follows σ (memberValue ev item container negated) (memberValue ev' item container negated) :=
  (hev.value _ _).bind fun _ => (hev.value _ _).bind fun _ =>
    (Follows.settle _ _).bind fun _ => .pure _

theorem follows_startValue (hstage : Renames σ stage stage') (escape : Bool) (e : Expr) :
    Follows σ (startValue stage ev escape e) (startValue stage' ev' escape e) := by
  unfold startValue
  split
  · exact .pure _
  · exact .pure _
  · exact .pure _
  · exact .pure _
  · exact (Follows.mapM (fun item => hev.value escape item) _).bind fun _ => .pure _
  · exact (follows_memberValue hev _ _ _).bind fun _ => .pure _
  · exact (follows_joinedValue hev hstage _).bind fun _ => .pure _
  · exact (follows_callFunction hev _).bind fun _ => .pure _
  · exact (follows_callMacro hev hstage _ _ _ _).bind fun _ => .pure _
  · exact (follows_putToTest hev hstage _ _ _ _).bind fun _ => .pure _
  · exact (hev.condition _ _).bind fun _ => .pure _
  · refine ((hev.number _ _).tryCatch fun _ _ => .throw _ _).bind fun n => ?_
    cases n <;> exact .pure _
  next path _ =>
    have hdefault := follows_defaultValue hev escape e
    refine readVariable_bind hstage path fun o o' ho => ?_
    cases o <;> cases o' <;> cases ho
    · cases e.hasDefault
      · cases e.negated
        · exact .throw _ _
        · exact .pure _
      · exact hdefault.bind fun _ => .pure _
    next value =>
      cases e.hasDefault
      · cases value <;> exact .pure _
      · cases value
        case null => exact hdefault.bind fun _ => .pure _
        all_goals exact .pure _

theorem follows_applyFilters (calls : List Call) (value : Json) :
    Follows σ (applyFilters ev calls value) (applyFilters ev' calls value) := by
  induction calls generalizing value with
  | nil => exact .pure _
  | cons call calls ih => exact (follows_applyFilter hev call value).bind ih

theorem follows_valueStep (hstage : Renames σ stage stage') (escape : Bool) (e : Expr) :
    Follows σ (valueStep stage ev escape e) (valueStep stage' ev' escape e) := by
  refine (follows_startValue hev hstage escape e).bind fun start => ?_
  rcases start with _ | ⟨start, escapable⟩
  · exact .pure _
  · refine (follows_applyFilters hev _ _).bind fun value => ?_
    split
    · exact .pure _
    · split <;> exact .pure _

/-! ## Conditions and arithmetic -/

theorem follows_logicValue? (escape : Bool) (op : LogicOp) (lhs rhs : Expr) :
    Follows σ (logicValue? ev escape op lhs rhs) (logicValue? ev' escape op lhs rhs) := by
  have hvalues : ∀ f : Json → Json → Option Bool,
      Follows σ (ev.value escape lhs >>= fun l => ev.value escape rhs >>= fun r => pure (f l r))
        (ev'.value escape lhs >>= fun l => ev'.value escape rhs >>= fun r => pure (f l r)) :=
    fun f => (hev.value _ _).bind fun l => (hev.value _ _).bind fun r => .pure _
  have hnumbers : ∀ f : Option Number → Option Number → Run (Option Bool),
      (∀ l r, Follows σ (f l r) (f l r)) →
      Follows σ (ev.number escape lhs >>= fun l => ev.number escape rhs >>= fun r => f l r)
        (ev'.number escape lhs >>= fun l => ev'.number escape rhs >>= fun r => f l r) :=
    fun f hf => (hev.number _ _).bind fun l => (hev.number _ _).bind fun r => hf l r
  cases op with
  | conj | disj =>
      refine (hev.condition _ _).bind fun answer => ?_
      cases answer
      · first | exact .pure _ | exact (hev.condition _ _).bind fun _ => .pure _
      · first | exact .pure _ | exact (hev.condition _ _).bind fun _ => .pure _
  | eq | notEq => exact hvalues _
  | gt | gte | lt | lte =>
      refine hnumbers _ fun l r => ?_
      cases l <;> cases r
      · exact .throw _ _
      · exact .throw _ _
      · exact .throw _ _
      · exact .pure _

theorem follows_termHolds? (hstage : Renames σ stage stage') (escape : Bool) (e : Expr) :
    Follows σ (termHolds? stage ev escape e) (termHolds? stage' ev' escape e) := by
  unfold termHolds?
  split
  · exact follows_logicValue? hev _ _ _ _
  iterate 3
    · refine (hev.number _ _).bind fun n => ?_
      cases n <;> exact .pure _
  · exact (follows_memberValue hev _ _ _).map _
  · exact (follows_putToTest hev hstage _ _ _ _).map _
  · exact .pure _
  · exact .pure _
  · refine (follows_callFunction hev _).bind fun value => ?_
    cases value
    case bool => exact .pure _
    all_goals exact .throw _ _
  · exact (follows_callMacro hev hstage _ _ _ _).bind fun _ => .pure _
  · exact (hev.value _ _).bind fun _ => .pure _
  · exact (hev.value _ _).bind fun _ => .pure _
  · exact (hev.value _ _).bind fun _ => .pure _

theorem follows_conditionStep (hstage : Renames σ stage stage') (escape : Bool) (e : Expr) :
    Follows σ (conditionStep stage ev escape e) (conditionStep stage' ev' escape e) := by
  unfold conditionStep
  split
  · exact ((hev.value _ _).bind fun _ => .pure _).tryCatch fun _ _ => .pure _
  · refine (follows_termHolds? hev hstage escape e).bind fun answer => ?_
    cases answer <;> exact .pure _

omit hev in
theorem follows_numberOf (what : NotNumber) (value : Json) :
    Follows σ (numberOf what value) (numberOf what value) := by
  cases value
  case number => exact .pure _
  all_goals exact .throw _ _

theorem follows_numberStep (hstage : Renames σ stage stage') (escape : Bool) (e : Expr) :
    Follows σ (numberStep stage ev escape e) (numberStep stage' ev' escape e) := by
  unfold numberStep
  dsimp only
  split
  · exact (hev.value _ _).bind fun _ => follows_numberOf _ _
  · split
    next path _ =>
      refine readVariable_bind hstage path fun o o' ho => ?_
      exact (Follows.settle_toOption ho).bind fun _ => follows_numberOf _ _
    · exact .pure _
    · exact .pure _
    · refine (hev.number _ _).bind fun l => (hev.number _ _).bind fun r => ?_
      cases l <;> cases r
      · exact .pure _
      · exact .pure _
      · exact .pure _
      · exact .settle _ _
    · exact (follows_callFunction hev _).bind fun _ => follows_numberOf _ _
    all_goals exact .throw _ _

/-! ## Nodes -/

omit hev in
theorem follows_renderItems (state : Nat → String × Json → Loop) {b b' : Run String}
    (hbody : Follows σ b b') (index : Nat) (items : List (String × Json)) :
    Follows σ (renderItems state b index items) (renderItems state b' index items) := by
  induction items generalizing index with
  | nil => exact .pure _
  | cons item items ih =>
      refine Follows.bind (.modify fun s => Scope.modifyTop_rename fun _ => rfl) fun _ => ?_
      refine hbody.bind fun printed => .get_bind fun s => ?_
      rw [Scope.loop?_rename]
      dsimp only
      split
      · exact .pure _
      · exact (ih _).bind fun _ => .pure _

theorem follows_renderLoop (hstage : Renames σ stage stage') (escape : Bool) (key : Option String)
    (name : String) (container : Expr) (body : List Node) (otherwise : Option (List Node)) :
    Follows σ (renderLoop ev escape key name container body otherwise)
      (renderLoop ev' escape key name container (renameNodes σ body)
        (renameOtherwise σ otherwise)) := by
  unfold renderLoop
  split
  · exact .throw _ _
  · refine (hev.value _ _).bind fun value => Follows.bind (.settle _ _) fun items => ?_
    cases items with
    | nil =>
        cases otherwise with
        | none => exact .pure _
        | some nodes => exact hev.body _ _
    | cons first rest =>
        cases otherwise <;>
        · refine Follows.bind (.modify fun s => ?_) fun _ => ?_
          · rw [Scope.template_rename hstage.empty]
            rfl
          · refine (follows_renderItems _ (hev.body _ _) _ _).bind fun printed => ?_
            exact Follows.bind (.modify fun _ => Scope.pop_rename) fun _ => .pure _

omit hev in
theorem follows_signalLoop (command : String) (signal : Signal) :
    Follows σ (signalLoop command signal) (signalLoop command signal) := by
  refine .get_bind fun s => ?_
  rw [Scope.loop?_rename]
  cases s.loop? with
  | none => exact .throw _ _
  | some l =>
      exact Follows.bind (.modify fun s => Scope.modifyTop_rename fun _ => rfl) fun _ => .pure _

theorem follows_renderIncluded (hstage : Renames σ stage stage') (escape : Bool)
    (files : List String) (mayMiss : Bool) :
    Follows σ (renderIncluded stage ev escape files mayMiss)
      (renderIncluded stage' ev' escape (files.map σ) mayMiss) := by
  have hfind : (files.map σ).find? (Dict.hasKey · stage'.sheets) =
      (files.find? (Dict.hasKey · stage.sheets)).map σ := by
    rw [List.find?_map]
    congr 2
    funext file
    exact hstage.hasKey file
  rw [renderIncluded, renderIncluded, hfind]
  rcases files.find? (Dict.hasKey · stage.sheets) with _ | file
  · dsimp only [Option.map_none]
    split
    · exact .pure _
    · exact .throw _ _
  · refine Follows.bind (.modify fun _ => rfl) fun _ => ?_
    rw [hstage.nodes]
    refine (hev.body _ _).bind fun printed => ?_
    exact Follows.bind (.modify fun _ => Scope.pop_rename) fun _ => .pure _

theorem follows_renderBlock (hstage : Renames σ stage stage') (escape : Bool) (name : String)
    (body : List Node) :
    Follows σ (renderBlock stage ev escape name body)
      (renderBlock stage' ev' escape name (renameNodes σ body)) := by
  refine .get_bind fun s => ?_
  dsimp only
  rw [Scope.template_rename hstage.empty, hstage.sheets]
  have hblocks : ((Dict.get? s.template stage.sheets).map (Sheet.rename σ)).bind
      (fun sheet => Dict.get? name sheet.blocks) =
      ((Dict.get? s.template stage.sheets).bind fun sheet => Dict.get? name sheet.blocks).map
        (renameNodes σ) := by
    cases Dict.get? s.template stage.sheets with
    | none => rfl
    | some sheet => exact Dict.get?_mapValues _ _ _
  rw [hblocks]
  cases (Dict.get? s.template stage.sheets).bind fun sheet => Dict.get? name sheet.blocks with
  | none => exact hev.body _ _
  | some defined => exact Follows.bind (.modify fun _ => rfl) fun _ => hev.body _ _

theorem follows_renderBranches (escape : Bool) (otherwise : Option (Margin × List Node))
    (branches : List (Margin × Expr × List Node)) :
    Follows σ (renderBranches ev escape otherwise branches)
      (renderBranches ev' escape (renameLast σ otherwise) (renameBranches σ branches)) := by
  induction branches with
  | nil =>
      rcases otherwise with _ | ⟨margin, body⟩
      · exact .pure _
      · exact hev.body _ _
  | cons branch branches ih =>
      obtain ⟨margin, condition, body⟩ := branch
      refine (hev.condition _ _).bind fun holds => ?_
      cases holds
      · exact ih
      · exact hev.body _ _

theorem follows_renderNode (hstage : Renames σ stage stage') (escape : Bool) (node : Node) :
    Follows σ (renderNode stage ev escape node) (renderNode stage' ev' escape (node.rename σ)) := by
  cases node with
  | text | raw | comment | imports | macroDefinition => exact .pure _
  | output opening value => exact (hev.value _ _).bind fun _ => .pure _
  | assign opening name value isGlobal =>
      refine (hev.value _ _).bind fun value => ?_
      exact Follows.bind (.modify fun _ => Scope.set_rename _ _ _) fun _ => .pure _
  | includes opening files mayMiss => exact follows_renderIncluded hev hstage _ _ _
  | inherits | replaced => exact .throw _ _
  | filtered opening filter body closing =>
      refine (hev.body _ _).bind fun printed => ?_
      split
      · exact .pure _
      · exact (follows_applyFilter hev _ _).bind fun _ => .pure _
  | block opening name body closing => exact follows_renderBlock hev hstage _ _ _
  | loop opening key value container body otherwise closing =>
      exact follows_renderLoop hev hstage _ _ _ _ _ _
  | choose branches otherwise closing => exact follows_renderBranches hev _ _ _
  | leave | next => exact follows_signalLoop _ _

theorem follows_bodyStep (hstage : Renames σ stage stage') (escape : Bool) (nodes : List Node) :
    Follows σ (bodyStep stage ev escape nodes)
      (bodyStep stage' ev' escape (renameNodes σ nodes)) := by
  induction nodes with
  | nil => exact .pure _
  | cons node nodes ih =>
      rw [Language.renameNodes_cons]
      refine (follows_renderNode hev hstage _ _).bind fun printed => .get_bind fun s => ?_
      rw [Scope.skipsRest_rename]
      split
      · exact .pure _
      · exact ih.bind fun _ => .pure _

end Steps

/-! ## Pages -/

section Pages

variable {stage stage' : Stage} (hstage : Renames σ stage stage')

include hstage

/-- However deep the parts of templates may be nested, the evaluators do the same under other
names. -/
theorem evaluatorsFollow (fuel : Nat) :
    EvaluatorsFollow σ ⟨value stage fuel, condition stage fuel, number stage fuel, body stage fuel⟩
      ⟨value stage' fuel, condition stage' fuel, number stage' fuel, body stage' fuel⟩ := by
  induction fuel with
  | zero =>
      exact ⟨fun _ _ => .throw _ _, fun _ _ => .throw _ _, fun _ _ => .throw _ _,
        fun _ _ => .throw _ _⟩
  | succ fuel ih =>
      refine ⟨fun escape e => ?_, fun escape e => ?_, fun escape e => ?_, fun escape nodes => ?_⟩
      · exact follows_valueStep ih hstage escape e
      · exact follows_conditionStep ih hstage escape e
      · exact follows_numberStep ih hstage escape e
      · exact follows_bodyStep ih hstage escape nodes

theorem follows_renderTop (escape : Bool) (nodes : List Node) :
    Follows σ (renderTop stage escape nodes) (renderTop stage' escape (renameNodes σ nodes)) := by
  induction nodes with
  | nil => exact .pure _
  | cons node nodes ih =>
      rw [Language.renameNodes_cons]
      exact (follows_renderNode (evaluatorsFollow hstage maxNesting) hstage escape node).bind
        fun printed => ih.bind fun _ => .pure _

/-- A page prints the same under other names, and it fails under the ones if it fails under the
others. -/
theorem page_rename (escape : Bool) (root : String) :
    (page stage' escape (σ root)).toOption = (page stage escape root).toOption := by
  have hrun := follows_renderTop hstage escape
    (((Dict.get? root stage.sheets).map (·.nodes)).getD []) (Scope.start root)
  rw [← hstage.nodes, Scope.rename_start] at hrun
  rw [page, page]
  dsimp only [ExceptT.run, StateT.run] at hrun ⊢
  generalize renderTop stage escape _ (Scope.start root) = r,
    renderTop stage' escape _ (Scope.start (σ root)) = r' at hrun ⊢
  cases hrun <;> rfl

end Pages

end Stencil.Render
