/-
Closures that render alike.

A render looks at three things of a template, its name, its source and its switch, and at the
partials under their names.  Two closures that agree in these all the way down give the same texts
to the engine and the same page, or the same error, whatever is supplied at run time.
-/
import Mathlib
import Stencil.Proofs.Closure.Keys

namespace Stencil.Closure

/-- The templates look the same in a render. -/
structure SameTemplate (t t' : Template) : Prop where
  name : t.name = t'.name
  source : t.source = t'.source
  autoescape : t.options.autoescape = t'.options.autoescape

/-- The closures agree in all that a render looks at. -/
inductive Alike : Closure → Closure → Prop
  | mk {t t' : Template} {p p' : Dict Closure} (ht : SameTemplate t t')
      (hkeys : ∀ name, Dict.hasKey name p = Dict.hasKey name p')
      (hpartials : ∀ name c c', Dict.get? name p = some c → Dict.get? name p' = some c' →
        Alike c c') : Alike (.mk t p) (.mk t' p')

/-- The dictionaries have the same names, and what is under each of them agrees. -/
structure AlikePartials (p p' : Dict Closure) : Prop where
  hasKey : ∀ name, p.hasKey name = p'.hasKey name
  alike : ∀ name c c', p.get? name = some c → p'.get? name = some c' → Alike c c'

variable {c c' : Closure} {p p' : Dict Closure} {t t' : Template}

theorem Alike.template (h : Alike c c') : SameTemplate c.template c'.template := by
  cases h with
  | mk ht _ _ => exact ht

theorem Alike.partials (h : Alike c c') : AlikePartials c.partials c'.partials := by
  cases h with
  | mk _ hkeys hpartials => exact ⟨hkeys, hpartials⟩

theorem Alike.refl : (c : Closure) → Alike c c
  | .mk t p => by
      refine .mk ⟨rfl, rfl, rfl⟩ (fun _ => rfl) fun name c c' hc hc' => ?_
      rw [hc] at hc'
      cases hc'
      have hmem := Dict.mem_of_get?_eq_some hc
      exact Alike.refl c
termination_by c => sizeOf c
decreasing_by
  have hlt := List.sizeOf_lt_of_mem hmem
  simp only [Closure.mk.sizeOf_spec, Prod.mk.sizeOf_spec] at hlt ⊢
  omega

/-- Supplying the same partials on both sides keeps them alike. -/
theorem AlikePartials.override (h : AlikePartials p p') (top : Dict Closure) :
    AlikePartials (p.override top) (p'.override top) := by
  refine ⟨fun name => ?_, fun name c c' hc hc' => ?_⟩
  · have hname := h.hasKey name
    rw [Dict.hasKey, Dict.hasKey] at hname
    rw [Dict.hasKey, Dict.hasKey, Dict.get?_override, Dict.get?_override, Option.isSome_or,
      Option.isSome_or, hname]
  · rw [Dict.get?_override] at hc hc'
    cases htop : Dict.get? name top.reverse with
    | some d =>
        rw [htop, Option.some_or] at hc hc'
        cases hc
        cases hc'
        exact Alike.refl _
    | none =>
        rw [htop, Option.none_or] at hc hc'
        exact h.alike name c c' hc hc'

/-! ## Sources

What a render lists is made of the names and the sources of templates and of nothing else. -/

/-- Whether the names of two dictionaries are the same, and what is under each of them is related. -/
def Related (R : Closure → Closure → Prop) (p p' : Dict Closure) : Prop :=
  ∀ name, Option.Rel R (p.get? name) (p'.get? name)

/-- Whether related closures have the same names and sources all the way down. -/
structure KeepsTexts (R : Closure → Closure → Prop) : Prop where
  name : ∀ c c', R c c' → c.template.name = c'.template.name
  source : ∀ c c', R c c' → c.template.source = c'.template.source
  partials : ∀ c c', R c c' → Related R c.partials c'.partials

theorem Related.hasKey {R : Closure → Closure → Prop} (h : Related R p p') (name : String) :
    p.hasKey name = p'.hasKey name := by
  have hname := h name
  rw [Dict.hasKey, Dict.hasKey]
  generalize p.get? name = found, p'.get? name = found' at hname
  cases hname <;> rfl

theorem Related.override {R : Closure → Closure → Prop} {top top' : Dict Closure}
    (h : Related R p p') (htop : Related R top.reverse top'.reverse) :
    Related R (p.override top) (p'.override top') := by
  intro name
  have hname := h name
  have htop := htop name
  rw [Dict.get?_override, Dict.get?_override]
  generalize Dict.get? name top.reverse = found, Dict.get? name top'.reverse = found' at htop
  cases htop with
  | some hfound => exact .some hfound
  | none => exact hname

/-- Where names and sources are the same, so are the sources of a render. -/
theorem sources_of_keepsTexts {R : Closure → Closure → Prop} (hR : KeepsTexts R)
    {overrides overrides' : Dict Closure}
    (htop : Related R overrides.reverse overrides'.reverse) (room : Nat) (key : String)
    (hname : t.name = t'.name) (hsource : t.source = t'.source) (h : Related R p p') :
    sources overrides room key t p = sources overrides' room key t' p' := by
  induction room generalizing key t t' p p' with
  | zero => rw [sources, sources, hname]
  | succ room ih =>
      have hinclusion : inclusion p key = inclusion p' key := by
        funext name
        rw [inclusion, inclusion, h.hasKey]
      simp only [sources_succ, hsource, known, withInclusions, funext h.hasKey, hinclusion]
      refine congrArg (· >>= _) (congrArg (List.mapM · _) (funext fun name => ?_))
      have hfound := h name
      rw [sourcesBelow, sourcesBelow]
      generalize p.get? name = found, p'.get? name = found' at hfound
      cases hfound with
      | none => rfl
      | some hc => exact ih _ (hR.name _ _ hc) (hR.source _ _ hc) ((hR.partials _ _ hc).override htop)

theorem AlikePartials.related (h : AlikePartials p p') : Related Alike p p' := by
  intro name
  have hname := h.hasKey name
  rw [Dict.hasKey, Dict.hasKey] at hname
  cases hc : p.get? name with
  | none =>
      rw [hc] at hname
      rw [Option.isNone_iff_eq_none.mp (Option.isSome_eq_false_iff.mp hname.symm)]
      exact .none
  | some c =>
      rw [hc] at hname
      obtain ⟨c', hc'⟩ := Option.isSome_iff_exists.mp hname.symm
      rw [hc']
      exact .some (h.alike name c c' hc hc')

theorem keepsTexts_alike : KeepsTexts Alike :=
  ⟨fun _ _ h => h.template.name, fun _ _ h => h.template.source, fun _ _ h => h.partials.related⟩

/-- Alike templates with alike partials give the same texts to the engine. -/
theorem sources_congr (overrides : Dict Closure) (room : Nat) (key : String)
    (ht : SameTemplate t t') (h : AlikePartials p p') :
    sources overrides room key t p = sources overrides room key t' p' := by
  have htop : Related Alike overrides.reverse overrides.reverse := by
    intro name
    cases Dict.get? name overrides.reverse with
    | none => exact .none
    | some c => exact .some (.refl c)
  exact sources_of_keepsTexts keepsTexts_alike htop room key ht.name ht.source h.related

/-! ## Renders -/

theorem engine_congr (ht : SameTemplate t t') (h : AlikePartials p p') (overrides : Dict Closure) :
    t.engine p overrides = t'.engine p' overrides := by
  rw [Template.engine, Template.engine, sources_congr _ _ _ ht h, ht.name]

theorem renderWith_congr (ht : SameTemplate t t') (engine : Engine) (given : Dict Json)
    (indent : String) : t.renderWith engine given indent = t'.renderWith engine given indent := by
  rw [Template.renderWith, Template.renderWith, ht.name, ht.autoescape]

/-- A render makes an engine and then a page, with partials given at run time and without. -/
theorem render_eq_bind (c : Closure) (given : Dict Json) (runtime : Dict Closure)
    (indent : String) :
    c.render given runtime indent =
      (c.template.engine (Dict.override c.partials runtime) runtime >>= fun engine =>
        c.template.renderWith engine given indent) := by
  cases runtime with
  | nil =>
      show _ = (c.template.engine c.partials [] >>= fun engine =>
        c.template.renderWith engine given indent)
      rw [render, renderKeeping]
      cases c.template.engine c.partials [] <;> rfl
  | cons entry runtime => rfl

/-- Alike closures give the same page or the same error. -/
theorem Alike.render (h : Alike c c') (given : Dict Json) (runtime : Dict Closure)
    (indent : String) : c.render given runtime indent = c'.render given runtime indent := by
  have ht := h.template
  have hengine := engine_congr ht (h.partials.override runtime) runtime
  rw [render_eq_bind, render_eq_bind, hengine]
  exact congrArg _ (funext fun engine => renderWith_congr ht engine given indent)

end Stencil.Closure
