/-
Compiled templates.

What a template is compiled to is settled by the pieces of its text; only the check of what is left
without the tags can fail.  It does not fail where nothing is left but plain text.
-/
import Mathlib
import Stencil.Proofs.Engine
import Stencil.Template

namespace Stencil

namespace Template

variable {name text : String} {options : Options}

theorem compile_eq_ok {t : Template} :
    compile name text options = .ok t ↔
      (∃ e, Engine.ofTexts [(Engine.checkKey, Piece.withoutTags (Piece.ofText text))] = .ok e) ∧
        t = ⟨name, text, Piece.normalText (Piece.ofText text), Piece.names (Piece.ofText text),
          options⟩ := by
  unfold compile
  dsimp only
  split
  next fault hfault =>
    constructor
    · intro h
      cases h
    · rintro ⟨⟨e, he⟩, -⟩
      rw [hfault] at he
      cases he
  next e he =>
    constructor
    · intro h
      cases h
      exact ⟨⟨e, he⟩, rfl⟩
    · rintro ⟨-, rfl⟩
      rfl

theorem compile_eq_error {e : Error} (h : compile name text options = .error e) :
    ∃ fault, e = Engine.compileError name fault := by
  unfold compile at h
  dsimp only at h
  split at h
  next fault _ =>
    cases h
    exact ⟨fault, rfl⟩
  next _ _ => cases h

end Template

/-! ## Plain texts -/

open Stencil.Language (Sheet)

namespace Language

/-- Whether a text is read as one piece of text, with no expression and no tag of the language. -/
def isPlain (text : String) : Bool :=
  match parse text.toList with
  | .error _ => false
  | .ok tree =>
    match readTemplate tree with
    | .ok [.text _] => true
    | _ => false

/-- White space control leaves a single piece of text as it is. -/
theorem trimTemplate_text (s : String) : trimTemplate [.text s] = [.text s] := by
  simp [trimTemplate, trimBody, trimNodes, trimNode, Trimming.addText]

theorem ofText_of_isPlain {text : String} (h : isPlain text) :
    ∃ s, Sheet.ofText text = .ok ⟨[.text s], [], [], none, []⟩ := by
  unfold isPlain at h
  split at h
  · cases h
  next tree hparse =>
    split at h
    next s hread =>
      refine ⟨s, Sheet.ofText_eq_ok.mpr ⟨tree, _, hparse, hread, ?_⟩⟩
      rw [trimTemplate_text]
      rfl
    next => cases h

end Language

namespace Engine

/-- A plain text makes an engine. -/
theorem exists_ofTexts_of_isPlain {text : String} (key : String) (h : Language.isPlain text) :
    ∃ e, ofTexts [(key, text)] = .ok e := by
  obtain ⟨s, hs⟩ := Language.ofText_of_isPlain h
  have hregister : register [] (key, text) = .ok [(key, ⟨[.text s], [], [], none, []⟩)] := by
    unfold register
    dsimp only
    rw [hs]
    rfl
  have hall : parseAll [] [(key, text)] = .ok [(key, ⟨[.text s], [], [], none, []⟩)] := by
    unfold parseAll
    rw [List.foldlM_cons, hregister]
    rfl
  have hparents : List.forM [(key, (⟨[.text s], [], [], none, []⟩ : Sheet))]
      (fun entry => checkParents [(key, ⟨[.text s], [], [], none, []⟩)] entry.1 2 entry.1 []) =
        .ok () := by
    simp [checkParents, Dict.get?]
  refine ⟨⟨[(key, ⟨[.text s], [], [], none, []⟩)]⟩, ?_⟩
  unfold ofTexts
  rw [hall]
  simp only [bind, Except.bind, List.length_singleton, hparents]
  rfl

end Engine

/-- A text that is plain without its tags can be compiled. -/
theorem Template.compile_of_isPlain {text : String}
    (h : Language.isPlain (Piece.withoutTags (Piece.ofText text))) (name : String)
    (options : Options) :
    compile name text options = .ok ⟨name, text, Piece.normalText (Piece.ofText text),
      Piece.names (Piece.ofText text), options⟩ :=
  compile_eq_ok.mpr ⟨Engine.exists_ofTexts_of_isPlain _ h, rfl⟩

end Stencil
