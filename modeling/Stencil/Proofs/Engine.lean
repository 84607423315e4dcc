/-
Engines of sheets that stand alone.

Besides a text that is no template, what keeps an engine from being made is a sheet that inherits
from or imports another one.  A text that passes the check by itself inherits from nothing: the
only sheet there is itself, and a sheet must not be its own parent.  It may still import itself
under the key of the check, a key that no render knows.
-/
import Mathlib
import Stencil.Engine
import Stencil.Proofs.Activity
import Stencil.Proofs.Dict

namespace Stencil

namespace Language.Sheet

/-- Whether a sheet mentions no other one at its top. -/
def IsAlone (s : Sheet) : Prop := s.parent = none ∧ s.imports = []

variable {text : String} {s : Sheet} {nodes : List Node}

/-- A text makes a sheet if it follows the grammar, its tree is one of nodes and these go
together. -/
theorem ofText_eq_ok :
    ofText text = .ok s ↔ ∃ tree nodes, parse text.toList = .ok tree ∧
      readTemplate tree = .ok nodes ∧ ofNodes (trimTemplate nodes) = .ok s := by
  unfold ofText
  -- The matcher is never unfolded: its fuel is a large number.
  generalize parse text.toList = parsed
  cases parsed with
  | error furthest => exact ⟨nofun, fun ⟨_, _, h, _⟩ => nomatch h⟩
  | ok tree =>
      dsimp only
      cases hfound : readTemplate tree with
      | error problem =>
          refine ⟨nofun, ?_⟩
          rintro ⟨_, _, ⟨⟩, h, -⟩
          rw [hfound] at h
          cases h
      | ok nodes =>
          refine ⟨fun h => ⟨tree, nodes, rfl, hfound, h⟩, ?_⟩
          rintro ⟨_, _, ⟨⟩, h, hs⟩
          rw [hfound] at h
          cases h
          exact hs

theorem nodes_of_ofNodes (h : ofNodes nodes = .ok s) : s.nodes = nodes := by
  obtain ⟨blocks, -, h⟩ := Activity.bind_eq_ok.mp h
  obtain ⟨macros, -, h⟩ := Activity.bind_eq_ok.mp h
  cases h
  rfl

end Language.Sheet

namespace Engine

open Stencil.Language (Sheet)

variable {sheets : Dict Sheet} {texts : List (String × String)}

theorem register_of_ofText (entry : String × String) {sheet : Sheet}
    (h : Sheet.ofText entry.2 = .ok sheet) (sheets : Dict Sheet) :
    register sheets entry = .ok (sheets.insert entry.1 sheet) := by
  unfold register
  -- The text is never read here: the fuel of the matcher is a large number.
  generalize Sheet.ofText entry.2 = found at h ⊢
  subst h
  rfl

theorem register_of_not_ofText (entry : String × String) {defect : Language.Defect}
    (h : Sheet.ofText entry.2 = .error defect) (sheets : Dict Sheet) :
    register sheets entry = .error (.defective entry.1 defect) := by
  unfold register
  generalize Sheet.ofText entry.2 = found at h ⊢
  subst h
  rfl

/-- Whatever holds of the sheets that are there and of those of the texts holds of all that are
there in the end. -/
theorem exists_parseAll {P : Sheet → Prop} (hsheets : ∀ entry ∈ sheets, P entry.2)
    (htexts : ∀ entry ∈ texts, ∃ sheet, Sheet.ofText entry.2 = .ok sheet ∧ P sheet) :
    ∃ found, parseAll sheets texts = .ok found ∧ ∀ entry ∈ found, P entry.2 := by
  induction texts generalizing sheets with
  | nil => exact ⟨sheets, rfl, hsheets⟩
  | cons entry texts ih =>
      obtain ⟨sheet, hsheet, hP⟩ := htexts entry List.mem_cons_self
      have hinsert : ∀ e ∈ sheets.insert entry.1 sheet, P e.2 := by
        intro e he
        rcases Dict.mem_insert he with rfl | he
        · exact hP
        · exact hsheets e he
      obtain ⟨found, hfound, hall⟩ :=
        ih hinsert fun e he => htexts e (List.mem_cons_of_mem _ he)
      refine ⟨found, ?_, hall⟩
      rw [parseAll, List.foldlM_cons, register_of_ofText entry hsheet]
      exact hfound

theorem checkParents_of_forall (h : ∀ entry ∈ sheets, entry.2.parent = none) (start key : String)
    (fuel : Nat) : checkParents sheets start (fuel + 1) key [] = .ok () := by
  have hnone : (sheets.get? key).bind Sheet.parent = none := by
    cases hget : sheets.get? key with
    | none => rfl
    | some sheet => exact h _ (Dict.mem_of_get?_eq_some hget)
  rw [checkParents, hnone]
  rfl

theorem checkImports_of_isAlone {sheet : Sheet} (h : sheet.IsAlone) (key : String) :
    checkImports sheets key sheet = .ok () := by
  rw [checkImports, h.2]
  rfl

theorem forM_eq_ok {ε α : Type} {f : α → Except ε Unit} {l : List α}
    (h : ∀ a ∈ l, f a = .ok ()) : l.forM f = .ok () := by
  induction l with
  | nil => rfl
  | cons a l ih =>
      have hl := ih fun b hb => h b (List.mem_cons_of_mem _ hb)
      have ha := h a List.mem_cons_self
      show (f a >>= fun _ => l.forM f) = .ok ()
      rw [ha]
      exact hl

/-- Texts whose sheets stand alone make an engine. -/
theorem exists_ofTexts_of_isAlone
    (h : ∀ entry ∈ texts, ∃ sheet, Sheet.ofText entry.2 = .ok sheet ∧ sheet.IsAlone) :
    ∃ e, ofTexts texts = .ok e := by
  obtain ⟨sheets, hparse, hall⟩ := exists_parseAll (P := Sheet.IsAlone)
    (List.forall_mem_nil _) h
  have hparents : sheets.forM (fun entry =>
      checkParents sheets entry.1 (sheets.length + 1) entry.1 []) = .ok () :=
    forM_eq_ok fun entry _ => checkParents_of_forall (fun e he => (hall e he).1) _ _ _
  have himports : sheets.forM (fun entry => checkImports sheets entry.1 entry.2) = .ok () :=
    forM_eq_ok fun entry he => checkImports_of_isAlone (hall entry he) _
  refine ⟨⟨sheets⟩, ?_⟩
  simp only [ofTexts, hparse, bind, Except.bind, hparents, himports, pure, Except.pure]

/-- A text that passes the check by itself has a sheet that inherits from nothing and imports at
most itself. -/
theorem exists_ofText_of_ofTexts {key text : String} {e : Engine}
    (h : ofTexts [(key, text)] = .ok e) :
    ∃ sheet, Sheet.ofText text = .ok sheet ∧ sheet.parent = none ∧
      ∀ i ∈ sheet.imports, i.1 = key := by
  obtain ⟨sheets, hsheets, h⟩ := Activity.bind_eq_ok.mp h
  obtain ⟨⟨⟩, hparents, h⟩ := Activity.bind_eq_ok.mp h
  obtain ⟨⟨⟩, himports, -⟩ := Activity.bind_eq_ok.mp h
  cases hsheet : Sheet.ofText text with
  | error defect =>
      have hregister := register_of_not_ofText (key, text) hsheet []
      simp only [parseAll, List.foldlM_cons, hregister, bind, Except.bind] at hsheets
      cases hsheets
  | ok sheet =>
      have hregister := register_of_ofText (key, text) hsheet []
      have hone : sheets = [(key, sheet)] := by
        simpa only [parseAll, List.foldlM_cons, List.foldlM_nil, hregister, bind, Except.bind, pure,
          Except.pure, Dict.insert, Except.ok.injEq, eq_comm] using hsheets
      subst hone
      refine ⟨sheet, rfl, ?_, fun i hi => ?_⟩
      · cases hparent : sheet.parent with
        | none => rfl
        | some parent =>
            -- The parent is the sheet itself, or it is missing.
            exfalso
            have hfirst : checkParents [(key, sheet)] key 2 key [] ≠ .ok () := by
              by_cases hkey : key = parent
              · subst hkey
                simp [checkParents, Dict.get?, Dict.hasKey, hparent]
              · simp [checkParents, Dict.get?, Dict.hasKey, hparent, hkey]
            obtain ⟨⟨⟩, hcheck, -⟩ := Activity.bind_eq_ok.mp hparents
            exact hfirst hcheck
      · by_contra hne
        obtain ⟨⟨⟩, hcheck, -⟩ := Activity.bind_eq_ok.mp himports
        change checkImports [(key, sheet)] key sheet = .ok () at hcheck
        unfold checkImports at hcheck
        split at hcheck
        · cases hcheck
        next hnone =>
          have hfound := List.find?_eq_none.mp hnone i hi
          simp [Dict.hasKey, Dict.get?, Ne.symm hne] at hfound

end Engine

end Stencil
