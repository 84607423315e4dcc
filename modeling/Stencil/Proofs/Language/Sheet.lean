/-
Sheets of texts with inclusions.

A text that makes a sheet of its own still makes one when inclusions are put into it where they
stand in the text, and the sheet mentions no other one at its top as before.
-/
import Mathlib
import Stencil.Proofs.Engine
import Stencil.Proofs.Language.Rereading
import Stencil.Proofs.Language.Top

namespace Stencil.Language

open Stencil.Grammar (Reads)

variable {n : Nat} {ts us : List Parse} {t : Parse} {ns : List Node}

/-- What is read of a tree is part of what is read of the row it is in. -/
theorem outline_subset_of_mem (h : readNodes (n + 1) ts = .ok ns) (ht : t ∈ ts) :
    ∃ ms, readNode n t = .ok ms ∧ outline ms ⊆ outline ns := by
  induction ts generalizing ns with
  | nil => cases ht
  | cons u ts ih =>
      obtain ⟨a, b, ha, hb, rfl⟩ := readNodes_cons.mp h
      rw [outline_append]
      rcases List.mem_cons.mp ht with rfl | ht
      · exact ⟨a, ha, List.subset_append_left _ _⟩
      · obtain ⟨ms, hms, hsubset⟩ := ih hb ht
        exact ⟨ms, hms, List.Subset.trans hsubset (List.subset_append_right _ _)⟩

/-- A tag that mentions another template is in the outline. -/
theorem exists_mem_outline (h : readNode n t = .ok ns)
    (ht : t.rule = .extendsTag ∨ t.rule = .importMacroTag) :
    ∃ e ∈ outline ns, e.parent?.isSome ∨ e.imported?.isSome := by
  cases n with
  | zero =>
      rw [readNode] at h
      cases h
  | succ n =>
      rw [readNode] at h
      rcases ht with ht | ht
      · rw [ht] at h
        obtain ⟨file, -, h⟩ := Activity.bind_eq_ok.mp h
        cases h
        exact ⟨_, List.mem_singleton_self _, .inl rfl⟩
      · rw [ht] at h
        obtain ⟨file, -, h⟩ := Activity.bind_eq_ok.mp h
        obtain ⟨space, -, h⟩ := Activity.bind_eq_ok.mp h
        cases h
        exact ⟨_, List.mem_singleton_self _, .inr rfl⟩

/-- A template whose outline mentions no other one has no tag for that. -/
theorem ne_of_readTemplate {text : List Char} (h : readTemplate (templateTree text ts) = .ok ns)
    (houtline : ∀ e ∈ outline ns, e.parent? = none ∧ e.imported? = none) (ht : t ∈ ts) :
    t.rule ≠ .extendsTag ∧ t.rule ≠ .importMacroTag := by
  rw [← not_or]
  intro hrule
  have hmem : t ∈ ts.reverse.filter fun c => c.rule != .commentTag := by
    refine List.mem_filter.mpr ⟨List.mem_reverse.mpr ht, ?_⟩
    rcases hrule with hrule | hrule <;> rw [hrule] <;> rfl
  obtain ⟨ms, hms, hsubset⟩ := outline_subset_of_mem h hmem
  obtain ⟨e, he, hmention⟩ := exists_mem_outline hms hrule
  obtain ⟨hparent, himported⟩ := houtline e (hsubset he)
  rw [hparent, himported] at hmention
  exact hmention.elim nofun nofun

namespace Sheet

/-- A sheet stands alone if its outline has no mention of another one. -/
theorem isAlone_iff {s : Sheet} (h : ofNodes ns = .ok s) :
    s.IsAlone ↔ ∀ e ∈ outline ns, e.parent? = none ∧ e.imported? = none := by
  obtain ⟨blocks, -, h⟩ := Activity.bind_eq_ok.mp h
  obtain ⟨macros, -, h⟩ := Activity.bind_eq_ok.mp h
  cases h
  simp only [IsAlone, filterMap_parentOf?, filterMap_importOf?, List.getLast?_eq_none_iff,
    List.filterMap_eq_nil_iff]
  exact ⟨fun h e he => ⟨h.1 e he, h.2 e he⟩, fun h => ⟨fun e he => (h e he).1, fun e he => (h e he).2⟩⟩

/-- Whether a text is read as a template that has no blocks and no macros and mentions no other
template. -/
def isUnstructured (text : String) : Bool :=
  match parse text.toList with
  | .error _ => false
  | .ok tree =>
    match readTemplate tree with
    | .error _ => false
    | .ok nodes => (outline nodes).isEmpty

theorem exists_ofText_of_isUnstructured {text : String} (h : isUnstructured text) :
    ∃ s, ofText text = .ok s ∧ s.IsAlone := by
  unfold isUnstructured at h
  split at h
  · cases h
  next tree hparse =>
    split at h
    · cases h
    next nodes hread =>
      have hnil : outline (trimTemplate nodes) = outline [] := by
        rw [outline_trimTemplate]
        exact List.isEmpty_iff.mp h
      obtain ⟨s, hs, hparent, himports⟩ :=
        exists_ofNodes_of_outline hnil (s := ⟨[], [], [], none, []⟩) rfl
      exact ⟨s, ofText_eq_ok.mpr ⟨tree, nodes, hparse, hread, hs⟩, hparent, himports⟩

variable {written : String → List Char} {ps : List Piece}

/-- A text without inclusions that makes a sheet of its own makes one with them. -/
theorem exists_ofText_of_inText (hwritten : ∀ name, IsInclusion (written name)) (hin : InText ps)
    {s : Sheet} (hs : ofText (String.ofList (bare ps)) = .ok s) (halone : s.IsAlone) :
    ∃ s', ofText (String.ofList (Piece.write written ps)) = .ok s' ∧ s'.IsAlone := by
  obtain ⟨tree, nodes, htree, hnodes, hs⟩ := ofText_eq_ok.mp hs
  rw [String.toList_ofList] at htree
  obtain ⟨ts, hreads, rfl⟩ := parse_eq_ok_iff.mp htree
  have houtline := (isAlone_iff hs).mp halone
  rw [outline_trimTemplate] at houtline
  obtain ⟨us, hreads', hus⟩ := exists_reads_wholeTemplate hwritten hin hreads
    fun t => ne_of_readTemplate hnodes houtline
  obtain ⟨nodes', hnodes', hsame⟩ := readTemplate_of_enlarged (y := Piece.write written ps) hus hnodes
  have htrim : outline (trimTemplate nodes') = outline (trimTemplate nodes) := by
    rw [outline_trimTemplate, outline_trimTemplate, hsame]
  obtain ⟨s', hs', hparent, himports⟩ := exists_ofNodes_of_outline htrim hs
  refine ⟨s', ofText_eq_ok.mpr ⟨_, nodes', ?_, hnodes', hs'⟩, hparent.trans halone.1,
    himports.trans halone.2⟩
  rw [String.toList_ofList, parse_of_reads hreads', templateTree]

end Sheet

end Stencil.Language
