/-
Trees with further parts.

Texts, inclusions and comments can stand among the parts of any body, and nothing else in a
template depends on how many of them there are, or on what stands in a comment or a raw section.
`Grown` relates rows of trees that differ only in such parts, at any depth.
-/
import Mathlib
import Stencil.Language.Reading

namespace Stencil.Language

/-- Whether a tree is a text, an inclusion or a comment among the parts of a body, or a comment or a
raw section itself. -/
def IsAddition (t : Parse) : Prop :=
  t.rule = .commentTag ∨ (t.rule = .raw ∧ ∃ c ∈ t.children, c.rule = .rawText) ∨
    ∃ part x r y ts, part ∈ contents ∧ r ∈ [Rule.text, .includeTag, .commentTag] ∧
      t = .node part x [.node r y ts]

/-- The rules of additions. -/
def additions : List Rule := .commentTag :: .raw :: contents

theorem rule_of_isAddition {t : Parse} (h : IsAddition t) : t.rule ∈ additions := by
  rcases h with h | ⟨h, -⟩ | ⟨part, x, r, y, ts, hpart, -, rfl⟩
  · rw [h]
    decide
  · rw [h]
    decide
  · exact List.mem_cons_of_mem _ (List.mem_cons_of_mem _ hpart)

/-- The rules of what has a body. -/
def sections : List Rule :=
  [.block, .contentIf, .blockIf, .macroIf, .forIf, .filterSectionIf, .forloop, .filterSection,
    .macroDefinition]

/-- Whether two rows of trees differ only in additions, and in the texts of the trees around
them. -/
inductive Grown : List Parse → List Parse → Prop
  | nil : Grown [] []
  | same (t : Parse) {ts us : List Parse} (h : Grown ts us) : Grown (t :: ts) (t :: us)
  | added {c : Parse} {ts us : List Parse} (hc : IsAddition c) (h : Grown ts us) :
      Grown ts (c :: us)
  | dropped {c : Parse} {ts us : List Parse} (hc : IsAddition c) (h : Grown ts us) :
      Grown (c :: ts) us
  | node {r : Rule} (hr : r ∈ contents ∨ r ∈ sections) (x y : List Char)
      {cs ds ts us : List Parse} (hin : Grown cs ds) (h : Grown ts us) :
      Grown (.node r x cs :: ts) (.node r y ds :: us)

namespace Grown

variable {ts us vs ws : List Parse}

theorem refl (ts : List Parse) : Grown ts ts := by
  induction ts with
  | nil => exact .nil
  | cons t ts ih => exact .same t ih

theorem append (h : Grown ts us) (h' : Grown vs ws) : Grown (ts ++ vs) (us ++ ws) := by
  induction h with
  | nil => exact h'
  | same t _ ih => exact .same t ih
  | added hc _ ih => exact .added hc ih
  | dropped hc _ ih => exact .dropped hc ih
  | node hr x y hin _ _ ih => exact .node hr x y hin ih

theorem reverse (h : Grown ts us) : Grown ts.reverse us.reverse := by
  induction h with
  | nil => exact .nil
  | same t _ ih =>
      rw [List.reverse_cons, List.reverse_cons]
      exact ih.append (.same t .nil)
  | added hc _ ih => simpa using ih.append (.added hc .nil)
  | dropped hc _ ih => simpa using ih.append (.dropped hc .nil)
  | node hr x y hin _ _ ih =>
      rw [List.reverse_cons, List.reverse_cons]
      exact ih.append (.node hr x y hin .nil)

theorem of_additions (hts : ∀ c ∈ ts, IsAddition c) (hus : ∀ c ∈ us, IsAddition c) :
    Grown ts us := by
  induction ts with
  | nil =>
      induction us with
      | nil => exact .nil
      | cons c us ih => exact .added (hus c List.mem_cons_self) (ih (List.forall_mem_cons.mp hus).2)
  | cons c ts ih => exact .dropped (hts c List.mem_cons_self) (ih (List.forall_mem_cons.mp hts).2)

end Grown

/-! ## Depths -/

theorem depths_append (ts us : List Parse) : depths (ts ++ us) = max (depths ts) (depths us) := by
  induction ts with
  | nil => simp [depths]
  | cons t ts ih => rw [List.cons_append, depths, depths, ih, Nat.max_assoc]

theorem depths_reverse (ts : List Parse) : depths ts.reverse = depths ts := by
  induction ts with
  | nil => rfl
  | cons t ts ih => rw [List.reverse_cons, depths_append, ih, depths, depths, depths,
      Nat.max_zero, Nat.max_comm]

/-- Whether a row of trees is another one with further parts, and no less deep. -/
structure Enlarged (ts us : List Parse) : Prop where
  grown : Grown ts us
  depths_le : depths ts ≤ depths us

namespace Enlarged

variable {ts us vs ws : List Parse}

theorem refl (ts : List Parse) : Enlarged ts ts := ⟨.refl ts, Nat.le_refl _⟩

theorem of_additions (hus : ∀ c ∈ us, IsAddition c) : Enlarged [] us :=
  ⟨.of_additions (by simp) hus, Nat.zero_le _⟩

theorem append (h : Enlarged ts us) (h' : Enlarged vs ws) : Enlarged (ts ++ vs) (us ++ ws) := by
  refine ⟨h.grown.append h'.grown, ?_⟩
  rw [depths_append, depths_append]
  exact max_le_max h.depths_le h'.depths_le

/-- What was read last is inside a node in the order of the text. -/
theorem node {r : Rule} (hr : r ∈ contents ∨ r ∈ sections) (x y : List Char)
    (h : Enlarged ts us) : Enlarged [.node r x ts.reverse] [.node r y us.reverse] := by
  refine ⟨.node hr x y h.grown.reverse .nil, ?_⟩
  simp only [depths, depth, depths_reverse, Nat.max_zero]
  exact Nat.succ_le_succ h.depths_le

end Enlarged

end Stencil.Language
