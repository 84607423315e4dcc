/-
Trees that say the same under other names.

Two trees say the same if one is read to the renamed nodes of the other.  Inclusions are where the
names stand, and the text of a comment says nothing; the other complete parts are to be the same in
both trees.  Then a section says the same as soon as the trees in it do, for what is read of a
section besides its bodies is read of its tags.
-/
import Mathlib
import Stencil.Proofs.Language.Renaming
import Stencil.Proofs.Language.Rereading

namespace Stencil.Language

variable {σ : String → String} {n : Nat} {t u : Parse} {ts us vs ws cs ds : List Parse}
  {r : Rule} {x y : List Char} {ns ms : List Node}

/-! ## Rows of trees -/

/-- The rules of trees that may differ. -/
def retellable : List Rule := .includeTag :: .commentTag :: (contents ++ sections)

/-- Whether two rows of trees say the same under other names, tree by tree. -/
inductive Retold (σ : String → String) : List Parse → List Parse → Prop
  | nil : Retold σ [] []
  | leaf {t u : Parse} {ts us : List Parse} (hrule : u.rule = t.rule)
      (hsame : u = t ∨ t.rule ∈ retellable)
      (hread : ∀ n, readNode n u = renameNodes σ <$> readNode n t) (h : Retold σ ts us) :
      Retold σ (t :: ts) (u :: us)
  | node {r : Rule} (hr : r ∈ contents ∨ r ∈ sections) (x y : List Char) {cs ds ts us : List Parse}
      (hin : Retold σ cs ds) (h : Retold σ ts us) :
      Retold σ (.node r x cs :: ts) (.node r y ds :: us)

namespace Retold

theorem append (h : Retold σ ts us) (h' : Retold σ vs ws) : Retold σ (ts ++ vs) (us ++ ws) := by
  induction h with
  | nil => exact h'
  | leaf hrule hsame hread _ ih => exact .leaf hrule hsame hread ih
  | node hr x y hin _ _ ih => exact .node hr x y hin ih

theorem reverse (h : Retold σ ts us) : Retold σ ts.reverse us.reverse := by
  induction h with
  | nil => exact .nil
  | leaf hrule hsame hread _ ih =>
      rw [List.reverse_cons, List.reverse_cons]
      exact ih.append (.leaf hrule hsame hread .nil)
  | node hr x y hin _ _ ih =>
      rw [List.reverse_cons, List.reverse_cons]
      exact ih.append (.node hr x y hin .nil)

end Retold

/-- Whether one tree is read to the renamed nodes of another one. -/
structure Retells (σ : String → String) (n : Nat) (t u : Parse) : Prop where
  rule_eq : u.rule = t.rule
  same : u = t ∨ t.rule ∈ retellable
  read : readNode n u = renameNodes σ <$> readNode n t

theorem readNodes_cons_eq :
    readNodes (n + 1) (t :: ts) = do
      let ns ← readNode n t
      let ms ← readNodes (n + 1) ts
      return ns ++ ms := by
  simp only [readNodes, List.mapM_cons, bind_assoc, pure_bind, List.flatten_cons]

section Rows

variable (h : List.Forall₂ (Retells σ n) ts us)

include h

theorem readNodes_of_forall₂ : readNodes (n + 1) us = renameNodes σ <$> readNodes (n + 1) ts := by
  induction h with
  | nil => rw [readNodes_nil]; rfl
  | cons ht _ ih =>
      rw [readNodes_cons_eq, readNodes_cons_eq, ht.read, ih]
      simp only [map_bind, bind_map_left, map_pure, renameNodes_append]

/-- What is chosen by its rule is chosen from both rows. -/
theorem forall₂_filter (f : Rule → Bool) :
    List.Forall₂ (Retells σ n) (ts.filter fun t => f t.rule) (us.filter fun u => f u.rule) := by
  refine List.rel_filter (fun t u htu => ?_) h
  dsimp only
  rw [htu.rule_eq]

theorem forall₂_takeWhile (f : Rule → Bool) :
    List.Forall₂ (Retells σ n) (ts.takeWhile fun t => f t.rule)
      (us.takeWhile fun u => f u.rule) := by
  induction h with
  | nil => exact .nil
  | cons ht _ ih =>
      simp only [List.takeWhile_cons, ht.rule_eq]
      split
      · exact .cons ht ih
      · exact .nil

/-- The tags among both rows are the same. -/
theorem filter_eq_of_forall₂ {rules : List Rule} (hrules : ∀ q ∈ rules, q ∉ retellable) :
    us.filter (fun u => u.rule ∈ rules) = ts.filter fun t => t.rule ∈ rules := by
  induction h with
  | nil => rfl
  | @cons t u ts us ht _ ih =>
      rcases ht.same with rfl | hretellable
      · rw [List.filter_cons, List.filter_cons, ih]
      · have hnot : t.rule ∉ rules := fun hmem => hrules _ hmem hretellable
        have hnot' : u.rule ∉ rules := ht.rule_eq ▸ hnot
        rw [List.filter_cons_of_neg (by simpa using hnot'),
          List.filter_cons_of_neg (by simpa using hnot), ih]

end Rows

/-! ## Sections -/

/-- The parts of a conditional under other names. -/
def Branches.rename (σ : String → String) (b : Branches) : Branches :=
  { b with finished := renameBranches σ b.finished, body := renameNodes σ b.body }

theorem Branches.finish_rename (b : Branches) : (b.rename σ).finish = b.finish.rename σ := by
  obtain ⟨finished, margin, condition, body⟩ := b
  cases condition with
  | none => rfl
  | some c => simp only [finish, rename, renameBranches_append]; rfl

theorem Branches.add_rename (h : Retells σ n t u) (b : Branches) :
    Branches.add (readNode n) (readValue n) (b.rename σ) u =
      Branches.rename σ <$> Branches.add (readNode n) (readValue n) b t := by
  have hequal : t.rule ∉ retellable → u = t := h.same.resolve_right
  rw [add, add, h.rule_eq]
  generalize hr : t.rule = r at hequal ⊢
  cases r with
  | ifTag | elifTag =>
      obtain rfl := hequal (by decide)
      dsimp only
      rw [finish_rename]
      simp only [map_bind, map_pure]
      rfl
  | elseTag =>
      obtain rfl := hequal (by decide)
      dsimp only
      rw [finish_rename]
      rfl
  | endifTag => rfl
  | _ =>
      dsimp only
      rw [h.read]
      simp only [map_bind, map_pure, bind_map_left]
      refine bind_congr fun ns => ?_
      simp only [rename, renameNodes_append]

theorem foldlM_add_rename (h : List.Forall₂ (Retells σ n) cs ds) (b : Branches) :
    ds.foldlM (Branches.add (readNode n) (readValue n)) (b.rename σ) =
      Branches.rename σ <$> cs.foldlM (Branches.add (readNode n) (readValue n)) b := by
  induction h generalizing b with
  | nil => rfl
  | cons ht _ ih =>
      rw [List.foldlM_cons, List.foldlM_cons, Branches.add_rename ht]
      simp only [map_bind, bind_map_left, ih]

theorem conditionalOf_rename (b : Branches) (closing : Margin) :
    conditionalOf (b.rename σ) closing = (conditionalOf b closing).rename σ := by
  obtain ⟨finished, margin, condition, body⟩ := b
  cases condition with
  | none => rfl
  | some c =>
      show Node.choose (Branches.rename σ ⟨finished, margin, some c, body⟩).finish.finished none
        closing = _
      rw [Branches.finish_rename]
      rfl

theorem loopOf_rename (tag : Parse) (container : Expr) (closing : Margin)
    (otherwise : Option (List Node)) (body : List Node) :
    loopOf tag container closing (renameOtherwise σ otherwise) (renameNodes σ body) =
      renameNodes σ <$> loopOf tag container closing otherwise body := by
  unfold loopOf
  split <;> rfl

section Sections

variable (hin : ∀ n, List.Forall₂ (Retells σ n) cs ds)

include hin

theorem childrenOf_retold {q : Rule} (hq : q ∈ sectionTags) (r : Rule) (x y : List Char) :
    childrenOf [q] (.node r y ds) = childrenOf [q] (.node r x cs) := by
  refine filter_eq_of_forall₂ (hin 0) (List.forall_mem_singleton.mpr ?_)
  fin_cases hq <;> decide

theorem readBody_retold (n : Nat) :
    readBody n (.node r y ds) = renameNodes σ <$> readBody n (.node r x cs) := by
  cases n with
  | zero => rw [readBody, readBody]; rfl
  | succ n =>
      rw [readBody, readBody]
      cases n with
      | zero => rw [readNodes, readNodes]; rfl
      | succ n =>
          exact readNodes_of_forall₂ (forall₂_filter (hin n) fun r => decide (r ∈ contents))

theorem readNodes_retold (n : Nat) : readNodes n ds = renameNodes σ <$> readNodes n cs := by
  cases n with
  | zero => rw [readNodes, readNodes]; rfl
  | succ n => exact readNodes_of_forall₂ (hin n)

theorem readNode_filterSection_retold (n : Nat) :
    readNode (n + 1) (.node .filterSection y ds) =
      renameNodes σ <$> readNode (n + 1) (.node .filterSection x cs) := by
  have htag := childOf_eq (childrenOf_retold hin (q := .filterTag) (by decide) .filterSection x y)
  have hclosing := childMargin_eq
    (childrenOf_retold hin (q := .endfilterTag) (by decide) .filterSection x y)
  rw [readNode, readNode]
  dsimp only [Tree.rule]
  rw [htag, hclosing, readBody_retold (x := x) hin]
  simp only [map_bind, bind_map_left, map_pure]
  rfl

theorem readNode_block_retold (n : Nat) :
    readNode (n + 1) (.node .block y ds) =
      renameNodes σ <$> readNode (n + 1) (.node .block x cs) := by
  have htag := childOf_eq (childrenOf_retold hin (q := .blockTag) (by decide) .block x y)
  have hclosing := childMargin_eq
    (childrenOf_retold hin (q := .endblockTag) (by decide) .block x y)
  rw [readNode, readNode]
  dsimp only [Tree.rule]
  rw [htag, hclosing, readBody_retold (x := x) hin]
  simp only [map_bind, bind_map_left, map_pure]
  rfl

theorem readNode_macroDefinition_retold (n : Nat) :
    readNode (n + 1) (.node .macroDefinition y ds) =
      renameNodes σ <$> readNode (n + 1) (.node .macroDefinition x cs) := by
  have htag := childOf_eq (childrenOf_retold hin (q := .macroTag) (by decide) .macroDefinition x y)
  have hclosing := childMargin_eq
    (childrenOf_retold hin (q := .endmacroTag) (by decide) .macroDefinition x y)
  rw [readNode, readNode]
  dsimp only [Tree.rule]
  rw [htag, hclosing, readBody_retold (x := x) hin]
  simp only [map_bind, bind_map_left, map_pure]
  rfl

theorem readNode_conditional_retold
    (hr : r ∈ [Rule.contentIf, .blockIf, .macroIf, .forIf, .filterSectionIf]) (n : Nat) :
    readNode (n + 1) (.node r y ds) = renameNodes σ <$> readNode (n + 1) (.node r x cs) := by
  have hclosing : childMargin .endifTag (.node r y ds) = childMargin .endifTag (.node r x cs) :=
    childMargin_eq (filter_eq_of_forall₂ (hin 0) (List.forall_mem_singleton.mpr (by decide)))
  have hfold : ds.foldlM (Branches.add (readNode n) (readValue n)) {} =
      Branches.rename σ <$> cs.foldlM (Branches.add (readNode n) (readValue n)) {} :=
    foldlM_add_rename (hin n) {}
  rw [readNode_conditional_eq hr, readNode_conditional_eq hr, hclosing, hfold]
  simp only [map_bind, bind_map_left]
  refine bind_congr fun b => ?_
  rw [conditionalOf_rename]
  rfl

theorem readNode_forloop_retold (n : Nat) :
    readNode (n + 1) (.node .forloop y ds) =
      renameNodes σ <$> readNode (n + 1) (.node .forloop x cs) := by
  have htag := childOf_eq (childrenOf_retold hin (q := .forTag) (by decide) .forloop x y)
  have helse := childrenOf_retold hin (q := .elseTag) (by decide) .forloop x y
  have hclosing := childMargin_eq
    (childrenOf_retold hin (q := .endforTag) (by decide) .forloop x y)
  have hfirst : readNodes n (firstBody ds) = renameNodes σ <$> readNodes n (firstBody cs) :=
    readNodes_retold (fun n => forall₂_filter (forall₂_takeWhile (hin n) fun r => r != .elseTag)
      fun r => decide (r ∈ contents)) n
  have hlast : readNodes n (lastBody ds) = renameNodes σ <$> readNodes n (lastBody cs) :=
    readNodes_retold (fun n => forall₂_filter
      (List.rel_reverse (forall₂_takeWhile (List.rel_reverse (hin n)) fun r => r != .elseTag))
      fun r => decide (r ∈ contents)) n
  have hotherwise : readOtherwise n (.node .forloop y ds) =
      renameOtherwise σ <$> readOtherwise n (.node .forloop x cs) := by
    rw [readOtherwise, readOtherwise, helse]
    split
    · rfl
    · show some <$> readNodes n (lastBody ds) = _
      rw [hlast]
      simp only [Functor.map_map]
      rfl
  rw [readNode_forloop_eq, readNode_forloop_eq, htag, hclosing, hotherwise, hfirst]
  simp only [map_bind, bind_map_left, loopOf_rename]

/-- What has a body says the same if the trees in it do. -/
theorem readNode_retold (hr : r ∈ contents ∨ r ∈ sections) (n : Nat) :
    readNode n (.node r y ds) = renameNodes σ <$> readNode n (.node r x cs) := by
  cases n with
  | zero => rw [readNode, readNode]; rfl
  | succ n =>
      rcases hr with hpart | hsection
      · rw [readNode_part hpart, readNode_part hpart]
        exact readNodes_retold hin n
      · cases r with
        | filterSection => exact readNode_filterSection_retold hin n
        | block => exact readNode_block_retold hin n
        | macroDefinition => exact readNode_macroDefinition_retold hin n
        | forloop => exact readNode_forloop_retold hin n
        | contentIf | blockIf | macroIf | forIf | filterSectionIf =>
            exact readNode_conditional_retold hin (by decide) n
        | _ => exact absurd hsection (by decide)

end Sections

/-- Rows of trees that say the same do so at every level of nesting. -/
theorem Retold.forall₂ (h : Retold σ ts us) : ∀ n, List.Forall₂ (Retells σ n) ts us := by
  induction h with
  | nil => exact fun _ => .nil
  | leaf hrule hsame hread _ ih => exact fun n => .cons ⟨hrule, hsame, hread n⟩ (ih n)
  | @node r hr x y cs ds ts us _ _ ihin ih =>
      have hmem : r ∈ retellable :=
        List.mem_cons_of_mem _ (List.mem_cons_of_mem _ (List.mem_append.mpr hr))
      exact fun n => .cons ⟨rfl, .inr hmem, readNode_retold ihin hr n⟩ (ih n)

/-- Templates that say the same have the same nodes under other names. -/
theorem readTemplate_of_retold (h : Retold σ ts us)
    (hts : readTemplate (.node .template x ts.reverse) = .ok ns)
    (hus : readTemplate (.node .template y us.reverse) = .ok ms) : ms = renameNodes σ ns := by
  rw [readTemplate] at hts hus
  -- The two may be nested to different depths, so both are read with the larger fuel.
  generalize 3 * depth _ + 3 = n at hts
  generalize 3 * depth _ + 3 = m at hus
  have hrows := forall₂_filter (h.reverse.forall₂ (max n m)) fun r => r != .commentTag
  have hread := readNodes_of_forall₂ hrows
  change readNodes _ ((Tree.node Rule.template y us.reverse).children.filter _) =
    renameNodes σ <$>
      readNodes _ ((Tree.node Rule.template x ts.reverse).children.filter _) at hread
  rw [readNodes_of_le hts (by omega), readNodes_of_le hus (by omega)] at hread
  exact Except.ok.inj hread

end Stencil.Language
