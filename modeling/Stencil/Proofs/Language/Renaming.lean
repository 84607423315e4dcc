/-
Renaming the templates that a template mentions.

A sheet mentions other sheets by their keys: those that it includes, the one that it inherits from,
and those whose macros it imports.  Nothing that is made of the nodes of a template on the way to a
sheet looks at these keys, so a renaming can be done before or after it.  Expressions mention no
template, and nothing in them changes.
-/
import Mathlib
import Stencil.Language.Sheet
import Stencil.Proofs.Activity
import Stencil.Proofs.Dict

namespace Stencil.Language

mutual

/-- A node with other names for the templates that it mentions. -/
def Node.rename (σ : String → String) : Node → Node
  | .text s => .text s
  | .raw opening s closing => .raw opening s closing
  | .comment m => .comment m
  | .output m e => .output m e
  | .assign m name e isGlobal => .assign m name e isGlobal
  | .includes m files mayMiss => .includes m (files.map σ) mayMiss
  | .inherits m file => .inherits m (σ file)
  | .imports m file space => .imports m (σ file) space
  | .filtered opening filter body closing => .filtered opening filter (renameNodes σ body) closing
  | .block opening name body closing => .block opening name (renameNodes σ body) closing
  | .loop opening key value container body otherwise closing =>
    .loop opening key value container (renameNodes σ body) (renameOtherwise σ otherwise) closing
  | .choose branches otherwise closing =>
    .choose (renameBranches σ branches) (renameLast σ otherwise) closing
  | .macroDefinition opening name params body closing =>
    .macroDefinition opening name params (renameNodes σ body) closing
  | .leave m => .leave m
  | .next m => .next m
  | .replaced => .replaced

/-- Nodes with other names for the templates that they mention. -/
def renameNodes (σ : String → String) : List Node → List Node
  | [] => []
  | n :: ns => n.rename σ :: renameNodes σ ns

def renameOtherwise (σ : String → String) : Option (List Node) → Option (List Node)
  | none => none
  | some ns => some (renameNodes σ ns)

def renameBranches (σ : String → String) :
    List (Margin × Expr × List Node) → List (Margin × Expr × List Node)
  | [] => []
  | (m, c, ns) :: rest => (m, c, renameNodes σ ns) :: renameBranches σ rest

def renameLast (σ : String → String) : Option (Margin × List Node) → Option (Margin × List Node)
  | none => none
  | some (m, ns) => some (m, renameNodes σ ns)

end

variable {σ : String → String} {ns ms : List Node}

theorem renameNodes_eq_map (σ : String → String) (ns : List Node) :
    renameNodes σ ns = ns.map (Node.rename σ) := by
  induction ns with
  | nil => rfl
  | cons n ns ih => rw [renameNodes, ih, List.map_cons]

theorem renameBranches_eq_map (σ : String → String) (bs : List (Margin × Expr × List Node)) :
    renameBranches σ bs = bs.map fun b => (b.1, b.2.1, renameNodes σ b.2.2) := by
  induction bs with
  | nil => rfl
  | cons b bs ih => rw [renameBranches, ih, List.map_cons]

@[simp] theorem renameNodes_nil : renameNodes σ [] = [] := rfl

@[simp] theorem renameNodes_cons (n : Node) :
    renameNodes σ (n :: ns) = n.rename σ :: renameNodes σ ns := by rw [renameNodes]

@[simp] theorem renameNodes_append :
    renameNodes σ (ns ++ ms) = renameNodes σ ns ++ renameNodes σ ms := by
  rw [renameNodes_eq_map, renameNodes_eq_map, renameNodes_eq_map, List.map_append]

@[simp] theorem renameNodes_reverse : renameNodes σ ns.reverse = (renameNodes σ ns).reverse := by
  rw [renameNodes_eq_map, renameNodes_eq_map, List.map_reverse]

/-! ## White space control -/

theorem renameNodes_stripStart (s : String) : renameNodes σ (stripStart s) = stripStart s := by
  rw [stripStart]
  split
  · rfl
  · simp [Node.rename]

theorem renameNodes_stripLast (ns : List Node) :
    renameNodes σ (stripLast ns) = stripLast (renameNodes σ ns) := by
  cases ns with
  | nil => rfl
  | cons n before =>
      cases n with
      | text s =>
          rw [renameNodes_cons, Node.rename, stripLast, stripLast]
          split
          · rfl
          · rw [renameNodes_cons, Node.rename]
      | _ => simp [stripLast, Node.rename]

theorem renameNodes_stripEnd (ns : List Node) :
    renameNodes σ (stripEnd ns) = stripEnd (renameNodes σ ns) := by
  rw [stripEnd, stripEnd, renameNodes_reverse, renameNodes_stripLast, renameNodes_reverse]

theorem renameBranches_append (bs cs : List (Margin × Expr × List Node)) :
    renameBranches σ (bs ++ cs) = renameBranches σ bs ++ renameBranches σ cs := by
  rw [renameBranches_eq_map, renameBranches_eq_map, renameBranches_eq_map, List.map_append]

theorem renameBranches_stripLastBranch (bs : List (Margin × Expr × List Node)) :
    renameBranches σ (stripLastBranch bs) = stripLastBranch (renameBranches σ bs) := by
  induction bs using List.reverseRecOn with
  | nil => rfl
  | append_singleton bs b _ =>
      obtain ⟨m, c, ns⟩ := b
      have hone : ∀ ns, renameBranches σ [(m, c, ns)] = [(m, c, renameNodes σ ns)] := fun _ => rfl
      have hstrip : ∀ (bs : List (Margin × Expr × List Node)) ns,
          stripLastBranch (bs ++ [(m, c, ns)]) = bs ++ [(m, c, stripEnd ns)] := by
        intro bs ns
        simp [stripLastBranch]
      rw [hstrip, renameBranches_append, hone, renameBranches_append, hone, hstrip,
        renameNodes_stripEnd]

namespace Trimming

/-- The nodes that are done, renamed. -/
def rename (σ : String → String) (t : Trimming) : Trimming :=
  { t with done := renameNodes σ t.done }

theorem rename_meet (t : Trimming) (left right : Bool) :
    (t.meet left right).rename σ = (t.rename σ).meet left right := by
  obtain ⟨done, afterText, stripNext⟩ := t
  cases afterText <;> cases left <;> simp [rename, meet, renameNodes_stripLast]

theorem rename_add (t : Trimming) (n : Node) :
    (t.add n).rename σ = (t.rename σ).add (n.rename σ) := by
  simp only [rename, add, renameNodes_cons]

theorem rename_addText (t : Trimming) (s : String) :
    (t.addText s).rename σ = (t.rename σ).addText s := by
  obtain ⟨done, afterText, stripNext⟩ := t
  cases stripNext <;> simp [rename, addText, renameNodes_stripStart, Node.rename]

/-- A node is added with its own body renamed. -/
theorem rename_meet_add (t : Trimming) (left right : Bool) {n m : Node} (h : n.rename σ = m) :
    ((t.meet left right).add n).rename σ = ((t.rename σ).meet left right).add m := by
  rw [rename_add, rename_meet, h]

end Trimming

theorem renameNodes_trimBody_of {left : Bool} {body : List Node}
    (h : (trimNodes { stripNext := left } body).rename σ =
      trimNodes { stripNext := left } (renameNodes σ body)) (right : Bool) :
    renameNodes σ (trimBody left right body) = trimBody left right (renameNodes σ body) := by
  have hdone := congrArg Trimming.done h
  change renameNodes σ (trimNodes { stripNext := left } body).done =
    (trimNodes { stripNext := left } (renameNodes σ body)).done at hdone
  rw [trimBody, trimBody, ← hdone, renameNodes_reverse]
  cases right
  · rfl
  · exact congrArg List.reverse (renameNodes_stripLast _)

mutual

theorem rename_trimNode (t : Trimming) (n : Node) :
    (trimNode t n).rename σ = trimNode (t.rename σ) (n.rename σ) := by
  cases n with
  | text s => rw [trimNode, Node.rename, trimNode, Trimming.rename_addText]
  | replaced =>
      simp only [trimNode, Node.rename, Trimming.rename, renameNodes_cons]
  | filtered opening filter body closing =>
      rw [trimNode, Node.rename, trimNode]
      refine Trimming.rename_meet_add _ _ _ ?_
      rw [Node.rename, renameNodes_trimBody_of (rename_trimNodes _ body)]
  | block opening name body closing =>
      rw [trimNode, Node.rename, trimNode]
      refine Trimming.rename_meet_add _ _ _ ?_
      rw [Node.rename, renameNodes_trimBody_of (rename_trimNodes _ body)]
  | loop opening key value container body otherwise closing =>
      rw [trimNode, Node.rename, trimNode]
      refine Trimming.rename_meet_add _ _ _ ?_
      rw [Node.rename, renameNodes_trimBody_of (rename_trimNodes _ body)]
  | macroDefinition opening name params body closing =>
      rw [trimNode, Node.rename, trimNode]
      refine Trimming.rename_meet_add _ _ _ ?_
      rw [Node.rename, renameNodes_trimBody_of (rename_trimNodes _ body)]
  | choose branches otherwise closing =>
      have hbranches := renameBranches_trimBranches [] branches
      have hstripped : ∀ left : Bool, renameBranches σ
          (if left then stripLastBranch (trimBranches [] branches) else trimBranches [] branches) =
            if left then stripLastBranch (trimBranches [] (renameBranches σ branches))
            else trimBranches [] (renameBranches σ branches) := by
        intro left
        cases left
        · exact hbranches
        · exact (renameBranches_stripLastBranch _).trans (congrArg _ hbranches)
      have hhead : ((renameBranches σ branches).head?.map fun b => b.1.left) =
          branches.head?.map fun b => b.1.left := by
        cases branches <;> simp [renameBranches]
      cases otherwise with
      | none =>
          simp only [trimNode, Node.rename, renameLast, hhead]
          refine Trimming.rename_meet_add _ _ _ ?_
          rw [Node.rename, renameLast, hstripped]
      | some last =>
          obtain ⟨m, ns⟩ := last
          simp only [trimNode, Node.rename, renameLast, hhead]
          refine Trimming.rename_meet_add _ _ _ ?_
          rw [Node.rename, renameLast, hstripped, renameNodes_trimBody_of (rename_trimNodes _ ns)]
  | _ => simp only [trimNode, Node.rename, Trimming.rename_add, Trimming.rename_meet]

theorem renameBranches_trimBranches (before bs : List (Margin × Expr × List Node)) :
    renameBranches σ (trimBranches before bs) =
      trimBranches (renameBranches σ before) (renameBranches σ bs) := by
  cases bs with
  | nil => rw [trimBranches, renameBranches, trimBranches]
  | cons b bs =>
      obtain ⟨m, c, ns⟩ := b
      rw [trimBranches, renameBranches, trimBranches, renameBranches_trimBranches _ bs,
        renameBranches_append, renameBranches, renameBranches,
        renameNodes_trimBody_of (rename_trimNodes _ ns)]
      cases m.left
      · rfl
      · exact congrArg (fun before => trimBranches (before ++ _) _)
          (renameBranches_stripLastBranch _)

theorem rename_trimNodes (t : Trimming) (ns : List Node) :
    (trimNodes t ns).rename σ = trimNodes (t.rename σ) (renameNodes σ ns) := by
  cases ns with
  | nil => rw [renameNodes_nil, trimNodes, trimNodes]
  | cons n ns =>
      rw [renameNodes_cons, trimNodes, trimNodes, rename_trimNodes _ ns, rename_trimNode _ n]

end

/-- White space control may be done before or after the renaming. -/
theorem renameNodes_trimTemplate (ns : List Node) :
    renameNodes σ (trimTemplate ns) = trimTemplate (renameNodes σ ns) :=
  renameNodes_trimBody_of (rename_trimNodes _ ns) false

/-! ## Sheets -/

/-- A macro with other names for the templates that its body mentions. -/
def Macro.rename (σ : String → String) (m : Macro) : Macro :=
  { m with body := renameNodes σ m.body }

namespace Sheet

/-- A sheet with other names for the templates that it mentions. -/
def rename (σ : String → String) (s : Sheet) : Sheet where
  nodes := renameNodes σ s.nodes
  blocks := s.blocks.mapValues (renameNodes σ)
  macros := s.macros.mapValues (Macro.rename σ)
  parent := s.parent.map σ
  imports := s.imports.map fun i => (σ i.1, i.2)

theorem hasKey_mapValues {α β : Type} (f : α → β) (key : String) (d : Dict α) :
    (d.mapValues f).hasKey key = d.hasKey key := by
  rw [Dict.hasKey, Dict.get?_mapValues, Option.isSome_map, Dict.hasKey]

mutual

theorem blocksOfNode_rename (found : Dict (List Node)) (n : Node) :
    blocksOfNode (found.mapValues (renameNodes σ)) (n.rename σ) =
      (blocksOfNode found n).map (Dict.mapValues (renameNodes σ)) := by
  cases n with
  | block opening name body closing =>
      rw [Node.rename, blocksOfNode, blocksOfNode, hasKey_mapValues]
      split
      · rfl
      · rw [← Dict.mapValues_insert]
        exact blocksOf_rename _ body
  | _ => simp only [Node.rename, blocksOfNode, Except.map]

theorem blocksOf_rename (found : Dict (List Node)) (ns : List Node) :
    blocksOf (found.mapValues (renameNodes σ)) (renameNodes σ ns) =
      (blocksOf found ns).map (Dict.mapValues (renameNodes σ)) := by
  cases ns with
  | nil => rfl
  | cons n ns =>
      rw [renameNodes_cons, blocksOf, blocksOf, blocksOfNode_rename _ n]
      cases blocksOfNode found n with
      | error e => rfl
      | ok d => exact blocksOf_rename d ns

end

theorem addMacro_rename (found : Dict Macro) (n : Node) :
    addMacro (found.mapValues (Macro.rename σ)) (n.rename σ) =
      (addMacro found n).map (Dict.mapValues (Macro.rename σ)) := by
  cases n with
  | macroDefinition opening name params body closing =>
      rw [Node.rename, addMacro, addMacro, hasKey_mapValues]
      split
      · rfl
      · rw [Except.map, Dict.mapValues_insert]
        rfl
  | _ => simp only [Node.rename, addMacro, Except.map]

theorem foldlM_addMacro_rename (found : Dict Macro) (ns : List Node) :
    (renameNodes σ ns).foldlM addMacro (found.mapValues (Macro.rename σ)) =
      (ns.foldlM addMacro found).map (Dict.mapValues (Macro.rename σ)) := by
  induction ns generalizing found with
  | nil => rfl
  | cons n ns ih =>
      rw [renameNodes_cons, List.foldlM_cons, List.foldlM_cons, addMacro_rename]
      cases addMacro found n with
      | error e => rfl
      | ok d => exact ih d

theorem filterMap_rename {α : Type} {f : Node → Option α} {g : α → α}
    (h : ∀ n : Node, f (n.rename σ) = (f n).map g) (ns : List Node) :
    (renameNodes σ ns).filterMap f = (ns.filterMap f).map g := by
  rw [renameNodes_eq_map, List.filterMap_map, List.map_filterMap]
  exact congrArg (List.filterMap · ns) (funext h)

theorem parentOf?_rename (n : Node) : parentOf? (n.rename σ) = (parentOf? n).map σ := by
  cases n <;> simp only [Node.rename, parentOf?, Option.map_none, Option.map_some]

theorem importOf?_rename (n : Node) :
    importOf? (n.rename σ) = (importOf? n).map fun i => (σ i.1, i.2) := by
  cases n <;> simp only [Node.rename, importOf?, Option.map_none, Option.map_some]

/-- A sheet of renamed nodes is the renamed sheet. -/
theorem ofNodes_rename (ns : List Node) :
    ofNodes (renameNodes σ ns) = (ofNodes ns).map (rename σ) := by
  have hblocks := blocksOf_rename (σ := σ) [] ns
  have hmacros := foldlM_addMacro_rename (σ := σ) [] ns
  change blocksOf [] _ = _ at hblocks
  change List.foldlM addMacro [] _ = _ at hmacros
  rw [ofNodes, ofNodes, hblocks, hmacros]
  cases blocksOf [] ns with
  | error e => rfl
  | ok blocks =>
      cases ns.foldlM addMacro [] with
      | error e => rfl
      | ok macros =>
          simp only [Except.map, bind, Except.bind, pure, Except.pure, rename,
            filterMap_rename parentOf?_rename, filterMap_rename importOf?_rename, List.getLast?_map]

end Sheet

end Stencil.Language
