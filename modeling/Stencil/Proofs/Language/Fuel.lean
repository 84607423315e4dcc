/-
Reading with more fuel.

The fuel of reading bounds the depth of a tree.  Once it is enough for a tree, more of it changes
nothing.
-/
import Mathlib
import Stencil.Language.Reading
import Stencil.Proofs.Activity

namespace Stencil.Language

/-- Whether what one reading gives is what another one gives. -/
def Keeps {α : Type} (x y : Reading α) : Prop := ∀ a, x = .ok a → y = .ok a

namespace Keeps

variable {α β : Type} {x y z : Reading α} {n m : Nat}

theorem refl (x : Reading α) : Keeps x x := fun _ h => h

theorem trans (h : Keeps x y) (h' : Keeps y z) : Keeps x z := fun a ha => h' a (h a ha)

theorem error (e : ReadingError) (y : Reading α) : Keeps (.error e) y := nofun

theorem bind {f g : α → Reading β} (h : Keeps x y) (hfg : ∀ a, Keeps (f a) (g a)) :
    Keeps (x >>= f) (y >>= g) := by
  intro b hb
  obtain ⟨a, ha, hb⟩ := Activity.bind_eq_ok.mp hb
  exact Activity.bind_eq_ok.mpr ⟨a, h a ha, hfg a b hb⟩

theorem map {f : α → β} (h : Keeps x y) : Keeps (f <$> x) (f <$> y) := by
  cases x with
  | error e => exact .error e _
  | ok a =>
      rw [h a rfl]
      exact .refl _

theorem mapM {γ : Type} {f g : γ → Reading α} (h : ∀ c, Keeps (f c) (g c)) (cs : List γ) :
    Keeps (cs.mapM f) (cs.mapM g) := by
  induction cs with
  | nil => exact .refl _
  | cons c cs ih =>
      rw [List.mapM_cons, List.mapM_cons]
      exact (h c).bind fun _ => ih.bind fun _ => .refl _

theorem foldlM {γ : Type} {f g : α → γ → Reading α} (h : ∀ a c, Keeps (f a c) (g a c))
    (cs : List γ) (a : α) : Keeps (cs.foldlM f a) (cs.foldlM g a) := by
  induction cs generalizing a with
  | nil => exact .refl _
  | cons c cs ih =>
      rw [List.foldlM_cons, List.foldlM_cons]
      exact (h a c).bind ih

end Keeps

/-! ## Expressions -/

/-- Whether one more level of fuel keeps what is read of expressions. -/
structure ExpressionsKeep (n : Nat) : Prop where
  term : ∀ t, Keeps (readTerm n t) (readTerm (n + 1) t)
  test : ∀ negated t, Keeps (readTest n negated t) (readTest (n + 1) negated t)
  args : ∀ t, Keeps (readArgs n t) (readArgs (n + 1) t)
  call : ∀ t, Keeps (readCall n t) (readCall (n + 1) t)
  filtered : ∀ t, Keeps (readFiltered n t) (readFiltered (n + 1) t)
  expr : ∀ t, Keeps (readExpr n t) (readExpr (n + 1) t)

section Expressions

variable {n : Nat} (h : ExpressionsKeep n)

/-- A row of operands is read alike if the operands are. -/
theorem keeps_row {ω α : Type} {read read' : Parse → Reading α}
    (h : ∀ t, Keeps (read t) (read' t)) (operator? : Rule → Option (Bool × ω))
    (join : ω → α → α → α) (ts : List Parse) :
    Keeps (do
        let (first, others) ← splitRow operator? ts
        let first ← read first
        let others ← others.mapM fun (op, operand) => do return (op, ← read operand)
        return group join none first others)
      (do
        let (first, others) ← splitRow operator? ts
        let first ← read' first
        let others ← others.mapM fun (op, operand) => do return (op, ← read' operand)
        return group join none first others) :=
  (Keeps.refl _).bind fun _ => (h _).bind fun _ =>
    (Keeps.mapM (fun _ => (h _).bind fun _ => .refl _) _).bind fun _ => .refl _

include h

theorem keeps_readTerm (t : Parse) : Keeps (readTerm (n + 1) t) (readTerm (n + 2) t) := by
  rw [readTerm, readTerm]
  split
  · exact .refl _
  · exact .refl _
  · exact .refl _
  · exact .refl _
  · exact .refl _
  · exact h.test _ _
  · exact h.test _ _
  · exact (h.call _).bind fun _ => .refl _
  · split
    · exact (h.args _).bind fun _ => .refl _
    · exact .refl _
  · exact keeps_row h.term _ _ _
  · exact (Keeps.mapM h.term _).bind fun _ => .refl _
  · exact (Keeps.mapM h.expr _).bind fun _ => .refl _
  · exact .refl _

theorem keeps_readTest (negated : Bool) (t : Parse) :
    Keeps (readTest (n + 1) negated t) (readTest (n + 2) negated t) := by
  rw [readTest, readTest]
  refine (Keeps.refl _).bind fun _ => (Keeps.refl _).bind fun _ => (Keeps.refl _).bind fun _ =>
    (Keeps.mapM (fun arg => ?_) _).bind fun _ => .refl _
  split
  · exact h.expr _
  · exact .refl _

theorem keeps_readArgs (t : Parse) : Keeps (readArgs (n + 1) t) (readArgs (n + 2) t) := by
  rw [readArgs, readArgs]
  refine (Keeps.mapM (fun arg => ?_) _).bind fun _ => .refl _
  split
  · exact (h.expr _).bind fun _ => .refl _
  · exact .refl _

theorem keeps_readCall (t : Parse) : Keeps (readCall (n + 1) t) (readCall (n + 2) t) := by
  rw [readCall, readCall]
  split
  · exact .refl _
  · exact (Keeps.refl _).bind fun _ => (h.args _).bind fun _ => .refl _
  · split
    · exact h.call _
    · exact .refl _
  · exact .refl _

theorem keeps_readFiltered (t : Parse) :
    Keeps (readFiltered (n + 1) t) (readFiltered (n + 2) t) := by
  rw [readFiltered, readFiltered]
  split
  · exact (h.term _).bind fun _ => (Keeps.mapM h.call _).bind fun _ => .refl _
  · exact .refl _

theorem keeps_readExpr (t : Parse) : Keeps (readExpr (n + 1) t) (readExpr (n + 2) t) := by
  rw [readExpr, readExpr]
  split
  · exact h.filtered _
  · exact h.filtered _
  · exact h.filtered _
  · exact .refl _
  · split
    · exact h.expr _
    · exact .refl _
  · exact keeps_row h.expr _ _ _
  · split
    · exact h.expr _
    · split
      · exact (h.expr _).bind fun _ => (h.expr _).bind fun _ => .refl _
      · exact .refl _
    · exact .refl _
  · exact (Keeps.refl _).bind fun _ => (Keeps.refl _).bind fun _ =>
      (h.expr _).bind fun _ => (h.expr _).bind fun _ => .refl _
  · exact (Keeps.refl _).bind fun _ => (h.expr _).bind fun _ => .refl _
  · exact keeps_row h.expr _ _ _
  · exact .refl _

end Expressions

theorem expressionsKeep (n : Nat) : ExpressionsKeep n := by
  induction n with
  | zero =>
      refine ⟨fun t => ?_, fun b t => ?_, fun t => ?_, fun t => ?_, fun t => ?_, fun t => ?_⟩
      · rw [readTerm]
        exact .error _ _
      · rw [readTest]
        exact .error _ _
      · rw [readArgs]
        exact .error _ _
      · rw [readCall]
        exact .error _ _
      · rw [readFiltered]
        exact .error _ _
      · rw [readExpr]
        exact .error _ _
  | succ n ih =>
      exact ⟨keeps_readTerm ih, keeps_readTest ih, keeps_readArgs ih, keeps_readCall ih,
        keeps_readFiltered ih, keeps_readExpr ih⟩

/-! ## Nodes -/

theorem keeps_readValue (n : Nat) (t : Parse) : Keeps (readValue n t) (readValue (n + 1) t) :=
  (Keeps.refl _).bind fun _ => (expressionsKeep n).expr _

/-- Whether one more level of fuel keeps what is read of nodes. -/
structure NodesKeep (n : Nat) : Prop where
  node : ∀ t, Keeps (readNode n t) (readNode (n + 1) t)
  nodes : ∀ ts, Keeps (readNodes n ts) (readNodes (n + 1) ts)
  body : ∀ t, Keeps (readBody n t) (readBody (n + 1) t)

theorem keeps_add {read read' : Parse → Reading (List Node)}
    {condition condition' : Parse → Reading Expr} (hread : ∀ t, Keeps (read t) (read' t))
    (hcondition : ∀ t, Keeps (condition t) (condition' t)) (b : Branches) (t : Parse) :
    Keeps (Branches.add read condition b t) (Branches.add read' condition' b t) := by
  rw [Branches.add, Branches.add]
  split
  · exact (hcondition _).bind fun _ => .refl _
  · exact (hcondition _).bind fun _ => .refl _
  · exact .refl _
  · exact .refl _
  · exact (hread _).bind fun _ => .refl _

theorem keeps_readNode {n : Nat} (h : NodesKeep n) (t : Parse) :
    Keeps (readNode (n + 1) t) (readNode (n + 2) t) := by
  have hvalue := keeps_readValue n
  rw [readNode, readNode]
  generalize t.rule = r
  cases r with
  | content | blockContent | macroContent | forContent | filterSectionContent => exact h.nodes _
  | variableTag => exact (hvalue t).bind fun _ => .refl _
  | setTag | setGlobalTag => exact (Keeps.refl _).bind fun _ => (hvalue t).bind fun _ => .refl _
  | filterSection =>
      exact (Keeps.refl _).bind fun _ => (Keeps.refl _).bind fun _ =>
        ((expressionsKeep n).call _).bind fun _ => (h.body t).bind fun _ => .refl _
  | block =>
      exact (Keeps.refl _).bind fun _ => (Keeps.refl _).bind fun _ =>
        (h.body t).bind fun _ => .refl _
  | macroDefinition =>
      exact (Keeps.refl _).bind fun _ => (Keeps.refl _).bind fun _ => (Keeps.refl _).bind fun _ =>
        (Keeps.refl _).bind fun _ => (h.body t).bind fun _ => .refl _
  | forloop =>
      refine (Keeps.refl _).bind fun _ => (hvalue _).bind fun _ => ?_
      dsimp only
      split
      · exact (Keeps.refl _).bind fun _ => (h.nodes _).bind fun _ => .refl _
      · exact (h.nodes _).map.bind fun _ => (h.nodes _).bind fun _ => .refl _
  | contentIf | blockIf | macroIf | forIf | filterSectionIf =>
      exact (Keeps.foldlM (keeps_add h.node hvalue) _ _).bind fun _ => .refl _
  | _ => exact .refl _

theorem nodesKeep (n : Nat) : NodesKeep n := by
  induction n with
  | zero =>
      refine ⟨fun t => ?_, fun ts => ?_, fun t => ?_⟩
      · rw [readNode]
        exact .error _ _
      · rw [readNodes]
        exact .error _ _
      · rw [readBody]
        exact .error _ _
  | succ n ih =>
      refine ⟨keeps_readNode ih, fun ts => ?_, fun t => ?_⟩
      · rw [readNodes, readNodes]
        exact (Keeps.mapM ih.node _).bind fun _ => .refl _
      · rw [readBody, readBody]
        exact ih.nodes _

/-- More fuel changes nothing that was read. -/
theorem keeps_of_le {α : Type} {read : Nat → Reading α} (h : ∀ n, Keeps (read n) (read (n + 1)))
    {n m : Nat} (hle : n ≤ m) : Keeps (read n) (read m) := by
  induction hle with
  | refl => exact .refl _
  | step _ ih => exact ih.trans (h _)

variable {n m : Nat}

theorem readNode_of_le {t : Parse} {ns : List Node} (h : readNode n t = .ok ns) (hle : n ≤ m) :
    readNode m t = .ok ns :=
  keeps_of_le (fun k => (nodesKeep k).node t) hle ns h

theorem readNodes_of_le {ts : List Parse} {ns : List Node} (h : readNodes n ts = .ok ns)
    (hle : n ≤ m) : readNodes m ts = .ok ns :=
  keeps_of_le (fun k => (nodesKeep k).nodes ts) hle ns h

theorem readCall_of_le {t : Parse} {c : Call} (h : readCall n t = .ok c) (hle : n ≤ m) :
    readCall m t = .ok c :=
  keeps_of_le (fun k => (expressionsKeep k).call t) hle c h

theorem readValue_of_le {t : Parse} {e : Expr} (h : readValue n t = .ok e) (hle : n ≤ m) :
    readValue m t = .ok e :=
  keeps_of_le (fun k => keeps_readValue k t) hle e h

end Stencil.Language
