/-
Reading trees with further parts.

Texts, inclusions and comments are read to nodes that do not occur in the outline of a template.
So whatever a row of trees is read to, the row with further parts is read to something of the same
outline: the tags of a section are the same, and so are the parts that are not additions.
-/
import Mathlib
import Stencil.Proofs.Language.Fuel
import Stencil.Proofs.Language.Growth
import Stencil.Proofs.Language.Outline

namespace Stencil.Language

variable {n m : Nat} {ts us cs ds : List Parse} {t u c : Parse} {r : Rule} {x y : List Char}
  {ns ms : List Node}

/-! ## Additions -/

theorem readNode_part {part : Rule} (hpart : part ∈ contents) :
    readNode (n + 1) (.node part x cs) = readNodes n cs := by
  fin_cases hpart <;> rw [readNode] <;> rfl

/-- An addition is read to nodes that do not occur in the outline. -/
theorem readNode_of_isAddition (h : IsAddition c) :
    ∃ ns, readNode (n + 3) c = .ok ns ∧ outline ns = [] := by
  rcases h with h | ⟨h, text, htext, hrule⟩ | ⟨part, x, r, y, ts, hpart, hr, rfl⟩
  · rw [readNode, h]
    exact ⟨_, rfl, rfl⟩
  · have hmem : text ∈ childrenOf [.rawText] c := List.mem_filter.mpr ⟨htext, by simp [hrule]⟩
    obtain ⟨first, hfirst⟩ : ∃ first, childOf [.rawText] c = .ok first := by
      rw [childOf]
      cases hchildren : childrenOf [.rawText] c with
      | nil => rw [hchildren] at hmem; cases hmem
      | cons first rest => exact ⟨first, rfl⟩
    rw [readNode, h]
    exact ⟨_, Activity.bind_eq_ok.mpr ⟨first, hfirst, rfl⟩, rfl⟩
  · rw [readNode_part hpart, readNodes]
    fin_cases hr <;> exact ⟨_, rfl, rfl⟩

theorem outline_of_isAddition (h : IsAddition c) (hread : readNode n c = .ok ns) :
    outline ns = [] := by
  obtain ⟨ms, hms, houtline⟩ := readNode_of_isAddition (n := n) h
  rw [readNode_of_le hread (Nat.le_add_right n 3)] at hms
  cases hms
  exact houtline

theorem depth_pos (t : Parse) : 0 < depth t := by
  cases t
  exact Nat.succ_pos _

/-! ## Rows of trees -/

theorem readNodes_nil : readNodes (n + 1) [] = .ok [] := by
  rw [readNodes]
  rfl

theorem readNodes_cons :
    readNodes (n + 1) (t :: ts) = .ok ns ↔
      ∃ a b, readNode n t = .ok a ∧ readNodes (n + 1) ts = .ok b ∧ ns = a ++ b := by
  simp only [readNodes, List.mapM_cons, Activity.bind_eq_ok]
  constructor
  · rintro ⟨_, ⟨a, ha, bs, hbs, heq⟩, heq'⟩
    cases heq
    cases heq'
    exact ⟨a, bs.flatten, ha, ⟨bs, hbs, rfl⟩, rfl⟩
  · rintro ⟨a, b, ha, ⟨bs, hbs, heq⟩, rfl⟩
    cases heq
    exact ⟨_, ⟨a, ha, bs, hbs, rfl⟩, rfl⟩

/-- A part of a branch is added to its body. -/
theorem add_of_part {condition : Parse → Reading Expr} {read : Parse → Reading (List Node)}
    (hrule : c.rule ∈ additions) (hread : read c = .ok ns) (b : Branches) :
    Branches.add read condition b c = .ok { b with body := b.body ++ ns } := by
  rw [Branches.add]
  generalize c.rule = r at hrule ⊢
  fin_cases hrule <;> · rw [hread]; rfl

theorem exists_add (hle : n ≤ m)
    (hsame : t = u ∨ t.rule = u.rule ∧ (t.rule ∈ contents ∨ t.rule ∈ sections))
    (hread : ∀ ns, readNode n t = .ok ns →
      ∃ ms, readNode m u = .ok ms ∧ outline ms = outline ns) {b b₁ : Branches}
    (h : Branches.add (readNode n) (readValue n) b t = .ok b₁) (b' : Branches) :
    ∃ b₁', Branches.add (readNode m) (readValue m) b' u = .ok b₁' := by
  have hrule : t.rule = u.rule := hsame.elim (congrArg _) And.left
  rw [Branches.add] at h ⊢
  rw [← hrule]
  generalize hr : t.rule = r at h ⊢
  cases r with
  | ifTag | elifTag =>
      obtain ⟨e, he, -⟩ := Activity.bind_eq_ok.mp h
      rcases hsame with rfl | ⟨-, hgrows⟩
      · exact ⟨_, Activity.bind_eq_ok.mpr ⟨e, readValue_of_le he hle, rfl⟩⟩
      · rw [hr] at hgrows
        exact absurd hgrows (by decide)
  | elseTag | endifTag => exact ⟨_, rfl⟩
  | _ =>
      obtain ⟨ns, hns, -⟩ := Activity.bind_eq_ok.mp h
      obtain ⟨ms, hms, -⟩ := hread ns hns
      exact ⟨_, Activity.bind_eq_ok.mpr ⟨ms, hms, rfl⟩⟩

/-- Whether a row of trees is read to the outline of another row: tree by tree, except for
additions. -/
inductive Rereads (n m : Nat) : List Parse → List Parse → Prop
  | nil : Rereads n m [] []
  | both {t u : Parse} {ts us : List Parse}
      (hsame : t = u ∨ t.rule = u.rule ∧ (t.rule ∈ contents ∨ t.rule ∈ sections))
      (hread : ∀ ns, readNode n t = .ok ns →
        ∃ ms, readNode m u = .ok ms ∧ outline ms = outline ns)
      (h : Rereads n m ts us) : Rereads n m (t :: ts) (u :: us)
  | added {c : Parse} {ts us : List Parse} (hc : IsAddition c) (hm : 3 ≤ m)
      (h : Rereads n m ts us) : Rereads n m ts (c :: us)
  | dropped {c : Parse} {ts us : List Parse} (hc : IsAddition c) (h : Rereads n m ts us) :
      Rereads n m (c :: ts) us

namespace Rereads

theorem rule_eq (h : t = u ∨ t.rule = u.rule ∧ (t.rule ∈ contents ∨ t.rule ∈ sections)) :
    t.rule = u.rule :=
  h.elim (congrArg _) And.left

theorem append {ts' us' : List Parse} (h : Rereads n m ts us) (h' : Rereads n m ts' us') :
    Rereads n m (ts ++ ts') (us ++ us') := by
  induction h with
  | nil => exact h'
  | both hsame hread _ ih => exact .both hsame hread ih
  | added hc hm _ ih => exact .added hc hm ih
  | dropped hc _ ih => exact .dropped hc ih

theorem reverse (h : Rereads n m ts us) : Rereads n m ts.reverse us.reverse := by
  induction h with
  | nil => exact .nil
  | both hsame hread _ ih => simpa using ih.append (.both hsame hread .nil)
  | added hc hm _ ih => simpa using ih.append (.added hc hm .nil)
  | dropped hc _ ih => simpa using ih.append (.dropped hc .nil)

/-- What is chosen by its rule is chosen from both rows. -/
theorem filter (f : Rule → Bool) (h : Rereads n m ts us) :
    Rereads n m (ts.filter fun t => f t.rule) (us.filter fun u => f u.rule) := by
  induction h with
  | nil => exact .nil
  | both hsame hread _ ih =>
      simp only [List.filter_cons, rule_eq hsame]
      split
      · exact .both hsame hread ih
      · exact ih
  | added hc hm _ ih =>
      rw [List.filter_cons]
      split
      · exact .added hc hm ih
      · exact ih
  | dropped hc _ ih =>
      rw [List.filter_cons]
      split
      · exact .dropped hc ih
      · exact ih

/-- Up to a tree that is no addition both rows are alike. -/
theorem takeWhile {f : Rule → Bool} (hf : ∀ r ∈ additions, f r)
    (h : Rereads n m ts us) :
    Rereads n m (ts.takeWhile fun t => f t.rule) (us.takeWhile fun u => f u.rule) := by
  induction h with
  | nil => exact .nil
  | both hsame hread _ ih =>
      simp only [List.takeWhile_cons, rule_eq hsame]
      split
      · exact .both hsame hread ih
      · exact .nil
  | added hc hm _ ih =>
      rw [List.takeWhile_cons_of_pos (p := fun t : Parse => f t.rule) (hf _ (rule_of_isAddition hc))]
      exact .added hc hm ih
  | dropped hc _ ih =>
      rw [List.takeWhile_cons_of_pos (p := fun t : Parse => f t.rule) (hf _ (rule_of_isAddition hc))]
      exact .dropped hc ih

/-- The tags among both rows are the same. -/
theorem childrenOf_eq {rules : List Rule}
    (hrules : ∀ r ∈ rules, r ∉ additions ∧ r ∉ sections)
    (h : Rereads n m cs ds) (r : Rule) (x y : List Char) :
    childrenOf rules (.node r x cs) = childrenOf rules (.node r y ds) := by
  have hnot : ∀ {c : Parse}, IsAddition c → c.rule ∉ rules :=
    fun hc hmem => (hrules _ hmem).1 (rule_of_isAddition hc)
  show cs.filter _ = ds.filter _
  induction h with
  | nil => rfl
  | @both t u ts us hsame hread _ ih =>
      rcases hsame with rfl | ⟨heq, hgrows⟩
      · rw [List.filter_cons, List.filter_cons, ih]
      · have hmem : t.rule ∉ rules := fun hmem =>
          hgrows.elim (fun hpart => (hrules _ hmem).1
            (List.mem_cons_of_mem _ (List.mem_cons_of_mem _ hpart))) (hrules _ hmem).2
        rw [List.filter_cons_of_neg (by simpa using hmem),
          List.filter_cons_of_neg (by simpa using heq ▸ hmem), ih]
  | added hc _ _ ih =>
      rw [ih, List.filter_cons_of_neg (by simpa using hnot hc)]
  | dropped hc _ ih =>
      rw [← ih, List.filter_cons_of_neg (by simpa using hnot hc)]

/-- The nodes of a row of trees keep their outline. -/
theorem readNodes (h : Rereads n m ts us) (hread : readNodes (n + 1) ts = .ok ns) :
    ∃ ms, readNodes (m + 1) us = .ok ms ∧ outline ms = outline ns := by
  induction h generalizing ns with
  | nil =>
      rw [readNodes_nil] at hread
      cases hread
      exact ⟨[], readNodes_nil, rfl⟩
  | both hsame hread' _ ih =>
      obtain ⟨a, b, ha, hb, rfl⟩ := readNodes_cons.mp hread
      obtain ⟨a', ha', houtline⟩ := hread' a ha
      obtain ⟨b', hb', houtline'⟩ := ih hb
      refine ⟨a' ++ b', readNodes_cons.mpr ⟨a', b', ha', hb', rfl⟩, ?_⟩
      rw [outline_append, outline_append, houtline, houtline']
  | added hc hm _ ih =>
      obtain ⟨b', hb', houtline⟩ := ih hread
      obtain ⟨k, rfl⟩ := Nat.exists_eq_add_of_le' hm
      obtain ⟨a', ha', hnil⟩ := readNode_of_isAddition (n := k) hc
      refine ⟨a' ++ b', readNodes_cons.mpr ⟨a', b', ha', hb', rfl⟩, ?_⟩
      rw [outline_append, hnil, houtline, List.nil_append]
  | dropped hc _ ih =>
      obtain ⟨a, b, ha, hb, rfl⟩ := readNodes_cons.mp hread
      obtain ⟨b', hb', houtline⟩ := ih hb
      refine ⟨b', hb', ?_⟩
      rw [outline_append, outline_of_isAddition hc ha, houtline, List.nil_append]

/-- A conditional that is read is read with further parts. -/
theorem foldlM_add (h : Rereads n m cs ds) (hle : n ≤ m) {b b₁ b' : Branches}
    (hread : cs.foldlM (Branches.add (readNode n) (readValue n)) b = .ok b₁) :
    ∃ b₁', ds.foldlM (Branches.add (readNode m) (readValue m)) b' = .ok b₁' := by
  induction h generalizing b b' with
  | nil => exact ⟨b', rfl⟩
  | both hsame hread' _ ih =>
      rw [List.foldlM_cons] at hread
      obtain ⟨b₂, hb₂, hread⟩ := Activity.bind_eq_ok.mp hread
      obtain ⟨b₂', hb₂'⟩ := exists_add hle hsame hread' hb₂ b'
      obtain ⟨b₁', hb₁'⟩ := ih hread
      exact ⟨b₁', by rw [List.foldlM_cons]; exact Activity.bind_eq_ok.mpr ⟨b₂', hb₂', hb₁'⟩⟩
  | added hc hm _ ih =>
      obtain ⟨k, rfl⟩ := Nat.exists_eq_add_of_le' hm
      obtain ⟨a, ha, -⟩ := readNode_of_isAddition (n := k) hc
      obtain ⟨b₁', hb₁'⟩ := ih hread
      refine ⟨b₁', ?_⟩
      rw [List.foldlM_cons]
      exact Activity.bind_eq_ok.mpr ⟨_, add_of_part (rule_of_isAddition hc) ha b', hb₁'⟩
  | dropped hc _ ih =>
      rw [List.foldlM_cons] at hread
      obtain ⟨b₂, -, hread⟩ := Activity.bind_eq_ok.mp hread
      exact ih hread

end Rereads

/-! ## Sections -/

theorem childOf_eq {rules : List Rule}
    (h : childrenOf rules (.node r x cs) = childrenOf rules (.node r y ds)) :
    childOf rules (.node r x cs) = childOf rules (.node r y ds) := by
  rw [childOf, childOf, h]

theorem childMargin_eq {q : Rule}
    (h : childrenOf [q] (.node r x cs) = childrenOf [q] (.node r y ds)) :
    childMargin q (.node r x cs) = childMargin q (.node r y ds) := by
  rw [childMargin, childMargin, h]

/-- The tags of a section, which no addition is and no other section. -/
def sectionTags : List Rule :=
  [.filterTag, .endfilterTag, .blockTag, .endblockTag, .macroTag, .endmacroTag, .forTag,
    .elseTag, .endforTag]

/-- The node of a conditional. -/
def conditionalOf (b : Branches) (closing : Margin) : Node :=
  match b.condition with
  | some _ => .choose b.finish.finished none closing
  | none => .choose b.finished (some (b.margin, b.body)) closing

theorem outlineOf_conditionalOf (b : Branches) (closing : Margin) :
    outlineOf (conditionalOf b closing) = [] := by
  rw [conditionalOf]
  split <;> rfl

theorem readNode_conditional_eq
    (hr : r ∈ [Rule.contentIf, .blockIf, .macroIf, .forIf, .filterSectionIf]) :
    readNode (n + 1) (.node r x cs) =
      cs.foldlM (Branches.add (readNode n) (readValue n)) {} >>= fun b =>
        .ok [conditionalOf b (childMargin .endifTag (.node r x cs))] := by
  rw [readNode]
  fin_cases hr
  all_goals
    refine bind_congr fun b => ?_
    rw [conditionalOf]
    cases b.condition <;> rfl

/-- The body of a loop. -/
def firstBody (cs : List Parse) : List Parse :=
  (cs.takeWhile fun c => c.rule != .elseTag).filter fun c => c.rule ∈ contents

/-- The body for a container without items. -/
def lastBody (cs : List Parse) : List Parse :=
  (cs.reverse.takeWhile fun c => c.rule != .elseTag).reverse.filter fun c => c.rule ∈ contents

/-- Reads the body for a container without items, if there is one. -/
def readOtherwise (fuel : Nat) (t : Parse) : Reading (Option (List Node)) :=
  if (childrenOf [.elseTag] t).isEmpty then .ok none
  else some <$> readNodes fuel (lastBody t.children)

/-- The node of a loop. -/
def loopOf (tag : Parse) (container : Expr) (closing : Margin) (otherwise : Option (List Node))
    (body : List Node) : Reading (List Node) :=
  match childrenOf [.ident] tag with
  | [value] =>
    .ok [.loop (readMargin tag) none (textOf value) container body otherwise closing]
  | [key, value] =>
    .ok [.loop (readMargin tag) (some (textOf key)) (textOf value) container body otherwise closing]
  | _ => .error .shape

/-- Whether there is a node of a loop depends on the tag alone. -/
theorem loopOf_eq_ok {tag : Parse} {container : Expr} {closing : Margin}
    {otherwise : Option (List Node)} {body : List Node}
    (h : loopOf tag container closing otherwise body = .ok ns) :
    outline ns = [] ∧ ∀ otherwise body, ∃ ms, loopOf tag container closing otherwise body = .ok ms ∧
      outline ms = [] := by
  unfold loopOf at h ⊢
  split at h
  · cases h
    exact ⟨rfl, fun _ _ => ⟨_, rfl, rfl⟩⟩
  · cases h
    exact ⟨rfl, fun _ _ => ⟨_, rfl, rfl⟩⟩
  · cases h

theorem readNode_forloop_eq :
    readNode (n + 1) (.node .forloop x cs) = (do
      let tag ← childOf [.forTag] (.node .forloop x cs)
      let container ← readValue n tag
      let otherwise ← readOtherwise n (.node .forloop x cs)
      let body ← readNodes n (firstBody cs)
      loopOf tag container (childMargin .endforTag (.node .forloop x cs)) otherwise body) := by
  rw [readNode]
  refine bind_congr fun tag => bind_congr fun container => ?_
  dsimp only
  have hlast : ∀ otherwise, (do
      let body ← readNodes n (firstBody cs)
      match childrenOf [.ident] tag with
      | [value] => pure [Node.loop (readMargin tag) none (textOf value) container body otherwise
          (childMargin .endforTag (.node .forloop x cs))]
      | [key, value] => pure [.loop (readMargin tag) (some (textOf key)) (textOf value) container body
          otherwise (childMargin .endforTag (.node .forloop x cs))]
      | _ => throw .shape) = (do
      let body ← readNodes n (firstBody cs)
      loopOf tag container (childMargin .endforTag (.node .forloop x cs)) otherwise body) := by
    intro otherwise
    refine bind_congr fun body => ?_
    rw [loopOf]
    split <;> rfl
  rw [readOtherwise]
  split
  · exact hlast none
  · exact bind_congr hlast

theorem readNodes_of_rereads {d : Nat} (h : ∀ n m, n ≤ m → d ≤ m → Rereads n m ts us)
    (hle : n ≤ m) (hm : d + 1 ≤ m) (hread : readNodes n ts = .ok ns) :
    ∃ ms, readNodes m us = .ok ms ∧ outline ms = outline ns := by
  obtain ⟨m, rfl⟩ : ∃ k, m = k + 1 := ⟨m - 1, by omega⟩
  cases n with
  | zero =>
      rw [readNodes] at hread
      cases hread
  | succ n => exact (h n m (by omega) (by omega)).readNodes hread

theorem bne_elseTag (r : Rule) (hr : r ∈ additions) : r != .elseTag := by
  fin_cases hr <;> rfl

section Sections

variable (hin : ∀ n m, n ≤ m → 3 * depths ds ≤ m → Rereads n m cs ds)

include hin

theorem childrenOf_tag {q : Rule} (hq : q ∈ sectionTags) (r : Rule) (x y : List Char) :
    childrenOf [q] (.node r x cs) = childrenOf [q] (.node r y ds) := by
  have hapart : q ∉ additions ∧ q ∉ sections := by
    fin_cases hq <;> decide
  exact (hin 0 _ (Nat.zero_le _) (Nat.le_refl _)).childrenOf_eq
    (List.forall_mem_singleton.mpr hapart) r x y

theorem rereads_contents (hle : n ≤ m) (hm : 3 * depths ds ≤ m) :
    Rereads n m (childrenOf contents (.node r x cs)) (childrenOf contents (.node r y ds)) :=
  (hin n m hle hm).filter fun r => decide (r ∈ contents)

theorem readBody_of_rereads (hle : n ≤ m) (hm : 3 * depths ds + 2 ≤ m)
    (h : readBody n (.node r x cs) = .ok ns) :
    ∃ ms, readBody m (.node r y ds) = .ok ms ∧ outline ms = outline ns := by
  obtain ⟨m, rfl⟩ : ∃ k, m = k + 1 := ⟨m - 1, by omega⟩
  cases n with
  | zero =>
      rw [readBody] at h
      cases h
  | succ n =>
      rw [readBody] at h ⊢
      exact readNodes_of_rereads (fun _ _ => rereads_contents hin) (by omega) (by omega) h

theorem readNode_filterSection (hle : n ≤ m) (hm : 3 * depths ds + 2 ≤ m)
    (h : readNode (n + 1) (.node .filterSection x cs) = .ok ns) :
    ∃ ms, readNode (m + 1) (.node .filterSection y ds) = .ok ms ∧ outline ms = outline ns := by
  have htag := childOf_eq (childrenOf_tag hin (q := .filterTag) (by decide) .filterSection x y)
  rw [readNode] at h ⊢
  obtain ⟨tag, htag', h⟩ := Activity.bind_eq_ok.mp h
  obtain ⟨call, hcall, h⟩ := Activity.bind_eq_ok.mp h
  obtain ⟨filter, hfilter, h⟩ := Activity.bind_eq_ok.mp h
  obtain ⟨body, hbody, h⟩ := Activity.bind_eq_ok.mp h
  cases h
  obtain ⟨body', hbody', -⟩ := readBody_of_rereads hin (y := y) hle hm hbody
  exact ⟨_, Activity.bind_eq_ok.mpr ⟨tag, htag ▸ htag', Activity.bind_eq_ok.mpr
    ⟨call, hcall, Activity.bind_eq_ok.mpr ⟨filter, readCall_of_le hfilter hle,
      Activity.bind_eq_ok.mpr ⟨body', hbody', rfl⟩⟩⟩⟩, rfl⟩

theorem readNode_block (hle : n ≤ m) (hm : 3 * depths ds + 2 ≤ m)
    (h : readNode (n + 1) (.node .block x cs) = .ok ns) :
    ∃ ms, readNode (m + 1) (.node .block y ds) = .ok ms ∧ outline ms = outline ns := by
  have htag := childOf_eq (childrenOf_tag hin (q := .blockTag) (by decide) .block x y)
  rw [readNode] at h ⊢
  obtain ⟨tag, htag', h⟩ := Activity.bind_eq_ok.mp h
  obtain ⟨name, hname, h⟩ := Activity.bind_eq_ok.mp h
  obtain ⟨body, hbody, h⟩ := Activity.bind_eq_ok.mp h
  cases h
  obtain ⟨body', hbody', houtline⟩ := readBody_of_rereads hin (y := y) hle hm hbody
  refine ⟨_, Activity.bind_eq_ok.mpr ⟨tag, htag ▸ htag', Activity.bind_eq_ok.mpr
    ⟨name, hname, Activity.bind_eq_ok.mpr ⟨body', hbody', rfl⟩⟩⟩, ?_⟩
  rw [outline_singleton, outline_singleton, outlineOf, outlineOf, houtline]

theorem readNode_macroDefinition (hle : n ≤ m) (hm : 3 * depths ds + 2 ≤ m)
    (h : readNode (n + 1) (.node .macroDefinition x cs) = .ok ns) :
    ∃ ms, readNode (m + 1) (.node .macroDefinition y ds) = .ok ms ∧ outline ms = outline ns := by
  have htag := childOf_eq (childrenOf_tag hin (q := .macroTag) (by decide) .macroDefinition x y)
  rw [readNode] at h ⊢
  obtain ⟨tag, htag', h⟩ := Activity.bind_eq_ok.mp h
  obtain ⟨head, hhead, h⟩ := Activity.bind_eq_ok.mp h
  obtain ⟨params, hparams, h⟩ := Activity.bind_eq_ok.mp h
  obtain ⟨name, hname, h⟩ := Activity.bind_eq_ok.mp h
  obtain ⟨body, hbody, h⟩ := Activity.bind_eq_ok.mp h
  cases h
  obtain ⟨body', hbody', -⟩ := readBody_of_rereads hin (y := y) hle hm hbody
  exact ⟨_, Activity.bind_eq_ok.mpr ⟨tag, htag ▸ htag', Activity.bind_eq_ok.mpr
    ⟨head, hhead, Activity.bind_eq_ok.mpr ⟨params, hparams, Activity.bind_eq_ok.mpr
      ⟨name, hname, Activity.bind_eq_ok.mpr ⟨body', hbody', rfl⟩⟩⟩⟩⟩, rfl⟩

theorem readNode_conditional
    (hr : r ∈ [Rule.contentIf, .blockIf, .macroIf, .forIf, .filterSectionIf]) (hle : n ≤ m)
    (hm : 3 * depths ds ≤ m) (h : readNode (n + 1) (.node r x cs) = .ok ns) :
    ∃ ms, readNode (m + 1) (.node r y ds) = .ok ms ∧ outline ms = outline ns := by
  rw [readNode_conditional_eq hr] at h ⊢
  obtain ⟨b, hb, h⟩ := Activity.bind_eq_ok.mp h
  cases h
  obtain ⟨b', hb'⟩ : ∃ b', ds.foldlM (Branches.add (readNode m) (readValue m)) {} = .ok b' :=
    (hin n m hle hm).foldlM_add hle hb
  refine ⟨_, Activity.bind_eq_ok.mpr ⟨b', hb', rfl⟩, ?_⟩
  rw [outline_singleton, outline_singleton, outlineOf_conditionalOf, outlineOf_conditionalOf]

theorem readNode_forloop (hle : n ≤ m) (hm : 3 * depths ds + 1 ≤ m)
    (h : readNode (n + 1) (.node .forloop x cs) = .ok ns) :
    ∃ ms, readNode (m + 1) (.node .forloop y ds) = .ok ms ∧ outline ms = outline ns := by
  have htag := childOf_eq (childrenOf_tag hin (q := .forTag) (by decide) .forloop x y)
  have helse := childrenOf_tag hin (q := .elseTag) (by decide) .forloop x y
  have hclosing := childMargin_eq (childrenOf_tag hin (q := .endforTag) (by decide) .forloop x y)
  have hfirst : ∀ n m, n ≤ m → 3 * depths ds ≤ m → Rereads n m (firstBody cs) (firstBody ds) :=
    fun n m hle hm => ((hin n m hle hm).takeWhile bne_elseTag).filter fun r => decide (r ∈ contents)
  have hlast : ∀ n m, n ≤ m → 3 * depths ds ≤ m → Rereads n m (lastBody cs) (lastBody ds) :=
    fun n m hle hm =>
      ((hin n m hle hm).reverse.takeWhile bne_elseTag).reverse.filter fun r => decide (r ∈ contents)
  rw [readNode_forloop_eq] at h ⊢
  obtain ⟨tag, htag', h⟩ := Activity.bind_eq_ok.mp h
  obtain ⟨container, hcontainer, h⟩ := Activity.bind_eq_ok.mp h
  obtain ⟨otherwise, hotherwise, h⟩ := Activity.bind_eq_ok.mp h
  obtain ⟨body, hbody, h⟩ := Activity.bind_eq_ok.mp h
  rw [htag] at htag'
  rw [hclosing] at h
  obtain ⟨otherwise', hotherwise'⟩ : ∃ o, readOtherwise m (.node .forloop y ds) = .ok o := by
    rw [readOtherwise, helse] at hotherwise
    rw [readOtherwise]
    split at hotherwise
    · exact ⟨none, if_pos ‹_›⟩
    · rw [if_neg ‹_›]
      obtain ⟨read, hread, -⟩ := Activity.map_eq_ok.mp hotherwise
      obtain ⟨read', hread', -⟩ := readNodes_of_rereads hlast hle hm hread
      exact ⟨some read', Activity.map_eq_ok.mpr ⟨read', hread', rfl⟩⟩
  obtain ⟨body', hbody', -⟩ := readNodes_of_rereads hfirst hle hm hbody
  obtain ⟨hnil, hall⟩ := loopOf_eq_ok h
  obtain ⟨ms, hms, hnil'⟩ := hall otherwise' body'
  exact ⟨ms, Activity.bind_eq_ok.mpr ⟨tag, htag', Activity.bind_eq_ok.mpr
    ⟨container, readValue_of_le hcontainer hle, Activity.bind_eq_ok.mpr
      ⟨otherwise', hotherwise', Activity.bind_eq_ok.mpr ⟨body', hbody', hms⟩⟩⟩⟩, by rw [hnil, hnil']⟩

/-- What has a body keeps its outline if the trees in it do. -/
theorem readNode_node (hr : r ∈ contents ∨ r ∈ sections) (hle : n ≤ m)
    (hm : 3 * (depths ds + 1) ≤ m) (h : readNode n (.node r x cs) = .ok ns) :
    ∃ ms, readNode m (.node r y ds) = .ok ms ∧ outline ms = outline ns := by
  obtain ⟨m, rfl⟩ : ∃ k, m = k + 1 := ⟨m - 1, by omega⟩
  cases n with
  | zero =>
      rw [readNode] at h
      cases h
  | succ n =>
      have hle : n ≤ m := by omega
      have hm : 3 * depths ds + 2 ≤ m := by omega
      rcases hr with hpart | hsection
      · rw [readNode_part hpart] at h ⊢
        exact readNodes_of_rereads hin hle (by omega) h
      · cases r with
        | filterSection => exact readNode_filterSection hin hle hm h
        | block => exact readNode_block hin hle hm h
        | macroDefinition => exact readNode_macroDefinition hin hle hm h
        | forloop => exact readNode_forloop hin hle (by omega) h
        | contentIf | blockIf | macroIf | forIf | filterSectionIf =>
            exact readNode_conditional hin (by decide) hle (by omega) h
        | _ => exact absurd hsection (by decide)

end Sections

/-- Rows of trees that differ only in additions are read to the same outline. -/
theorem Grown.rereads (h : Grown ts us) :
    ∀ n m, n ≤ m → 3 * depths us ≤ m → Rereads n m ts us := by
  induction h with
  | nil => exact fun _ _ _ _ => .nil
  | same t _ ih =>
      intro n m hle hm
      rw [depths] at hm
      exact .both (.inl rfl) (fun ns hns => ⟨ns, readNode_of_le hns hle, rfl⟩)
        (ih n m hle (by omega))
  | @added c ts us hc _ ih =>
      intro n m hle hm
      have hpos := depth_pos c
      rw [depths] at hm
      exact .added hc (by omega) (ih n m hle (by omega))
  | dropped hc _ ih => exact fun n m hle hm => .dropped hc (ih n m hle hm)
  | node hr x y _ _ ihin ih =>
      intro n m hle hm
      rw [depths, depth] at hm
      exact .both (.inr ⟨rfl, hr⟩) (fun ns => readNode_node ihin hr hle (by omega))
        (ih n m hle (by omega))

/-- A template with further parts keeps its outline. -/
theorem readTemplate_of_enlarged (h : Enlarged ts us)
    (hread : readTemplate (.node .template x ts.reverse) = .ok ns) :
    ∃ ms, readTemplate (.node .template y us.reverse) = .ok ms ∧ outline ms = outline ns := by
  rw [readTemplate] at hread ⊢
  have hrows : ∀ n m, n ≤ m → 3 * depths us ≤ m → Rereads n m
      (ts.reverse.filter fun c => c.rule != .commentTag)
      (us.reverse.filter fun c => c.rule != .commentTag) :=
    fun n m hle hm => (h.grown.rereads n m hle hm).reverse.filter fun r => r != .commentTag
  have hdepths := h.depths_le
  refine readNodes_of_rereads hrows ?_ ?_ hread
  · simp only [depth, depths_reverse]
    omega
  · simp only [depth, depths_reverse]
    omega

end Stencil.Language
