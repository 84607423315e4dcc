/-
The outline of a template.

A sheet is made of the nodes of a template, and whether it can be made depends on a few of them
only: on the blocks that stand at the top or directly inside one another, the macros, and the other
templates that are mentioned.  White space control changes texts and nothing of the outline.
-/
import Mathlib
import Stencil.Language.Sheet
import Stencil.Proofs.Activity
import Stencil.Proofs.Dict

namespace Stencil.Language

/-- What a sheet consists of. -/
inductive Entry where
  | block (name : String)
  | definition (name : String)
  | parent (file : String)
  | imported (file space : String)

namespace Entry

/-- The name of a block. -/
def block? : Entry → Option String
  | block name => some name
  | _ => none

/-- The name of a macro. -/
def definition? : Entry → Option String
  | definition name => some name
  | _ => none

/-- Another template that the sheet inherits from. -/
def parent? : Entry → Option String
  | parent file => some file
  | _ => none

/-- Another template whose macros the sheet imports. -/
def imported? : Entry → Option (String × String)
  | imported file space => some (file, space)
  | _ => none

end Entry

mutual

/-- The outline of a node: from a block its inner blocks count, and nothing else. -/
def outlineOf : Node → List Entry
  | .block _ name body _ => .block name :: (outline body).filter fun e => e.block?.isSome
  | .macroDefinition _ name _ _ _ => [.definition name]
  | .inherits _ file => [.parent file]
  | .imports _ file space => [.imported file space]
  | _ => []

/-- The outline of a list of nodes. -/
def outline : List Node → List Entry
  | [] => []
  | node :: rest => outlineOf node ++ outline rest

end

theorem outline_append (ns ms : List Node) : outline (ns ++ ms) = outline ns ++ outline ms := by
  induction ns with
  | nil => rfl
  | cons n ns ih => rw [List.cons_append, outline, outline, ih, List.append_assoc]

theorem outline_singleton (n : Node) : outline [n] = outlineOf n := by
  rw [outline, outline, List.append_nil]

/-- The blocks inside one another are all blocks. -/
theorem filterMap_blocks {ns : List Node} :
    ((outline ns).filter fun e => e.block?.isSome).filterMap Entry.block? =
      (outline ns).filterMap Entry.block? := by
  rw [List.filterMap_filter]
  congr 1
  funext e
  cases e <;> rfl

theorem filterMap_others {α : Type} {f : Entry → Option α} (hf : ∀ name, f (.block name) = none)
    (ns : List Node) : ((outline ns).filter fun e => e.block?.isSome).filterMap f = [] := by
  rw [List.filterMap_filter, List.filterMap_eq_nil_iff]
  intro e _
  cases e with
  | block name => simp [Entry.block?, hf]
  | _ => rfl

/-! ## Names that are new -/

/-- Whether names are new in a dictionary and differ from one another. -/
def Fresh {α : Type} (found : Dict α) (names : List String) : Prop :=
  names.Nodup ∧ ∀ name ∈ names, ¬ found.hasKey name

section Fresh

variable {α : Type} {found d : Dict α} {name : String} {names names' : List String}

theorem fresh_nil : Fresh found [] := ⟨List.nodup_nil, nofun⟩

theorem hasKey_insert {k : String} {v : α} :
    (found.insert k v).hasKey name ↔ name = k ∨ found.hasKey name := by
  rw [Dict.hasKey_iff_mem_keys, Dict.mem_keys_insert, Dict.hasKey_iff_mem_keys]

theorem fresh_cons {v : α} (h : ¬ found.hasKey name) :
    Fresh found (name :: names) ↔ Fresh (found.insert name v) names := by
  simp only [Fresh, List.nodup_cons, List.forall_mem_cons, hasKey_insert, not_or]
  constructor
  · rintro ⟨⟨hnot, hnodup⟩, -, hall⟩
    exact ⟨hnodup, fun k hk => ⟨fun heq => hnot (heq ▸ hk), hall k hk⟩⟩
  · rintro ⟨hnodup, hall⟩
    exact ⟨⟨fun hmem => (hall name hmem).1 rfl, hnodup⟩, h, fun k hk => (hall k hk).2⟩

theorem not_fresh_cons (h : found.hasKey name) : ¬ Fresh found (name :: names) :=
  fun hfresh => hfresh.2 name List.mem_cons_self h

theorem fresh_append (hd : ∀ k, d.hasKey k ↔ found.hasKey k ∨ k ∈ names) :
    Fresh found (names ++ names') ↔ Fresh found names ∧ Fresh d names' := by
  simp only [Fresh, List.nodup_append, List.mem_append, hd, not_or]
  constructor
  · rintro ⟨⟨hnodup, hnodup', hdisjoint⟩, hall⟩
    exact ⟨⟨hnodup, fun k hk => hall k (.inl hk)⟩, hnodup', fun k hk =>
      ⟨hall k (.inr hk), fun hk' => hdisjoint k hk' k hk rfl⟩⟩
  · rintro ⟨⟨hnodup, hall⟩, hnodup', hall'⟩
    refine ⟨⟨hnodup, hnodup', ?_⟩, fun k hk => hk.elim (hall k) fun hk => (hall' k hk).1⟩
    rintro a ha b hb rfl
    exact (hall' a hb).2 ha

end Fresh

/-! ## Sheets -/

namespace Sheet

/-- Whether an attempt to add names succeeds, exactly if they are new, and adds them all. -/
def Adds {α : Type} (found : Dict α) (names : List String) (result : Except Defect (Dict α)) : Prop :=
  (Fresh found names ∧ ∃ d, result = .ok d ∧ ∀ k, d.hasKey k ↔ found.hasKey k ∨ k ∈ names) ∨
    (¬ Fresh found names ∧ ∃ e, result = .error e)

section Adds

variable {α : Type} {found : Dict α} {names names' : List String} {result : Except Defect (Dict α)}

theorem Adds.nil : Adds found [] (.ok found) := .inl ⟨fresh_nil, found, rfl, by simp⟩

theorem Adds.bind {f : Dict α → Except Defect (Dict α)} (h : Adds found names result)
    (hf : ∀ d, Adds d names' (f d)) : Adds found (names ++ names') (result >>= f) := by
  rcases h with ⟨hfresh, d, rfl, hd⟩ | ⟨hnot, e, rfl⟩
  · rcases hf d with ⟨hfresh', d', hd', hkeys⟩ | ⟨hnot, e, he⟩
    · refine .inl ⟨(fresh_append hd).mpr ⟨hfresh, hfresh'⟩, d', hd', fun k => ?_⟩
      rw [hkeys, hd, List.mem_append, or_assoc]
    · exact .inr ⟨fun hall => hnot ((fresh_append hd).mp hall).2, e, he⟩
  · refine .inr ⟨fun hall => hnot ?_, e, rfl⟩
    exact ⟨(List.nodup_append.mp hall.1).1, fun k hk => hall.2 k (List.mem_append_left _ hk)⟩

theorem Adds.cons {name : String} {v : α} (hname : ¬ found.hasKey name)
    (h : Adds (found.insert name v) names result) : Adds found (name :: names) result := by
  rcases h with ⟨hfresh, d, rfl, hd⟩ | ⟨hnot, e, rfl⟩
  · refine .inl ⟨(fresh_cons hname).mpr hfresh, d, rfl, fun k => ?_⟩
    rw [hd, hasKey_insert, List.mem_cons]
    tauto
  · exact .inr ⟨fun hfresh => hnot ((fresh_cons hname).mp hfresh), e, rfl⟩

theorem Adds.error {name : String} {e : Defect} (hname : found.hasKey name) :
    Adds found (name :: names) (.error e) :=
  .inr ⟨not_fresh_cons hname, e, rfl⟩

theorem Adds.ok_iff (h : Adds found names result) : (∃ d, result = .ok d) ↔ Fresh found names := by
  rcases h with ⟨hfresh, d, rfl, -⟩ | ⟨hnot, e, rfl⟩
  · exact ⟨fun _ => hfresh, fun _ => ⟨d, rfl⟩⟩
  · exact ⟨nofun, fun hfresh => absurd hfresh hnot⟩

end Adds

mutual

theorem adds_blocksOfNode (found : Dict (List Node)) (n : Node) :
    Adds found ((outlineOf n).filterMap Entry.block?) (blocksOfNode found n) := by
  cases n with
  | block opening name body closing =>
      have hblock : (Entry.block name).block? = some name := rfl
      rw [blocksOfNode, outlineOf, List.filterMap_cons_some hblock, filterMap_blocks]
      split
      · exact .error ‹_›
      · exact .cons ‹_› (adds_blocksOf _ body)
  | _ => exact .nil

theorem adds_blocksOf (found : Dict (List Node)) (ns : List Node) :
    Adds found ((outline ns).filterMap Entry.block?) (blocksOf found ns) := by
  cases ns with
  | nil => exact .nil
  | cons n ns =>
      rw [blocksOf, outline, List.filterMap_append]
      exact (adds_blocksOfNode found n).bind fun d => adds_blocksOf d ns

end

theorem adds_addMacro (found : Dict Macro) (n : Node) :
    Adds found ((outlineOf n).filterMap Entry.definition?) (addMacro found n) := by
  cases n with
  | macroDefinition opening name params body closing =>
      rw [addMacro]
      split
      · exact .error ‹_›
      · exact .cons ‹_› .nil
  | block opening name body closing =>
      rw [outlineOf, List.filterMap_cons_none rfl, filterMap_others fun _ => rfl]
      exact .nil
  | _ => exact .nil

theorem adds_addMacros (found : Dict Macro) (ns : List Node) :
    Adds found ((outline ns).filterMap Entry.definition?) (ns.foldlM addMacro found) := by
  induction ns generalizing found with
  | nil => exact .nil
  | cons n ns ih =>
      rw [List.foldlM_cons, outline, List.filterMap_append]
      exact (adds_addMacro found n).bind ih

theorem filterMap_parentOf? (ns : List Node) :
    ns.filterMap parentOf? = (outline ns).filterMap Entry.parent? := by
  induction ns with
  | nil => rfl
  | cons n ns ih =>
      rw [outline, List.filterMap_append, ← ih]
      cases n with
      | block => rw [outlineOf, List.filterMap_cons_none rfl, List.filterMap_cons_none rfl,
          filterMap_others fun _ => rfl, List.nil_append]
      | _ => rfl

theorem filterMap_importOf? (ns : List Node) :
    ns.filterMap importOf? = (outline ns).filterMap Entry.imported? := by
  induction ns with
  | nil => rfl
  | cons n ns ih =>
      rw [outline, List.filterMap_append, ← ih]
      cases n with
      | block => rw [outlineOf, List.filterMap_cons_none rfl, List.filterMap_cons_none rfl,
          filterMap_others fun _ => rfl, List.nil_append]
      | _ => rfl

/-- Whether nodes make a sheet, and which others the sheet mentions, is a matter of their
outline. -/
theorem exists_ofNodes_of_outline {ns ms : List Node} {s : Sheet} (h : outline ms = outline ns)
    (hs : ofNodes ns = .ok s) :
    ∃ s', ofNodes ms = .ok s' ∧ s'.parent = s.parent ∧ s'.imports = s.imports := by
  obtain ⟨blocks, hblocks, hs⟩ := Activity.bind_eq_ok.mp hs
  obtain ⟨macros, hmacros, hs⟩ := Activity.bind_eq_ok.mp hs
  cases hs
  have hfresh := (adds_blocksOf [] ns).ok_iff.mp ⟨_, hblocks⟩
  have hfresh' := (adds_addMacros [] ns).ok_iff.mp ⟨_, hmacros⟩
  rw [← h] at hfresh hfresh'
  obtain ⟨blocks', hblocks'⟩ := (adds_blocksOf [] ms).ok_iff.mpr hfresh
  obtain ⟨macros', hmacros'⟩ := (adds_addMacros [] ms).ok_iff.mpr hfresh'
  refine ⟨_, Activity.bind_eq_ok.mpr ⟨blocks', hblocks', Activity.bind_eq_ok.mpr
    ⟨macros', hmacros', rfl⟩⟩, ?_, ?_⟩
  · simp only [filterMap_parentOf?, h]
  · simp only [filterMap_importOf?, h]

end Sheet

/-! ## White space control -/

theorem outline_stripLast (done : List Node) :
    outline (stripLast done).reverse = outline done.reverse := by
  cases done with
  | nil => rfl
  | cons n before =>
      cases n with
      | text s =>
          rw [stripLast]
          split
          · simp [outline_append, outline_singleton, outlineOf]
          · simp [outline_append, outline_singleton, outlineOf]
      | _ => rfl

theorem outline_meet (t : Trimming) (left right : Bool) :
    outline (t.meet left right).done.reverse = outline t.done.reverse := by
  rw [Trimming.meet]
  dsimp only
  split
  · exact outline_stripLast _
  · rfl

theorem outline_add (t : Trimming) (n : Node) :
    outline (t.add n).done.reverse = outline t.done.reverse ++ outlineOf n := by
  rw [Trimming.add, List.reverse_cons, outline_append, outline_singleton]

theorem outline_meet_add (t : Trimming) (left right : Bool) (n : Node) :
    outline ((t.meet left right).add n).done.reverse = outline t.done.reverse ++ outlineOf n := by
  rw [outline_add, outline_meet]

theorem outline_stripStart (s : String) : outline (stripStart s).reverse = [] := by
  rw [stripStart]
  split <;> rfl

mutual

theorem outline_trimNode (t : Trimming) (n : Node) :
    outline (trimNode t n).done.reverse = outline t.done.reverse ++ outlineOf n := by
  cases n with
  | text s =>
      rw [trimNode, Trimming.addText, List.reverse_append, outline_append]
      split
      · rw [outline_stripStart]
        rfl
      · rfl
  | replaced => rw [trimNode, List.reverse_cons, outline_append, outline_singleton]
  | block opening name body closing =>
      rw [trimNode, outline_meet_add, outlineOf, outlineOf, outline_trimBody]
  | choose branches otherwise closing =>
      cases otherwise with
      | none => rw [trimNode, outline_meet_add]; rfl
      | some last => rw [trimNode, outline_meet_add]; rfl
  | raw | filtered | loop | macroDefinition => rw [trimNode, outline_meet_add]; rfl
  | _ => rw [trimNode, outline_meet_add]

theorem outline_trimNodes (t : Trimming) (ns : List Node) :
    outline (trimNodes t ns).done.reverse = outline t.done.reverse ++ outline ns := by
  cases ns with
  | nil => rw [trimNodes, outline, List.append_nil]
  | cons n ns => rw [trimNodes, outline_trimNodes, outline_trimNode, outline, List.append_assoc]

/-- White space control keeps the outline. -/
theorem outline_trimBody (left right : Bool) (body : List Node) :
    outline (trimBody left right body) = outline body := by
  rw [trimBody]
  split
  · rw [outline_stripLast, outline_trimNodes]
    rfl
  · rw [outline_trimNodes]
    rfl

end

theorem outline_trimTemplate (ns : List Node) : outline (trimTemplate ns) = outline ns :=
  outline_trimBody _ _ _

end Stencil.Language
