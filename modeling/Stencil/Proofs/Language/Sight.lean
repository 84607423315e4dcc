/-
Places from which a key cannot be seen.

An inclusion names the sheet that it includes, and it says nothing else.  So where it is read as an
inclusion another key can stand in it, and the template is the same under other names.  In a comment
it is not read at all, and only the first and the last characters of a comment say something: how it
trims the text around it.  In a raw section, though, an inclusion is text, and its key is printed.
-/
import Mathlib
import Stencil.Proofs.Language.Twins

namespace Stencil.Language

open Stencil.Grammar (Reads Found Query Tightness skipped shown)

variable {σ : String → String} {x y cs ds : List Char} {t : Parse} {ts us : List (Tree Rule)}
  {r : Rule}

/-! ## What stands in a tree -/

/-- Whether all texts in a tree stand in a given text. -/
inductive Within (x : List Char) : Parse → Prop
  | node {r : Rule} {y : List Char} {cs : List Parse} (hy : y <:+: x)
      (hcs : ∀ c ∈ cs, Within x c) : Within x (.node r y cs)

theorem Within.mono (h : Within x t) (hxy : x <:+: y) : Within y t := by
  induction h with
  | node hy _ ih => exact .node (hy.trans hxy) ih

/-- Whatever is read stands in the text that is read. -/
theorem within_of_reads {k : Tightness} {query : Query Rule}
    (h : Reads grammar k query cs (some (ds, ts))) : ∀ t ∈ ts, Within cs t := by
  generalize hout : (some (ds, ts) : Found Rule) = out at h
  induction h generalizing ds ts with
  | literal | letter | endOfText | many_none | again_none | optional_none | absent =>
      cases hout
      exact nofun
  | @seq k a b cs ds' es ts' us ha _ iha ihb =>
      cases hout
      intro t ht
      rcases List.mem_append.mp ht with ht | ht
      · exact (ihb rfl t ht).mono ((Grammar.skipped_suffix k ds').trans ha.suffix).isInfix
      · exact iha rfl t ht
  | alt_first _ iha => exact iha hout
  | alt_second _ _ _ ihb => exact ihb hout
  | many ha _ iha ihs =>
      cases hout
      intro t ht
      rcases List.mem_append.mp ht with ht | ht
      · exact (ihs rfl t ht).mono ha.suffix.isInfix
      · exact iha rfl t ht
  | @again k a cs ds' es ts' us ha _ iha ihs =>
      cases hout
      intro t ht
      have hskipped := Grammar.skipped_suffix k cs
      rcases List.mem_append.mp ht with ht | ht
      · exact (ihs rfl t ht).mono (ha.suffix.trans hskipped).isInfix
      · exact (iha rfl t ht).mono hskipped.isInfix
  | optional _ iha => exact iha hout
  | rule _ ih =>
      cases hout
      intro t ht
      rw [shown] at ht
      split at ht
      · exact ih rfl t ht
      · rw [List.mem_singleton] at ht
        subst ht
        exact .node (List.take_prefix _ _).isInfix fun c hc => ih rfl c (List.mem_reverse.mp hc)
  | literal_none | letter_none | endOfText_none | seq_first | seq_second | absent_none
  | rule_none => cases hout

theorem infix_of_mem_readFiles {file : String} (h : Within x t) (hfile : file ∈ readFiles t) :
    file.toList <:+: x := by
  have hunquoted : ∀ {c : Parse}, Within x c → (unquoted c).toList <:+: x := by
    rintro _ ⟨hy, -⟩
    rw [unquoted, String.toList_ofList]
    exact ((List.dropLast_prefix _).isInfix.trans (List.drop_suffix _ _).isInfix).trans hy
  cases h with
  | node hy hcs =>
      obtain ⟨c, hc, hfile⟩ := List.mem_flatMap.mp hfile
      have hwithin := hcs c hc
      split at hfile
      · exact List.mem_singleton.mp hfile ▸ hunquoted hwithin
      · obtain ⟨d, hd, rfl⟩ := List.mem_map.mp hfile
        cases hwithin with
        | node _ hds => exact hunquoted (hds d hd)
      · cases hfile

/-- Only the names in a complete part can be renamed. -/
theorem readNode_leaf (hr : isLeaf t.rule) (hfiles : ∀ file ∈ readFiles t, σ file = file)
    (n : Nat) : readNode n t = renameNodes σ <$> readNode n t := by
  cases n with
  | zero => rw [readNode]; rfl
  | succ n =>
      rw [readNode]
      generalize hrule : t.rule = r at hr
      cases r with
      | variableTag | setTag | setGlobalTag | raw =>
          simp only [map_bind, map_pure]
          rfl
      | includeTag =>
          have hfiles : (readFiles t).map σ = readFiles t :=
            (List.map_congr_left hfiles).trans (List.map_id' _)
          show Except.ok [Node.includes _ _ _] = Except.ok [Node.includes _ ((readFiles t).map σ) _]
          rw [hfiles]
      | content | blockContent | macroContent | forContent | filterSectionContent | text | extendsTag
      | importMacroTag | filterSection | block | macroDefinition | forloop | contentIf | blockIf
      | macroIf | forIf | filterSectionIf => cases hr
      | _ => rfl

/-- A complete part without tags is its own pair if the names in it stay. -/
theorem paired_of_delimited (hx : Delimited x)
    (hσ : ∀ file : String, file.toList <:+: x → σ file = file) : Paired σ x x := by
  refine ⟨opens_of_delimited hx, opens_of_delimited hx, fun r hr => ?_⟩
  rcases isSettled_of_delimited hr hx with h | ⟨ts, h⟩
  · exact .inl ⟨h, h⟩
  · refine .inr ⟨ts, ts, h, h, ?_⟩
    have hread := h []
    obtain ⟨us, -, rfl⟩ := exists_node_of_firm (isFirm_of_isLeaf hr) hread
    have hwithin := within_of_reads hread _ (List.mem_singleton_self _)
    rw [List.append_nil] at hwithin
    refine .leaf rfl (.inl rfl) (readNode_leaf hr fun file hfile => ?_) .nil
    exact hσ file (infix_of_mem_readFiles hwithin hfile)

/-! ## Inclusions -/

/-- The inclusion of the sheet under a key. -/
def inclusionOf (key : String) : List Char :=
  "\x7b% include \"".toList ++ (key.toList ++ "\" %\x7d".toList)

/-- The tree of an inclusion. -/
def inclusionTree (key : String) : Parse :=
  .node .includeTag (inclusionOf key) [.node .tagStart ['\x7b', '%'] [],
    .node .string ('"' :: (key.toList ++ ['"'])) [], .node .tagEnd ['%', '\x7d'] []]

/-- The text that a rule took is what stands in front of the rest. -/
theorem reads_rule_append {k : Tightness} {w : List Char}
    (h : Reads grammar (k.inside (mode r)) (.once (body r)) (w ++ ds) (some (ds, ts))) :
    Reads grammar k (.once (.rule r)) (w ++ ds) (some (ds, shown grammar k r w ts)) := by
  have hread := Reads.rule (g := grammar) h
  rwa [List.length_append, Nat.add_sub_cancel, List.take_left'] at hread
  rfl

theorem reads_inclusion {key : String} (hkey : '"' ∉ key.toList) :
    Reads grammar .tight (.once (.rule .includeTag)) (inclusionOf key)
      (some ([], [inclusionTree key])) := by
  have hnot : ∀ {a b : Char} {l u : List Char}, a ≠ b → ¬ a :: l <+: b :: u :=
    fun hab h => hab (List.cons_prefix_cons.mp h).1
  have hstart : ∀ u, Reads grammar .tight (.once (.rule .tagStart)) ('\x7b' :: '%' :: ' ' :: u)
      (some (' ' :: u, [.node .tagStart ['\x7b', '%'] []])) := by
    intro u
    have hread : Reads grammar .tight (.once (body .tagStart)) (['\x7b', '%'] ++ ' ' :: u)
        (some (' ' :: u, [])) := by
      refine .alt_second (.literal_none fun h => ?_) (.literal rfl)
      exact hnot (by decide) (List.cons_prefix_cons.mp (List.cons_prefix_cons.mp h).2).2
    exact reads_rule_append (k := .tight) (r := .tagStart) hread
  have hquoted : ∀ u, Reads grammar .tight (.once (oneOf [.string, .stringArray]))
      ('"' :: (key.toList ++ '"' :: u))
      (some (u, [.node .string ('"' :: (key.toList ++ ['"'])) []])) := by
    intro u
    have hdouble : Reads grammar .hidden (.once (.rule .doubleQuoted))
        ('"' :: (key.toList ++ '"' :: u)) (some (u, [])) := .rule (reads_quoted hkey u)
    have hsplit : '"' :: (key.toList ++ '"' :: u) = '"' :: (key.toList ++ ['"']) ++ u := by simp
    rw [hsplit] at hdouble ⊢
    exact .alt_first (reads_rule_append (k := .tight) (r := .string) (.alt_first hdouble))
  have hmissing : Reads grammar .tight (.once (.optional (.rule .ignoreMissing))) ['%', '\x7d']
      (some (['%', '\x7d'], [])) :=
    .optional_none (.rule_none (.seq_first (.literal_none (hnot (by decide)))))
  have hend : Reads grammar .tight (.once (.rule .tagEnd)) ['%', '\x7d']
      (some ([], [.node .tagEnd ['%', '\x7d'] []])) := by
    have hread : Reads grammar .tight (.once (body .tagEnd)) (['%', '\x7d'] ++ []) (some ([], [])) :=
      .alt_second (.literal_none (hnot (by decide))) (.literal rfl)
    exact reads_rule_append (k := .tight) (r := .tagEnd) hread
  have hword : Reads grammar .tight (.once (Peg.lit "include"))
      ("include".toList ++ ' ' :: '"' :: (key.toList ++ "\" %\x7d".toList))
      (some (' ' :: '"' :: (key.toList ++ "\" %\x7d".toList), [])) := .literal rfl
  have hbehind : Reads grammar .tight (.once (Peg.chain [spaces, .optional (.rule .ignoreMissing),
      spaces, .rule .tagEnd])) " %\x7d".toList (some ([], [.node .tagEnd ['%', '\x7d'] []])) :=
    .seq (reads_spaces [' ', '%', '\x7d']) (.seq hmissing (.seq (reads_spaces ['%', '\x7d']) hend))
  have hbody : Reads grammar .tight (.once (body .includeTag)) (inclusionOf key)
      (some ([], [.node .tagEnd ['%', '\x7d'] [], .node .string ('"' :: (key.toList ++ ['"'])) [],
        .node .tagStart ['\x7b', '%'] []])) :=
    .seq (hstart _) (.seq (reads_spaces (' ' :: "include".toList ++ _)) (.seq hword
      (.seq (.seq (.letter rfl rfl) (reads_spaces ('"' :: _))) (.seq (hquoted _) hbehind))))
  have hread := Reads.rule (g := grammar) (t := .tight) (r := .includeTag) hbody
  rw [List.length_nil, Nat.sub_zero, List.take_length] at hread
  exact hread

theorem readNode_inclusionTree (key : String) (n : Nat) :
    readNode n (inclusionTree (σ key)) = renameNodes σ <$> readNode n (inclusionTree key) := by
  have hfiles : ∀ key : String, readFiles (inclusionTree key) = [key] := by
    intro key
    have hkey : unquoted (.node .string ('"' :: (key.toList ++ ['"'])) []) = key := by
      rw [unquoted, Tree.text, List.drop_succ_cons, List.drop_zero, List.dropLast_concat,
        String.ofList_toList]
    show [unquoted _] = [key]
    rw [hkey]
  cases n with
  | zero => rw [readNode, readNode]; rfl
  | succ n =>
      rw [readNode, readNode]
      show Except.ok [Node.includes _ _ _] = Except.ok [Node.includes _ (List.map σ _) _]
      rw [hfiles, hfiles]
      rfl

/-- Only an inclusion is read where one stands. -/
theorem refuses_of_isInclusion (hr : isLeaf r) (hne : r ≠ .includeTag) (hx : IsInclusion x) :
    Refuses .tight (.rule r) x := by
  obtain ⟨key, -, -, rfl⟩ := hx
  have hapart : ∀ p ∈ words, p.1 ≠ .includeTag →
      ¬ (p.2.toList <+: "include".toList ∨ "include".toList <+: p.2.toList) := by decide
  have hword : ∀ {q : Rule} {w : String} {y : List Char}, wordOf? q = some w → q ≠ .includeTag →
      kindOf? q = some '%' → Reads grammar .tight (.once (.rule q))
        ("\x7b% include \"".toList ++ (key ++ "\" %\x7d".toList) ++ y) none := by
    intro q w y hw hq hkind
    obtain ⟨out, hout⟩ := Grammar.exists_reads rankedBy_ranking .tight (covers_of_kindOf? hkind)
      ("\x7b% include \"".toList ++ (key ++ "\" %\x7d".toList) ++ y)
    cases out with
    | none => exact hout
    | some found =>
        exfalso
        obtain ⟨es, hes, hprefix⟩ := word_of_reads hw hout
        cases hes
        exact hapart _ (mem_words hw) hq
          (List.prefix_or_prefix_of_prefix hprefix (List.prefix_append "include".toList _))
  intro y
  rcases isLeaf_iff.mp hr with rfl | ⟨⟨d, hd⟩, -⟩
  · exact .rule_none (.seq_first (hword (q := .rawTag) rfl (by decide) rfl))
  · rcases kindOf?_cases hd with ⟨rfl, -⟩ | ⟨rfl, -, w, hw⟩ | ⟨rfl, rfl⟩
    · exact reads_none_of_kindOf? hd _ fun es hes => by cases hes
    · exact hword hw hne hd
    · exact reads_none_of_kindOf? hd _ fun es hes => by cases hes

theorem isInclusion_inclusionOf {key : String} (hkey : '"' ∉ key.toList ∧ '\x7d' ∉ key.toList) :
    IsInclusion (inclusionOf key) :=
  ⟨key.toList, hkey.1, hkey.2, rfl⟩

theorem reads_inclusion_append {key : String} (hkey : '"' ∉ key.toList ∧ '\x7d' ∉ key.toList)
    (z : List Char) : Reads grammar .tight (.once (.rule .includeTag)) (inclusionOf key ++ z)
      (some (z, [inclusionTree key])) := by
  obtain ⟨ts, hpasses⟩ := passes_inclusion (isInclusion_inclusionOf hkey) .tight
  have hread := hpasses []
  rw [List.append_nil] at hread
  cases hread.det (reads_inclusion hkey.1)
  exact hpasses z

/-- Two inclusions say the same if the key of one is the new name of the other's. -/
theorem paired_inclusion {key : String} (hkey : '"' ∉ key.toList ∧ '\x7d' ∉ key.toList)
    (hkey' : '"' ∉ (σ key).toList ∧ '\x7d' ∉ (σ key).toList) :
    Paired σ (inclusionOf key) (inclusionOf (σ key)) := by
  have hx := isInclusion_inclusionOf hkey
  have hy := isInclusion_inclusionOf hkey'
  refine ⟨opens_of_isInclusion hx, opens_of_isInclusion hy, fun r hr => ?_⟩
  by_cases hne : r = .includeTag
  · subst hne
    have hretellable : Rule.includeTag ∈ retellable := List.mem_cons_self
    exact .inr ⟨_, _, reads_inclusion_append hkey, reads_inclusion_append hkey',
      .leaf rfl (.inr hretellable) (readNode_inclusionTree key) .nil⟩
  · exact .inl ⟨refuses_of_isInclusion hr hne hx, refuses_of_isInclusion hr hne hy⟩

/-! ## Comments -/

/-- The last character that is taken up to an end is none at which the end stands. -/
theorem exists_last_of_repeats {e : Expression} {mid : List Char}
    (ha : Reads grammar .tight (.once (untilMatch e)) cs (some (mid, ts)))
    (hs : Repeats (untilMatch e) mid ds us) :
    ∃ c, c :: ds <:+ cs ∧ Reads grammar .tight (.once e) (c :: ds) none := by
  induction hs generalizing cs ts with
  | nil =>
      obtain ⟨mid', ts₁, ts₂, habsent, hany, -⟩ := Grammar.reads_seq_some.mp ha
      rcases Grammar.reads_absent.mp habsent with ⟨hnone, heq⟩ | ⟨_, -, heq⟩
      · cases heq
        rcases (Grammar.reads_letter rfl).mp hany with ⟨c, mid', rfl, -, heq⟩ | ⟨-, heq⟩
        · cases heq
          exact ⟨c, List.suffix_refl _, hnone⟩
        · cases heq
      · cases heq
  | cons hb _ ih =>
      obtain ⟨c, hsuffix, hc⟩ := ih hb
      exact ⟨c, hsuffix.trans ha.suffix, hc⟩

/-- A delimiter that may have a dash has one where one stands. -/
theorem tree_of_delimiter {a b : List Char} (hbody : body r = .alt (.literal a) (.literal b))
    (hmode : mode r = .inherit) (h : Reads grammar .tight (.once (.rule r)) cs (some (ds, ts))) :
    (cs = a ++ ds ∧ ts = [.node r a []]) ∨ (¬ a <+: cs ∧ cs = b ++ ds ∧ ts = [.node r b []]) := by
  have hshown : ∀ w, shown grammar .tight r w [] = [.node r w []] := by
    intro w
    refine if_neg ?_
    show ¬ (mode r = .silent ∨ Tightness.tight.seen (mode r) = .hidden)
    rw [hmode]
    simp [Tightness.seen]
  have htaken : ∀ w ds : List Char, (w ++ ds).take ((w ++ ds).length - ds.length) = w := by
    intro w ds
    rw [List.length_append, Nat.add_sub_cancel, List.take_left']
    rfl
  obtain ⟨us, hread, rfl⟩ := Grammar.reads_rule_some.mp h
  change Reads grammar (Tightness.tight.inside (mode r)) (.once (body r)) cs _ at hread
  rw [hmode, hbody] at hread
  rcases Grammar.reads_alt_some.mp hread with hread | ⟨hnone, hread⟩
  · obtain ⟨rfl, rfl⟩ := Grammar.reads_literal_some.mp hread
    exact .inl ⟨rfl, by rw [htaken, hshown]⟩
  · obtain ⟨rfl, rfl⟩ := Grammar.reads_literal_some.mp hread
    exact .inr ⟨Grammar.reads_literal_none.mp hnone, rfl, by rw [htaken, hshown]⟩

/-- How a comment trims the text around it can be seen from its ends. -/
theorem margin_of_comment (h : Reads grammar .tight (.once (.rule .commentTag)) x (some ([], ts))) :
    ∃ c, ts = [c] ∧ c.rule = .commentTag ∧
      readMargin c = ⟨decide (['\x7b', '#', '-'] <+: x), decide (['-', '#', '\x7d'] <:+ x)⟩ := by
  obtain ⟨us, hbody, rfl⟩ := exists_node_of_firm rfl h
  obtain ⟨ds₁, ts₁, _, hstart, hbehind, rfl⟩ := Grammar.reads_seq_some.mp hbody
  obtain ⟨ds₂, ts₂, ts₃, htext, hend, rfl⟩ := Grammar.reads_seq_some.mp hbehind
  change Reads grammar .tight (.once (.rule .commentText)) ds₁ _ at htext
  change Reads grammar .tight (.once (.rule .commentEnd)) ds₂ _ at hend
  obtain ⟨vs, hinside, rfl⟩ := exists_node_of_firm rfl htext
  obtain ⟨mid, ts₄, ts₅, hfirst, hmany, -⟩ := Grammar.reads_seq_some.mp hinside
  obtain ⟨c, hlast, hc⟩ := exists_last_of_repeats hfirst (reads_many_iff_repeats.mp hmany).1
  have hmargin : ∀ (y : List Char) (a b : List Char) (w : List Char) (vs : List Parse),
      readMargin (.node .commentTag y [.node .commentStart a [], .node .commentText w vs,
        .node .commentEnd b []]) = ⟨a.contains '-' || false, b.contains '-' || false⟩ :=
    fun _ _ _ _ _ => rfl
  have hleft : ∃ a, ts₁ = [.node .commentStart a []] ∧
      a.contains '-' = decide (['\x7b', '#', '-'] <+: x) := by
    rcases tree_of_delimiter rfl rfl hstart with ⟨rfl, rfl⟩ | ⟨hnot, rfl, rfl⟩
    · exact ⟨_, rfl, (decide_eq_true (List.prefix_append _ _)).symm⟩
    · exact ⟨_, rfl, (decide_eq_false hnot).symm⟩
  have hsuffix : ds₂ <:+ x := htext.suffix.trans hstart.suffix
  have hright : ∃ b, ts₃ = [.node .commentEnd b []] ∧
      b.contains '-' = decide (['-', '#', '\x7d'] <:+ x) := by
    rcases tree_of_delimiter rfl rfl hend with ⟨rfl, rfl⟩ | ⟨-, rfl, rfl⟩
    · exact ⟨_, rfl, (decide_eq_true hsuffix).symm⟩
    · -- A dash in front of the end would be part of it.
      refine ⟨_, rfl, (decide_eq_false fun hdash => ?_).symm⟩
      have hsame := (List.suffix_of_suffix_length_le hdash (hlast.trans hstart.suffix)
        (by simp)).eq_of_length rfl
      obtain ⟨rfl, -⟩ := List.cons.inj hsame
      have hnot := (Grammar.reads_alt_none.mp (Grammar.reads_rule_none.mp hc)).1
      exact Grammar.reads_literal_none.mp hnot (List.prefix_refl _)
  obtain ⟨a, rfl, ha⟩ := hleft
  obtain ⟨b, rfl, hb⟩ := hright
  refine ⟨_, rfl, rfl, ?_⟩
  show readMargin (.node .commentTag _ [.node .commentStart a [], .node .commentText _ _,
    .node .commentEnd b []]) = _
  rw [hmargin, ha, hb, Bool.or_false, Bool.or_false]

theorem readNode_comment {c : Parse} (hc : c.rule = .commentTag) (n : Nat) :
    readNode (n + 1) c = .ok [.comment (readMargin c)] := by
  rw [readNode, hc]
  rfl

/-- Comments with the same ends say the same. -/
theorem paired_of_comments (hx : Passes .tight (.rule .commentTag) x [])
    (hy : Passes .tight (.rule .commentTag) y [])
    (hstart : ['\x7b', '#', '-'] <+: x ↔ ['\x7b', '#', '-'] <+: y)
    (hend : ['-', '#', '\x7d'] <:+ x ↔ ['-', '#', '\x7d'] <:+ y) : Paired σ x y := by
  refine ⟨opens_of_passes (.inl rfl) hx, opens_of_passes (.inl rfl) hy, fun r hr => ?_⟩
  by_cases hne : r = .commentTag
  · subst hne
    obtain ⟨ts, hx⟩ := hx
    obtain ⟨us, hy⟩ := hy
    have hread := hx []
    have hread' := hy []
    rw [List.append_nil] at hread hread'
    obtain ⟨c, rfl, hc, hmargin⟩ := margin_of_comment hread
    obtain ⟨d, rfl, hd, hmargin'⟩ := margin_of_comment hread'
    refine .inr ⟨_, _, hx, hy, .leaf (hd.trans hc.symm) (.inr ?_) (fun n => ?_) .nil⟩
    · rw [hc]
      decide
    · cases n with
      | zero => rw [readNode, readNode]; rfl
      | succ n =>
          rw [readNode_comment hc, readNode_comment hd, hmargin, hmargin',
            decide_eq_decide.mpr hstart, decide_eq_decide.mpr hend]
          rfl
  · exact .inl ⟨refuses_of_quiet (.inl rfl) hx hr hne, refuses_of_quiet (.inl rfl) hy hr hne⟩

/-! ## Pieces -/

section Pieces

variable {written written' : String → List Char} {ps : List Piece}

/-- What a text starts with does not depend on what is written for its tags, up to the sign that is
the second character of both. -/
theorem prefix_write_iff {l : List Char} (hl : '%' ∉ l)
    (h : ∀ name, ∃ c u u', written name = c :: '%' :: u ∧ written' name = c :: '%' :: u')
    (ps : List Piece) : l <+: Piece.write written ps ↔ l <+: Piece.write written' ps := by
  induction ps generalizing l with
  | nil => exact Iff.rfl
  | cons p ps ih =>
      cases l with
      | nil => simp
      | cons d l =>
          obtain ⟨-, hl⟩ := not_or.mp (List.mem_cons.not.mp hl)
          cases p with
          | char c =>
              rw [write_char, write_char, List.cons_prefix_cons, List.cons_prefix_cons, ih hl]
          | tag name =>
              obtain ⟨c, u, u', hu, hu'⟩ := h name
              rw [write_tag, write_tag, hu, hu']
              cases l with
              | nil => simp
              | cons e l =>
                  have hne : e ≠ '%' := fun heq => hl (heq ▸ List.mem_cons_self)
                  simp [hne]

theorem reverse_write (ps : List Piece) :
    (Piece.write written ps).reverse =
      Piece.write (fun name => (written name).reverse) ps.reverse := by
  induction ps with
  | nil => rfl
  | cons p ps ih =>
      rw [List.reverse_cons, write_append, ← ih]
      cases p with
      | char c => simp
      | tag name => simp

theorem suffix_write_iff {l : List Char} (hl : '%' ∉ l)
    (h : ∀ name, ∃ c u u', (written name).reverse = c :: '%' :: u ∧
      (written' name).reverse = c :: '%' :: u') (ps : List Piece) :
    l <:+ Piece.write written ps ↔ l <:+ Piece.write written' ps := by
  rw [← List.reverse_prefix, ← List.reverse_prefix, reverse_write, reverse_write]
  exact prefix_write_iff (by simpa using hl) h _

theorem reverse_inclusionOf (key : String) :
    (inclusionOf key).reverse =
      '\x7d' :: '%' :: ' ' :: '"' :: (key.toList.reverse ++ "\x7b% include \"".toList.reverse) := by
  have hend : "\" %\x7d".toList.reverse = ['\x7d', '%', ' ', '"'] := by decide
  have hsplit : ∀ a k b : List Char,
      (a ++ (k ++ b)).reverse = b.reverse ++ (k.reverse ++ a.reverse) := by simp
  exact (hsplit _ _ _).trans
    (congrArg (· ++ (key.toList.reverse ++ "\x7b% include \"".toList.reverse)) hend)

/-- Whether no key that is written for the tags among some pieces can be seen: the tags stand in the
text of a template, or in a comment that stays one whatever is written for them. -/
inductive OutOfSight : List Piece → Prop
  | nil : OutOfSight []
  | char {c : Char} {ps : List Piece} (hc : c = '\x7b' → StartsPlain ps) (hps : OutOfSight ps) :
      OutOfSight (.char c :: ps)
  | tag {name : String} {ps : List Piece} (hps : OutOfSight ps) : OutOfSight (.tag name :: ps)
  | delimited {x : List Char} {ps : List Piece} (hx : Delimited x) (hps : OutOfSight ps) :
      OutOfSight (x.map .char ++ ps)
  | comment {w ps : List Piece}
      (hw : ∀ written, Fills written → Passes .tight (.rule .commentTag) (Piece.write written w) [])
      (hps : OutOfSight ps) : OutOfSight (w ++ ps)

namespace OutOfSight

theorem inText (h : OutOfSight ps) : InText ps := by
  induction h with
  | nil => exact .nil
  | char hc _ ih => exact .char hc ih
  | tag _ ih => exact .tag ih
  | delimited hx _ ih => exact .complete (.delimited hx) ih
  | comment hw _ ih => exact .complete (.quiet (.inl rfl) hw) ih

/-- Keys that are out of sight can be renamed: the texts are twins. -/
theorem twin {key : String → String} (h : OutOfSight ps)
    (hkey : ∀ name, '"' ∉ (key name).toList ∧ '\x7d' ∉ (key name).toList)
    (hkey' : ∀ name, '"' ∉ (σ (key name)).toList ∧ '\x7d' ∉ (σ (key name)).toList)
    (hσ : ∀ file : String, file.toList <:+: bare ps → σ file = file) :
    Twin σ (Piece.write (fun name => inclusionOf (key name)) ps)
      (Piece.write (fun name => inclusionOf (σ (key name))) ps) := by
  have hpart : ∀ {w ps : List Piece},
      (∀ file : String, file.toList <:+: bare (w ++ ps) → σ file = file) →
      (∀ file : String, file.toList <:+: bare w → σ file = file) ∧
        ∀ file : String, file.toList <:+: bare ps → σ file = file := by
    intro w ps hσ
    rw [bare, write_append] at hσ
    exact ⟨fun file hfile => hσ file (hfile.trans (List.prefix_append _ _).isInfix),
      fun file hfile => hσ file (hfile.trans (List.suffix_append _ _).isInfix)⟩
  induction h with
  | nil => exact .nil
  | @char c ps hc _ ih =>
      exact .char (not_opens_of_char hc) (not_opens_of_char hc) (ih (hpart (w := [.char c]) hσ).2)
  | @tag name ps _ ih =>
      exact .complete (paired_inclusion (hkey name) (hkey' name)) (ih (hpart (w := [.tag name]) hσ).2)
  | delimited hx _ ih =>
      rw [write_append, write_append, write_map_char, write_map_char]
      have hfiles := (hpart hσ).1
      rw [bare, write_map_char] at hfiles
      exact .complete (paired_of_delimited hx hfiles) (ih (hpart hσ).2)
  | comment hw _ ih =>
      have hfills : ∀ {key : String → String},
          (∀ name, '"' ∉ (key name).toList ∧ '\x7d' ∉ (key name).toList) →
          Fills fun name => inclusionOf (key name) :=
        fun hkey => fills_of_isInclusion fun name => isInclusion_inclusionOf (hkey name)
      rw [write_append, write_append]
      refine .complete (paired_of_comments (hw _ (hfills hkey)) (hw _ (hfills hkey')) ?_ ?_)
        (ih (hpart hσ).2)
      · exact prefix_write_iff (by decide) (fun name => ⟨_, _, _, rfl, rfl⟩) _
      · exact suffix_write_iff (by decide)
          (fun name => ⟨_, _, _, reverse_inclusionOf _, reverse_inclusionOf _⟩) _

end OutOfSight

end Pieces

end Stencil.Language
