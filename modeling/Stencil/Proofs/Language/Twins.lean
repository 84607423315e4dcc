/-
Texts that are read alike.

Two texts are twins if they are the same but for complete parts, which every rule either refuses in
both texts or reads to trees that say the same under other names.  Whatever else the grammar reads
of a template is made of such parts, one after another: so it reads twins in step, the same rule at
the same place, and comes to trees that say the same again.
-/
import Mathlib
import Stencil.Proofs.Language.Retelling
import Stencil.Proofs.Language.Sheet

namespace Stencil.Language

open Stencil.Grammar (Reads Found Query Tightness skipped shown letter?)

variable {σ : String → String} {cs ds : List Char} {ts us : List (Tree Rule)} {r : Rule}
  {out : Found Rule}

/-- Whether every rule for a complete part makes the same of two texts, up to other names. -/
structure Paired (σ : String → String) (x y : List Char) : Prop where
  opens : ∀ z, Opens (x ++ z)
  opens' : ∀ z, Opens (y ++ z)
  reads : ∀ r, isLeaf r → (Refuses .tight (.rule r) x ∧ Refuses .tight (.rule r) y) ∨
    ∃ ts us, (∀ z, Reads grammar .tight (.once (.rule r)) (x ++ z) (some (z, ts))) ∧
      (∀ z, Reads grammar .tight (.once (.rule r)) (y ++ z) (some (z, us))) ∧ Retold σ ts us

/-- Whether two texts differ only in complete parts that say the same under other names. -/
inductive Twin (σ : String → String) : List Char → List Char → Prop
  | nil : Twin σ [] []
  | char {c : Char} {cs ds : List Char} (hcs : ¬ Opens (c :: cs)) (hds : ¬ Opens (c :: ds))
      (h : Twin σ cs ds) : Twin σ (c :: cs) (c :: ds)
  | complete {x y cs ds : List Char} (hxy : Paired σ x y) (h : Twin σ cs ds) :
      Twin σ (x ++ cs) (y ++ ds)

/-- Whether the same is found in two texts, up to other names, and twins are left. -/
inductive Agree (σ : String → String) : Found Rule → Found Rule → Prop
  | none : Agree σ none none
  | some {cs ds : List Char} {ts us : List (Tree Rule)} (h : Twin σ cs ds) (hts : Retold σ ts us) :
      Agree σ (some (cs, ts)) (some (ds, us))

theorem not_opens_nil : ¬ Opens [] := nofun

/-! ## Complete parts and texts -/

/-- What a rule finds in twins. -/
def FindsAlike (σ : String → String) (r : Rule) (cs ds : List Char) : Prop :=
  ∃ out out', Reads grammar .tight (.once (.rule r)) cs out ∧
    Reads grammar .tight (.once (.rule r)) ds out' ∧ Agree σ out out'

theorem findsAlike_leaf (hr : isLeaf r) (h : Twin σ cs ds) : FindsAlike σ r cs ds := by
  have hnone : ∀ {cs ds}, ¬ Opens cs → ¬ Opens ds → FindsAlike σ r cs ds :=
    fun hcs hds => ⟨none, none, reads_leaf_none hr hcs, reads_leaf_none hr hds, .none⟩
  cases h with
  | nil => exact hnone not_opens_nil not_opens_nil
  | char hcs hds _ => exact hnone hcs hds
  | complete hxy h =>
      rcases hxy.reads r hr with ⟨hx, hy⟩ | ⟨ts, us, hx, hy, hts⟩
      · exact ⟨none, none, hx _, hy _, .none⟩
      · exact ⟨_, _, hx _, hy _, .some h hts⟩

/-- Twins have the same text up to their first complete part. -/
theorem exists_reads_again_textChar (h : Twin σ cs ds) :
    ∃ w cs' ds', cs = w ++ cs' ∧ ds = w ++ ds' ∧ Twin σ cs' ds' ∧
      Reads grammar .tight (.again textChar) cs (some (cs', [])) ∧
      Reads grammar .tight (.again textChar) ds (some (ds', [])) := by
  induction h with
  | nil =>
      exact ⟨[], [], [], rfl, rfl, .nil, reads_again_text_none (.inl rfl),
        reads_again_text_none (.inl rfl)⟩
  | @char c cs ds hcs hds _ ih =>
      obtain ⟨w, cs', ds', rfl, rfl, htwin, hreads, hreads'⟩ := ih
      exact ⟨c :: w, cs', ds', rfl, rfl, htwin, .again (reads_textChar (by decide) hcs) hreads,
        .again (reads_textChar (by decide) hds) hreads'⟩
  | complete hxy h =>
      exact ⟨[], _, _, rfl, rfl, .complete hxy h, reads_again_text_none (.inr (hxy.opens _)),
        reads_again_text_none (.inr (hxy.opens' _))⟩

theorem readNode_text (x : List Char) (n : Nat) :
    readNode n (.node .text x []) = renameNodes σ <$> readNode n (.node .text x []) := by
  cases n with
  | zero => rw [readNode]; rfl
  | succ n => rw [readNode]; rfl

theorem findsAlike_text (h : Twin σ cs ds) : FindsAlike σ .text cs ds := by
  cases h with
  | nil => exact ⟨none, none, reads_text_none (.inl rfl), reads_text_none (.inl rfl), .none⟩
  | complete hxy h =>
      exact ⟨none, none, reads_text_none (.inr (hxy.opens _)), reads_text_none (.inr (hxy.opens' _)),
        .none⟩
  | @char c cs ds hcs hds h =>
      obtain ⟨w, cs', ds', rfl, rfl, htwin, hreads, hreads'⟩ := exists_reads_again_textChar h
      have htext : ∀ {cs'}, ¬ Opens (c :: (w ++ cs')) →
          Reads grammar .tight (.again textChar) (w ++ cs') (some (cs', [])) →
          Reads grammar .tight (.once (.rule .text)) (c :: (w ++ cs'))
            (some (cs', [.node .text (c :: w) []])) := by
        intro cs' hnot hreads
        have htaken : (c :: (w ++ cs')).take ((c :: (w ++ cs')).length - cs'.length) = c :: w := by
          rw [← List.cons_append, List.length_append, Nat.add_sub_cancel, List.take_left']
          rfl
        have hread : Reads grammar .tight (.once (.rule .text)) (c :: (w ++ cs')) (some (cs', _)) :=
          .rule (.seq (reads_textChar (by decide) hnot)
            ((Grammar.reads_many_iff_again (by decide)).mpr hreads))
        rwa [htaken] at hread
      exact ⟨_, _, htext hcs hreads, htext hds hreads',
        .some htwin (.leaf rfl (.inl rfl) (readNode_text _) .nil)⟩

/-! ## Everything else -/

/-- Whether an expression is made of complete parts and texts, and of what is made of them. -/
def isOuter (t : Tightness) : Expression → Bool
  | .rule r => isLeaf r || r == .text || (sectionOf? r).isSome || (r ∈ contents && t == .tight)
  | .seq a b | .alt a b => isOuter t a && isOuter t b
  | .many a | .optional a => isOuter t a
  | _ => false

theorem skipped_of_ne_free {t : Tightness} (ht : t ≠ .free) (cs : List Char) :
    skipped t cs = cs := by
  cases t with
  | free => exact absurd rfl ht
  | tight | hidden => rfl

theorem isFirm_of_isLeaf (hr : isLeaf r) : isFirm r := by
  revert hr
  cases r <;> decide

/-- A section is made of complete parts and bodies, and is seen wherever it is read. -/
theorem isOuter_of_section (hr : (sectionOf? r).isSome) :
    mode r = .compound ∧ r ∈ sections ∧ isOuter .tight (body r) := by
  cases r with
  | block | contentIf | blockIf | macroIf | forIf | filterSectionIf | forloop | filterSection
  | macroDefinition => exact ⟨rfl, by decide, by decide⟩
  | _ => cases hr

theorem isOuter_of_contents (hr : r ∈ contents) : mode r = .atomic ∧ isOuter .hidden (body r) := by
  fin_cases hr <;> exact ⟨rfl, by decide⟩

theorem shown_eq {t : Tightness} (hr : mode r = .compound ∨ mode r = .atomic ∧ t = .tight)
    (x : List Char) (ts : List (Tree Rule)) :
    shown grammar t r x ts = [.node r x ts.reverse] := by
  refine if_neg ?_
  show ¬ (mode r = .silent ∨ t.seen (mode r) = .hidden)
  rcases hr with hr | ⟨hr, rfl⟩
  · rw [hr]
    simp [Tightness.seen]
  · rw [hr]
    simp [Tightness.seen]

/-- A reading of a complete part or a text is the one that is known of twins. -/
theorem agree_of_findsAlike {t : Tightness} (hfirm : isFirm r) (hfinds : FindsAlike σ r cs ds)
    (h : Reads grammar t (.once (.rule r)) cs out) :
    ∃ out', Reads grammar t (.once (.rule r)) ds out' ∧ Agree σ out out' := by
  obtain ⟨found, out', hfound, hout', hagree⟩ := hfinds
  cases h.det (reads_firm hfirm hfound)
  exact ⟨out', reads_firm hfirm hout', hagree⟩

/-- A rule is read in step if its body is. -/
theorem agree_rule {t : Tightness} (out : Found Rule) (hr : isOuter t (.rule r))
    (htwin : Twin σ cs ds)
    (ih : t.inside (mode r) ≠ .free → isOuter (t.inside (mode r)) (body r) →
      ∃ out', Reads grammar (t.inside (mode r)) (.once (body r)) ds out' ∧ Agree σ out out')
    (h : Reads grammar t (.once (.rule r)) cs
      (out.map fun x => (x.1, shown grammar t r (cs.take (cs.length - x.1.length)) x.2))) :
    ∃ out', Reads grammar t (.once (.rule r)) ds out' ∧
      Agree σ (out.map fun x => (x.1, shown grammar t r (cs.take (cs.length - x.1.length)) x.2))
        out' := by
  have hnode : (mode r = .compound ∨ mode r = .atomic ∧ t = .tight) →
      (r ∈ contents ∨ r ∈ sections) → isOuter (t.inside (mode r)) (body r) →
      ∃ out', Reads grammar t (.once (.rule r)) ds out' ∧ Agree σ (out.map fun x =>
        (x.1, shown grammar t r (cs.take (cs.length - x.1.length)) x.2)) out' := by
    intro hmode hr hbody
    have hinside : t.inside (mode r) ≠ .free := by
      rcases hmode with hmode | ⟨hmode, -⟩ <;> rw [hmode] <;> exact nofun
    obtain ⟨out', hread, hagree⟩ := ih hinside hbody
    cases hagree with
    | none => exact ⟨none, .rule_none hread, .none⟩
    | some hrest hts =>
        refine ⟨_, .rule hread, ?_⟩
        rw [Option.map_some, shown_eq hmode, shown_eq hmode]
        exact .some hrest (.node hr _ _ hts.reverse .nil)
  simp only [isOuter, Bool.or_eq_true, Bool.and_eq_true, beq_iff_eq, decide_eq_true_eq] at hr
  rcases hr with ((hleaf | rfl) | hsection) | ⟨hpart, rfl⟩
  · exact agree_of_findsAlike (isFirm_of_isLeaf hleaf) (findsAlike_leaf hleaf htwin) h
  · exact agree_of_findsAlike rfl (findsAlike_text htwin) h
  · obtain ⟨hmode, hmem, hbody⟩ := isOuter_of_section hsection
    exact hnode (.inl hmode) (.inr hmem) (by rw [hmode]; exact hbody)
  · obtain ⟨hmode, hbody⟩ := isOuter_of_contents hpart
    exact hnode (.inr ⟨hmode, rfl⟩) (.inl hpart) (by rw [hmode]; exact hbody)

/-- The grammar reads twins in step. -/
theorem exists_reads_of_twin {t : Tightness} {query : Query Rule}
    (h : Reads grammar t query cs out) (ht : t ≠ .free) (hquery : isOuter t (partOf query))
    (htwin : Twin σ cs ds) : ∃ out', Reads grammar t query ds out' ∧ Agree σ out out' := by
  induction h generalizing ds with
  | literal | literal_none | endOfText | endOfText_none | absent | absent_none => cases hquery
  | @letter _ e _ _ _ he | @letter_none _ e _ _ he =>
      rw [partOf] at hquery
      cases e <;> first | (cases he; done) | cases hquery
  | seq _ _ iha ihb =>
      rw [partOf, isOuter, Bool.and_eq_true] at hquery
      obtain ⟨_, ha, hagree⟩ := iha ht hquery.1 htwin
      cases hagree with
      | some h hts =>
          obtain ⟨_, hb, hagree⟩ := ihb ht hquery.2 (by rwa [skipped_of_ne_free ht])
          cases hagree with
          | some h' hus =>
              exact ⟨_, .seq ha (by rwa [skipped_of_ne_free ht]), .some h' (hus.append hts)⟩
  | seq_first _ iha =>
      rw [partOf, isOuter, Bool.and_eq_true] at hquery
      obtain ⟨_, ha, hagree⟩ := iha ht hquery.1 htwin
      cases hagree
      exact ⟨none, .seq_first ha, .none⟩
  | seq_second _ _ iha ihb =>
      rw [partOf, isOuter, Bool.and_eq_true] at hquery
      obtain ⟨_, ha, hagree⟩ := iha ht hquery.1 htwin
      cases hagree with
      | some h hts =>
          obtain ⟨_, hb, hagree⟩ := ihb ht hquery.2 (by rwa [skipped_of_ne_free ht])
          cases hagree
          exact ⟨none, .seq_second ha (by rwa [skipped_of_ne_free ht]), .none⟩
  | alt_first _ iha =>
      rw [partOf, isOuter, Bool.and_eq_true] at hquery
      obtain ⟨_, ha, hagree⟩ := iha ht hquery.1 htwin
      cases hagree with
      | some h hts => exact ⟨_, .alt_first ha, .some h hts⟩
  | alt_second _ _ iha ihb =>
      rw [partOf, isOuter, Bool.and_eq_true] at hquery
      obtain ⟨_, ha, hagree⟩ := iha ht hquery.1 htwin
      cases hagree
      obtain ⟨out', hb, hagree⟩ := ihb ht hquery.2 htwin
      exact ⟨out', .alt_second ha hb, hagree⟩
  | many_none _ iha =>
      obtain ⟨_, ha, hagree⟩ := iha ht hquery htwin
      cases hagree
      exact ⟨_, .many_none ha, .some htwin .nil⟩
  | many _ _ iha ihs =>
      obtain ⟨_, ha, hagree⟩ := iha ht hquery htwin
      cases hagree with
      | some h hts =>
          obtain ⟨_, hs, hagree⟩ := ihs ht hquery h
          cases hagree with
          | some h' hus => exact ⟨_, .many ha hs, .some h' (hus.append hts)⟩
  | again_none _ iha =>
      obtain ⟨_, ha, hagree⟩ := iha ht hquery (by rwa [skipped_of_ne_free ht])
      cases hagree
      exact ⟨_, .again_none (by rwa [skipped_of_ne_free ht]), .some htwin .nil⟩
  | again _ _ iha ihs =>
      obtain ⟨_, ha, hagree⟩ := iha ht hquery (by rwa [skipped_of_ne_free ht])
      cases hagree with
      | some h hts =>
          obtain ⟨_, hs, hagree⟩ := ihs ht hquery h
          cases hagree with
          | some h' hus =>
              exact ⟨_, .again (by rwa [skipped_of_ne_free ht]) hs, .some h' (hus.append hts)⟩
  | optional_none _ iha =>
      obtain ⟨_, ha, hagree⟩ := iha ht hquery htwin
      cases hagree
      exact ⟨_, .optional_none ha, .some htwin .nil⟩
  | optional _ iha =>
      obtain ⟨_, ha, hagree⟩ := iha ht hquery htwin
      cases hagree with
      | some h hts => exact ⟨_, .optional ha, .some h hts⟩
  | rule hr ih =>
      exact agree_rule (some _) hquery htwin (fun hinside hbody => ih hinside hbody htwin)
        (.rule hr)
  | rule_none hr ih =>
      exact agree_rule none hquery htwin (fun hinside hbody => ih hinside hbody htwin)
        (.rule_none hr)

/-! ## Templates -/

theorem retold_endOfInput
    (h : Reads grammar .tight (.once (.rule .endOfInput)) [] (some ([], ts))) : Retold σ ts ts := by
  obtain ⟨us, hbody, rfl⟩ := Grammar.reads_rule_some.mp h
  have hread : ∀ n, readNode n (.node .endOfInput [] us.reverse) =
      renameNodes σ <$> readNode n (.node .endOfInput [] us.reverse) := by
    intro n
    cases n with
    | zero => rw [readNode]; rfl
    | succ n => rw [readNode]; rfl
  exact .leaf rfl (.inl rfl) hread .nil

/-- Templates that are twins say the same under other names. -/
theorem retold_of_twin (htwin : Twin σ cs ds)
    (h : Reads grammar .tight (.once wholeTemplate) cs (some ([], ts)))
    (htop : ∀ t ∈ ts, t.rule ≠ .extendsTag ∧ t.rule ≠ .importMacroTag)
    (h' : Reads grammar .tight (.once wholeTemplate) ds (some ([], us)))
    (htop' : ∀ u ∈ us, u.rule ≠ .extendsTag ∧ u.rule ≠ .importMacroTag) : Retold σ ts us := by
  obtain ⟨mid, ts₁, ts₂, ts₃, hcomments, -, hparts, hend, rfl⟩ := reads_wholeTemplate_alone h htop
  obtain ⟨mid', us₁, us₂, us₃, hcomments', -, hparts', hend', rfl⟩ :=
    reads_wholeTemplate_alone h' htop'
  obtain ⟨_, hread, hagree⟩ := exists_reads_of_twin hcomments (by decide) (by decide) htwin
  cases hread.det hcomments'
  cases hagree with
  | some hmid hts₁ =>
      obtain ⟨_, hread, hagree⟩ := exists_reads_of_twin hparts (by decide) (by decide) hmid
      cases hread.det hparts'
      cases hagree with
      | some _ hts₂ =>
          cases hend.det hend'
          exact ((retold_endOfInput hend).append hts₂).append hts₁

namespace Sheet

/-- A sheet that stands alone is made of a template that mentions no other one at its top. -/
theorem exists_reads_of_ofText {text : String} {s : Sheet} (hs : ofText text = .ok s)
    (halone : s.IsAlone) :
    ∃ ts nodes, Reads grammar .tight (.once wholeTemplate) text.toList (some ([], ts)) ∧
      readTemplate (templateTree text.toList ts) = .ok nodes ∧
      ofNodes (trimTemplate nodes) = .ok s ∧
      ∀ t ∈ ts, t.rule ≠ .extendsTag ∧ t.rule ≠ .importMacroTag := by
  obtain ⟨tree, nodes, htree, hnodes, hs⟩ := ofText_eq_ok.mp hs
  obtain ⟨ts, hreads, rfl⟩ := parse_eq_ok_iff.mp htree
  have houtline := (isAlone_iff hs).mp halone
  rw [outline_trimTemplate] at houtline
  exact ⟨ts, nodes, hreads, hnodes, hs, fun t => ne_of_readTemplate hnodes houtline⟩

/-- The sheets of twins that stand alone are the same under other names. -/
theorem eq_rename_of_twin {text text' : String} {s s' : Sheet}
    (htwin : Twin σ text.toList text'.toList) (hs : ofText text = .ok s) (halone : s.IsAlone)
    (hs' : ofText text' = .ok s') (halone' : s'.IsAlone) : s' = s.rename σ := by
  obtain ⟨ts, nodes, hread, hnodes, hofNodes, htop⟩ := exists_reads_of_ofText hs halone
  obtain ⟨us, nodes', hread', hnodes', hofNodes', htop'⟩ := exists_reads_of_ofText hs' halone'
  obtain rfl := readTemplate_of_retold (retold_of_twin htwin hread htop hread' htop') hnodes hnodes'
  rw [← renameNodes_trimTemplate, ofNodes_rename, hofNodes] at hofNodes'
  cases hofNodes'
  rfl

end Sheet

end Stencil.Language
