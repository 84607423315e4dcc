/-
Partial tags in normal form.

Writing every tag of a text in its normal form changes the white space inside the tags only, and a
text in normal form falls into the same pieces as the text it was made of.  The obvious worry is a
place where no tag starts because something is missing behind it: a tag further on, written anew,
could supply it.  It cannot, for a name that runs into a tag ends at the space that the tag has in
normal form, and the name behind that space is no end of a tag.
-/
import Mathlib
import Stencil.Piece
import Stencil.Proofs.Text.Search

namespace Stencil.Piece

variable {text cs w name rest : List Char} {c : Char}

/-! ## Tags -/

theorem not_isBlank_of_isNameChar (h : isNameChar c) : Text.isBlank c = false := by
  simp only [isNameChar, Bool.and_eq_true, Bool.not_eq_true'] at h
  exact h.1.1

theorem ne_brace_of_isNameChar (h : isNameChar c) : c ≠ '}' := by
  rintro rfl
  revert h
  decide

/-- A tag is what stands between its ends: a name, and white space around it. -/
theorem tag?_eq_some_iff :
    tag? text = some (name, rest) ↔ ∃ w, text = opening ++ w ∧
      (w.dropWhile Text.isBlank).takeWhile isNameChar = name ∧ name ≠ [] ∧
      ((w.dropWhile Text.isBlank).dropWhile isNameChar).dropWhile Text.isBlank =
        closing ++ rest := by
  constructor
  · intro h
    rw [tag?] at h
    obtain ⟨w, hw, h⟩ := Option.bind_eq_some_iff.mp h
    obtain ⟨rest', hrest, h⟩ := Option.bind_eq_some_iff.mp h
    rw [Text.strip?_eq_some_iff] at hw hrest
    split at h
    · cases h
    next hname =>
      cases h
      exact ⟨w, hw, rfl, mt List.isEmpty_iff.mpr hname, hrest⟩
  · rintro ⟨w, rfl, rfl, hname, hrest⟩
    rw [tag?, Text.strip?_append]
    dsimp only [Option.bind_eq_bind, Option.bind_some]
    rw [hrest, Text.strip?_append, Option.bind_some, if_neg (mt List.isEmpty_iff.mp hname)]

theorem isSuffix_of_tag? (h : tag? (c :: cs) = some (name, rest)) : rest <:+ cs := by
  obtain ⟨w, hw, -, -, hrest⟩ := tag?_eq_some_iff.mp h
  have hcs : cs = ['{', '>'] ++ w := (List.cons.inj hw).2
  have hclosing : closing ++ rest <:+ w := by
    rw [← hrest]
    exact ((List.dropWhile_suffix _).trans (List.dropWhile_suffix _)).trans
      (List.dropWhile_suffix _)
  rw [hcs]
  exact (List.suffix_append _ _).trans (hclosing.trans (List.suffix_append _ _))

theorem eq_brace_of_tag? (h : tag? (c :: cs) = some (name, rest)) : c = '{' := by
  obtain ⟨w, hw, -⟩ := tag?_eq_some_iff.mp h
  exact (List.cons.inj hw).1

/-- A name is not empty and does not start with white space. -/
theorem exists_cons_of_tag? (h : tag? text = some (name, rest)) :
    ∃ n ns, name = n :: ns ∧ isNameChar n ∧ ∀ x ∈ ns, isNameChar x := by
  obtain ⟨w, -, rfl, hne, -⟩ := tag?_eq_some_iff.mp h
  obtain ⟨n, ns, hcons⟩ := List.exists_cons_of_ne_nil hne
  have hall : ∀ x ∈ n :: ns, isNameChar x := by
    intro x hx
    rw [← hcons] at hx
    exact List.mem_takeWhile_imp hx
  exact ⟨n, ns, hcons, hall n List.mem_cons_self, fun x hx => hall x (List.mem_cons_of_mem _ hx)⟩

/-- A tag in normal form is a tag of the same name, whatever follows. -/
theorem tag?_normalTag (h : tag? text = some (name, rest)) (u : List Char) :
    tag? (normalTag (String.ofList name) ++ u) = some (name, u) := by
  obtain ⟨n, ns, rfl, hn, hns⟩ := exists_cons_of_tag? h
  have hall : ∀ x ∈ n :: ns, isNameChar x := List.forall_mem_cons.mpr ⟨hn, hns⟩
  have hend : isNameChar '}' = false := by decide
  have hblank : Text.isBlank ' ' = true := by decide
  have hend' : Text.isBlank '}' = false := by decide
  refine tag?_eq_some_iff.mpr ⟨' ' :: (n :: ns) ++ (closing ++ u), ?_, ?_, List.cons_ne_nil _ _, ?_⟩
  · simp [normalTag, String.toList_ofList]
  · rw [List.cons_append, List.dropWhile_cons_of_pos hblank, List.cons_append,
      List.dropWhile_cons_of_neg (by simp [not_isBlank_of_isNameChar hn]), ← List.cons_append,
      List.takeWhile_append_of_pos hall]
    simp [closing, hend]
  · rw [List.cons_append, List.dropWhile_cons_of_pos hblank, List.cons_append,
      List.dropWhile_cons_of_neg (by simp [not_isBlank_of_isNameChar hn]), ← List.cons_append,
      List.dropWhile_append_of_pos hall]
    simp [closing, hend, hend']

/-! ## Pieces -/

/-- What is skipped leaves no piece. -/
theorem scan_eq_drop (skip : Nat) (cs : List Char) : scan skip cs = scan 0 (cs.drop skip) := by
  induction cs generalizing skip with
  | nil => rw [List.drop_nil, scan, scan]
  | cons c cs ih =>
      cases skip with
      | zero => rfl
      | succ skip => rw [scan, ih, List.drop_succ_cons]

theorem scan_of_tag? (h : tag? text = some (name, rest)) :
    scan 0 text = tag (String.ofList name) :: scan 0 rest := by
  cases text with
  | nil =>
      obtain ⟨w, hw, -⟩ := tag?_eq_some_iff.mp h
      cases hw
  | cons c cs =>
      rw [scan, h]
      dsimp only
      rw [scan_eq_drop, ← List.suffix_iff_eq_drop.mp (isSuffix_of_tag? h)]

theorem scan_of_not_tag? (h : tag? (c :: cs) = none) : scan 0 (c :: cs) = char c :: scan 0 cs := by
  rw [scan, h]

/-- A text with its tags in normal form. -/
def normal (cs : List Char) : List Char := write normalTag (scan 0 cs)

theorem normal_nil : normal [] = [] := by
  rw [normal, scan]
  rfl

theorem normal_of_tag? (h : tag? text = some (name, rest)) :
    normal text = normalTag (String.ofList name) ++ normal rest := by
  rw [normal, scan_of_tag? h]
  rfl

theorem normal_of_not_tag? (h : tag? (c :: cs) = none) : normal (c :: cs) = c :: normal cs := by
  rw [normal, scan_of_not_tag? h]
  rfl

/-- A character in the normal form that is no brace stands in the text as well. -/
theorem exists_of_normal_eq_cons {u : List Char} (h : normal cs = c :: u) (hc : c ≠ '{') :
    ∃ ds, cs = c :: ds ∧ u = normal ds := by
  cases cs with
  | nil =>
      rw [normal_nil] at h
      cases h
  | cons d ds =>
      cases htag : tag? (d :: ds) with
      | none =>
          rw [normal_of_not_tag? htag] at h
          cases h
          exact ⟨ds, rfl, rfl⟩
      | some found =>
          rw [normal_of_tag? htag] at h
          exact absurd (List.cons.inj h).1.symm hc

theorem exists_of_normal_eq_closing {u : List Char} (h : normal cs = closing ++ u) :
    ∃ ds, cs = closing ++ ds := by
  obtain ⟨ds, rfl, hds⟩ := exists_of_normal_eq_cons h (by decide)
  obtain ⟨es, rfl, -⟩ := exists_of_normal_eq_cons hds.symm (by decide)
  exact ⟨es, rfl⟩

/-- White space outside the tags stays. -/
theorem dropWhile_isBlank_normal (cs : List Char) :
    (normal cs).dropWhile Text.isBlank = normal (cs.dropWhile Text.isBlank) := by
  induction cs with
  | nil => rw [normal_nil, List.dropWhile_nil, normal_nil]
  | cons c cs ih =>
      cases htag : tag? (c :: cs) with
      | none =>
          rw [normal_of_not_tag? htag]
          cases hc : Text.isBlank c with
          | true => rw [List.dropWhile_cons_of_pos hc, List.dropWhile_cons_of_pos hc, ih]
          | false =>
              rw [List.dropWhile_cons_of_neg (by simp [hc]),
                List.dropWhile_cons_of_neg (by simp [hc]), normal_of_not_tag? htag]
      | some found =>
          cases eq_brace_of_tag? htag
          have hbrace : ¬ Text.isBlank '{' = true := by decide
          rw [List.dropWhile_cons_of_neg hbrace, normal_of_tag? htag]
          exact List.dropWhile_cons_of_neg hbrace

/-- A name whose end is an end of a tag in the normal form has that end in the text. -/
theorem exists_of_closing_normal {u : List Char}
    (h : ((normal cs).dropWhile isNameChar).dropWhile Text.isBlank = closing ++ u) :
    ∃ ds, (cs.dropWhile isNameChar).dropWhile Text.isBlank = closing ++ ds := by
  induction cs with
  | nil =>
      rw [normal_nil] at h
      cases h
  | cons c cs ih =>
      cases htag : tag? (c :: cs) with
      | none =>
          rw [normal_of_not_tag? htag] at h
          cases hc : isNameChar c with
          | true =>
              rw [List.dropWhile_cons_of_pos hc] at h ⊢
              exact ih h
          | false =>
              rw [List.dropWhile_cons_of_neg (by simp [hc])] at h ⊢
              rw [← normal_of_not_tag? htag, dropWhile_isBlank_normal] at h
              exact exists_of_normal_eq_closing h
      | some found =>
          -- The name runs into a tag and ends at the space in front of the name of the tag.
          obtain ⟨n, ns, hname, hn, -⟩ := exists_cons_of_tag? htag
          have hspace : ((normal (c :: cs)).dropWhile isNameChar).dropWhile Text.isBlank =
              n :: (ns ++ closing ++ normal found.2) := by
            rw [normal_of_tag? htag, normalTag, String.toList_ofList, hname]
            have h₁ : isNameChar '{' = true := by decide
            have h₂ : isNameChar '>' = true := by decide
            have h₃ : isNameChar ' ' = false := by decide
            have h₄ : Text.isBlank ' ' = true := by decide
            simp [opening, h₁, h₂, h₃, h₄, not_isBlank_of_isNameChar hn]
          rw [hspace] at h
          exact absurd (List.cons.inj h).1 (ne_brace_of_isNameChar hn)

/-- Where no tag starts in a text, none starts in the normal form. -/
theorem tag?_normal_of_not_tag? (h : tag? (c :: cs) = none) : tag? (c :: normal cs) = none := by
  by_contra hne
  obtain ⟨⟨name, u⟩, htag⟩ := Option.ne_none_iff_exists'.mp hne
  obtain ⟨w, hw, hname, hnil, hend⟩ := tag?_eq_some_iff.mp htag
  obtain ⟨rfl, hnormal⟩ := List.cons.inj hw
  -- The three characters at the start are the same in both texts.
  have hopening : ∃ v, cs = '{' :: '>' :: v ∧ w = normal v := by
    cases cs with
    | nil =>
        rw [normal_nil] at hnormal
        cases hnormal
    | cons d ds =>
        cases hd : tag? (d :: ds) with
        | some found =>
            rw [normal_of_tag? hd] at hnormal
            cases hnormal
        | none =>
            rw [normal_of_not_tag? hd] at hnormal
            obtain ⟨hbrace, hds⟩ := List.cons.inj hnormal
            subst hbrace
            obtain ⟨v, rfl, hv⟩ := exists_of_normal_eq_cons hds (by decide)
            exact ⟨v, rfl, hv⟩
  obtain ⟨v, rfl, rfl⟩ := hopening
  rw [dropWhile_isBlank_normal] at hname hend
  obtain ⟨ds, hds⟩ := exists_of_closing_normal hend
  have hsome : tag? ('{' :: '{' :: '>' :: v) =
      some ((v.dropWhile Text.isBlank).takeWhile isNameChar, ds) := by
    refine tag?_eq_some_iff.mpr ⟨v, rfl, rfl, ?_, hds⟩
    subst hname
    cases hv : v.dropWhile Text.isBlank with
    | nil => rw [hv, normal_nil] at hnil; exact hnil
    | cons d ds =>
        rw [hv] at hnil
        cases hd : tag? (d :: ds) with
        | none =>
            rw [normal_of_not_tag? hd] at hnil
            intro hnone
            rw [List.takeWhile_cons] at hnone hnil
            split at hnone
            · cases hnone
            next hfalse => rw [if_neg hfalse] at hnil; exact hnil rfl
        | some found =>
            cases eq_brace_of_tag? hd
            have hbrace : isNameChar '{' = true := by decide
            rw [List.takeWhile_cons_of_pos hbrace]
            exact List.cons_ne_nil _ _
  rw [h] at hsome
  cases hsome

/-- The normal form of a text falls into the same pieces as the text. -/
theorem scan_normal (cs : List Char) : scan 0 (normal cs) = scan 0 cs := by
  induction hn : cs.length using Nat.strong_induction_on generalizing cs with
  | _ n ih =>
      cases cs with
      | nil => rw [normal_nil]
      | cons c cs =>
          cases htag : tag? (c :: cs) with
          | none =>
              rw [normal_of_not_tag? htag, scan_of_not_tag? (tag?_normal_of_not_tag? htag),
                scan_of_not_tag? htag, ih cs.length (by simp [← hn]) cs rfl]
          | some found =>
              obtain ⟨name, rest⟩ := found
              have hshort : rest.length < n := by
                have := (isSuffix_of_tag? htag).length_le
                simp only [List.length_cons] at hn
                omega
              rw [normal_of_tag? htag, scan_of_tag? (tag?_normalTag htag _), scan_of_tag? htag,
                ih rest.length hshort rest rfl]

/-- Writing the tags of a text anew does not change its pieces. -/
theorem ofText_normalText (text : String) : ofText (normalText (ofText text)) = ofText text := by
  rw [ofText, normalText, String.toList_ofList]
  exact scan_normal text.toList

end Stencil.Piece
