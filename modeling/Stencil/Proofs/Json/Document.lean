/-
Documents of JSON texts.

A text that is read as a document is read so wherever it stands, as long as nothing behind it goes
on with its last number.  White space may stand in front of every part.  The rules below put the
parts of arrays and objects together, and the compact form of a value is read by them.
-/
import Mathlib
import Stencil.Json.Document
import Stencil.Proofs.Json.NumberText
import Stencil.Proofs.Json.StringText

namespace Stencil.Json.Document

/-- The text is read as the document, with three steps for each of its characters. -/
def Reads (text : List Char) (doc : Document) : Prop :=
  ∀ fuel rest, 3 * text.length ≤ fuel → Ends rest → scan fuel (text ++ rest) = (doc, .ok rest)

/-- The text is read as the items of an array, up to its end. -/
def ReadsItems (first : Bool) (text : List Char) (items : List Document) : Prop :=
  ∀ fuel rest, 3 * text.length + 2 ≤ fuel →
    scanItems fuel first (text ++ rest) = (items, .ok rest)

/-- The text is read as the members of an object, up to its end. -/
def ReadsMembers (first : Bool) (text : List Char)
    (members : List (Except Fault String × Document)) : Prop :=
  ∀ fuel rest, 3 * text.length + 2 ≤ fuel →
    scanMembers fuel first (text ++ rest) = (members, .ok rest)

/-- White space. -/
def Blank (space : List Char) : Prop := ∀ c ∈ space, isSpace c

variable {space space' space'' text value more rest : List Char} {doc : Document}
  {items : List Document} {members : List (Except Fault String × Document)} {first : Bool}
  {key : String} {fuel : Nat} {c : Char}

/-! ## White space -/

theorem skipSpace_of_blank (h : Blank space) (cs : List Char) :
    skipSpace (space ++ cs) = skipSpace cs := List.dropWhile_append_of_pos h

theorem skipSpace_cons (h : isSpace c = false) (cs : List Char) :
    skipSpace (c :: cs) = c :: cs := by
  rw [skipSpace, List.dropWhile_cons_of_neg (by simp [h])]

theorem scan_of_blank (h : Blank space) (cs : List Char) :
    scan fuel (space ++ cs) = scan fuel cs := scan_congr (skipSpace_of_blank h cs) fuel

/-- White space in front of a value. -/
theorem Reads.blank (h : Reads text doc) (hspace : Blank space) : Reads (space ++ text) doc := by
  intro fuel rest hfuel hrest
  rw [List.append_assoc, scan_of_blank hspace]
  exact h fuel rest (by rw [List.length_append] at hfuel; omega) hrest

/-! ## Simple values -/

theorem Reads.ne_nil (h : Reads text doc) : text ≠ [] := by
  rintro rfl
  have hscan := h 0 [] (by decide) (by rintro c ⟨⟩)
  rw [scan] at hscan
  cases hscan

/-- Reading takes at least one step. -/
theorem reads_of_succ (hne : text ≠ []) (h : ∀ fuel rest, 3 * text.length ≤ fuel + 1 → Ends rest →
    scan (fuel + 1) (text ++ rest) = (doc, .ok rest)) : Reads text doc := by
  intro fuel rest hfuel hrest
  have hpos := List.length_pos_iff.mpr hne
  obtain ⟨fuel, rfl⟩ := Nat.exists_eq_add_of_le' (show 1 ≤ fuel by omega)
  exact h fuel rest hfuel hrest

theorem scanWord_append (value : Document) (word rest : List Char) :
    scanWord value word (word ++ rest) = (value, .ok rest) := by
  induction word with
  | nil => rfl
  | cons c word ih => rw [List.cons_append, scanWord, if_pos rfl, ih]

theorem reads_null : Reads "null".toList .null :=
  reads_of_succ (by decide) fun _ rest _ _ => scanWord_append .null ['u', 'l', 'l'] rest

theorem reads_bool (b : Bool) : Reads (boolText b) (.bool b) := by
  cases b with
  | true =>
      exact reads_of_succ (by decide) fun _ rest _ _ =>
        scanWord_append (.bool true) ['r', 'u', 'e'] rest
  | false =>
      exact reads_of_succ (by decide) fun _ rest _ _ =>
        scanWord_append (.bool false) ['a', 'l', 's', 'e'] rest

theorem reads_string (s : String) : Reads (stringText s.toList) (.string (.ok s)) := by
  refine reads_of_succ (by simp [stringText]) fun fuel rest _ _ => ?_
  have htext : stringText s.toList ++ rest =
      '"' :: (s.toList.flatMap escapeChar ++ '"' :: rest) := by
    simp [stringText]
  rw [htext, scan, skipSpace_cons rfl]
  simp only [scanString_stringText]

theorem isSpace_of_number (h : c = '-' ∨ c.isDigit) : isSpace c = false := by
  rw [Bool.eq_false_iff]
  intro hspace
  simp only [isSpace, Bool.or_eq_true, decide_eq_true_eq] at hspace
  rcases hspace with ((rfl | rfl) | rfl) | rfl <;> revert h <;> decide

/-- A text that is read as a number. -/
theorem reads_number {n : Number}
    (h : ∀ rest, Ends rest → scanNumber (text ++ rest) = .ok (.ok n, rest)) :
    Reads text (.number (.ok n)) := by
  obtain ⟨c, cs, hcs, hc⟩ := exists_of_scanNumber (h [] (by rintro c ⟨⟩))
  rw [List.append_nil] at hcs
  subst hcs
  have hspace := isSpace_of_number hc
  refine reads_of_succ (by simp) fun fuel rest _ hrest => ?_
  have hscan := h rest hrest
  rw [List.cons_append] at hscan ⊢
  rw [scan, skipSpace_cons hspace]
  -- No other kind of value starts with a sign or a digit.
  split <;> rename_i heq <;> cases heq
  case h_8 => rw [if_pos hc, hscan]
  all_goals exact absurd hc (by decide)

/-! ## Arrays -/

theorem Reads.array (h : ReadsItems true text items) : Reads ('[' :: text) (.array items none) := by
  refine reads_of_succ (by simp) fun fuel rest hfuel _ => ?_
  rw [List.length_cons] at hfuel
  rw [List.cons_append, scan, skipSpace_cons rfl]
  simp only [h fuel rest (by omega)]
  rfl

theorem ReadsItems.close (hspace : Blank space) : ReadsItems first (space ++ [']']) [] := by
  intro fuel rest hfuel
  obtain ⟨fuel, rfl⟩ := Nat.exists_eq_add_of_le' (show 1 ≤ fuel by omega)
  rw [List.append_assoc, scanItems, skipSpace_of_blank hspace, List.singleton_append,
    skipSpace_cons rfl]
  rfl

theorem scanItem_append (hvalue : Reads value doc) (hmore : ReadsItems false more items)
    (hends : ∀ rest, Ends (more ++ rest)) (hfuel : 3 * (value ++ more).length + 1 ≤ fuel) :
    scanItem fuel (value ++ (more ++ rest)) = (doc :: items, .ok rest) := by
  obtain ⟨fuel, rfl⟩ := Nat.exists_eq_add_of_le' (show 1 ≤ fuel by omega)
  have hpos := List.length_pos_iff.mpr hvalue.ne_nil
  rw [List.length_append] at hfuel
  rw [scanItem, hvalue fuel _ (by omega) (hends rest)]
  simp only [hmore fuel rest (by omega)]

theorem Reads.ne_close (h : Reads (c :: value) doc) (hc : isSpace c = false) : c ≠ ']' := by
  rintro rfl
  have hscan := h (3 * (']' :: value).length) [] le_rfl (by rintro c ⟨⟩)
  rw [List.length_cons, Nat.mul_succ, scan, List.cons_append, skipSpace_cons hc] at hscan
  cases hscan

/-- The first item. -/
theorem ReadsItems.item (hvalue : Reads (c :: value) doc) (hc : isSpace c = false)
    (hmore : ReadsItems false more items) (hends : ∀ rest, Ends (more ++ rest))
    (hspace : Blank space) : ReadsItems true (space ++ (c :: value ++ more)) (doc :: items) := by
  intro fuel rest hfuel
  obtain ⟨fuel, rfl⟩ := Nat.exists_eq_add_of_le' (show 1 ≤ fuel by omega)
  have hclose : c ≠ ']' := hvalue.ne_close hc
  rw [List.length_append] at hfuel
  rw [List.append_assoc, List.append_assoc, scanItems, skipSpace_of_blank hspace, List.cons_append,
    skipSpace_cons hc]
  split
  next heq => cases heq
  next heq =>
    cases heq
    exact absurd rfl hclose
  next heq =>
    cases heq
    rw [if_pos rfl]
    exact scanItem_append hvalue hmore hends (by omega)

/-- A further item. -/
theorem ReadsItems.next (hvalue : Reads (c :: value) doc) (hc : isSpace c = false)
    (hmore : ReadsItems false more items) (hends : ∀ rest, Ends (more ++ rest))
    (hspace : Blank space) (hspace' : Blank space') :
    ReadsItems false (space ++ (',' :: (space' ++ (c :: value ++ more)))) (doc :: items) := by
  intro fuel rest hfuel
  obtain ⟨fuel, rfl⟩ := Nat.exists_eq_add_of_le' (show 1 ≤ fuel by omega)
  have hclose : c ≠ ']' := hvalue.ne_close hc
  rw [List.length_append, List.length_cons, List.length_append] at hfuel
  rw [List.append_assoc, List.cons_append, List.append_assoc, List.append_assoc, scanItems,
    skipSpace_of_blank hspace, skipSpace_cons rfl]
  have hskip : skipSpace (space' ++ (c :: value ++ (more ++ rest))) =
      c :: (value ++ (more ++ rest)) := by
    rw [skipSpace_of_blank hspace', List.cons_append, skipSpace_cons hc]
  split
  next heq => cases heq
  next heq => cases heq
  next heq =>
    cases heq
    rw [if_neg Bool.false_ne_true, if_pos rfl, hskip]
    split
    next heq => cases heq
    next heq =>
      cases heq
      exact absurd rfl hclose
    next => exact scanItem_append hvalue hmore hends (by omega)

/-! ## Objects -/

theorem Reads.object (h : ReadsMembers true text members) :
    Reads ('{' :: text) (.object members none) := by
  refine reads_of_succ (by simp) fun fuel rest hfuel _ => ?_
  rw [List.length_cons] at hfuel
  rw [List.cons_append, scan, skipSpace_cons rfl]
  simp only [h fuel rest (by omega)]
  rfl

theorem ReadsMembers.close (hspace : Blank space) : ReadsMembers first (space ++ ['}']) [] := by
  intro fuel rest hfuel
  obtain ⟨fuel, rfl⟩ := Nat.exists_eq_add_of_le' (show 1 ≤ fuel by omega)
  rw [List.append_assoc, scanMembers, skipSpace_of_blank hspace, List.singleton_append,
    skipSpace_cons rfl]
  rfl

/-- A key in front of the text of its value. -/
def keyed (key : String) (value : List Char) : List Char := stringText key.toList ++ ':' :: value

theorem scanMember_append (hvalue : Reads value doc) (hmore : ReadsMembers false more members)
    (hends : ∀ rest, Ends (more ++ rest)) (hfuel : 3 * (keyed key value ++ more).length + 1 ≤ fuel)
    (rest : List Char) :
      scanMember fuel (keyed key value ++ (more ++ rest)) =
        ((.ok key, doc) :: members, .ok rest) := by
  obtain ⟨fuel, rfl⟩ := Nat.exists_eq_add_of_le' (show 1 ≤ fuel by omega)
  have hlength : value.length + more.length + 3 ≤ (keyed key value ++ more).length := by
    simp only [keyed, stringText, List.length_append, List.length_cons, List.length_nil]
    omega
  have htext : keyed key value ++ (more ++ rest) =
      '"' :: (key.toList.flatMap escapeChar ++ '"' :: ':' :: (value ++ (more ++ rest))) := by
    simp [keyed, stringText]
  rw [htext, scanMember]
  simp only [scanString_stringText, skipSpace_cons (show isSpace ':' = false from rfl)]
  rw [hvalue fuel _ (by omega) (hends rest)]
  simp only [hmore fuel rest (by omega)]

theorem keyed_eq_cons (key : String) (value : List Char) :
    ∃ cs, keyed key value = '"' :: cs := ⟨_, rfl⟩

/-- The first member. -/
theorem ReadsMembers.member (hvalue : Reads value doc) (hmore : ReadsMembers false more members)
    (hends : ∀ rest, Ends (more ++ rest)) (hspace : Blank space) :
    ReadsMembers true (space ++ (keyed key value ++ more)) ((.ok key, doc) :: members) := by
  intro fuel rest hfuel
  obtain ⟨fuel, rfl⟩ := Nat.exists_eq_add_of_le' (show 1 ≤ fuel by omega)
  rw [List.length_append] at hfuel
  obtain ⟨cs, hcs⟩ := keyed_eq_cons key value
  have hmember := scanMember_append hvalue hmore hends
    (show 3 * (keyed key value ++ more).length + 1 ≤ fuel by omega) rest
  rw [List.append_assoc, List.append_assoc, scanMembers, skipSpace_of_blank hspace]
  rw [hcs, List.cons_append] at hmember ⊢
  rw [skipSpace_cons rfl]
  exact hmember

/-- A further member. -/
theorem ReadsMembers.next (hvalue : Reads value doc) (hmore : ReadsMembers false more members)
    (hends : ∀ rest, Ends (more ++ rest)) (hspace : Blank space) (hspace' : Blank space') :
    ReadsMembers false (space ++ (',' :: (space' ++ (keyed key value ++ more))))
      ((.ok key, doc) :: members) := by
  intro fuel rest hfuel
  obtain ⟨fuel, rfl⟩ := Nat.exists_eq_add_of_le' (show 1 ≤ fuel by omega)
  rw [List.length_append, List.length_cons, List.length_append] at hfuel
  obtain ⟨cs, hcs⟩ := keyed_eq_cons key value
  have hmember := scanMember_append hvalue hmore hends
    (show 3 * (keyed key value ++ more).length + 1 ≤ fuel by omega) rest
  rw [List.append_assoc, List.cons_append, List.append_assoc, List.append_assoc, scanMembers,
    skipSpace_of_blank hspace, skipSpace_cons rfl]
  rw [hcs, List.cons_append] at hmember ⊢
  have hskip : skipSpace (space' ++ '"' :: (cs ++ (more ++ rest))) =
      '"' :: (cs ++ (more ++ rest)) := by
    rw [skipSpace_of_blank hspace', skipSpace_cons rfl]
  split
  next heq => cases heq
  next heq => cases heq
  next heq =>
    cases heq
    rw [if_neg Bool.false_ne_true, if_pos rfl, hskip]
    exact hmember

end Stencil.Json.Document
