/-
The leftmost tags of a text.

Which texts are tags can be said without a scanner: a name between the delimiters, with white space
around it.  A text is read from the left.  Where such a text starts it is taken as a whole, and any
other character is passed.  There is one reading of a text in this sense, the one that `scan` gives,
because no text starts with two different tags.  A template and its source have the same reading, so
the source compiles to the same source, with the same tags, or fails in the same way.
-/
import Mathlib
import Stencil.Proofs.Piece
import Stencil.Proofs.Template

namespace Stencil

namespace Piece

variable {cs name rest x : List Char} {ps : List Piece}

/-- The texts that are tags with a given name. -/
inductive TagText (name : List Char) : List Char → Prop
  | mk {front back : List Char} (hname : name ≠ []) (hchars : ∀ c ∈ name, isNameChar c)
      (hfront : ∀ c ∈ front, Text.isBlank c) (hback : ∀ c ∈ back, Text.isBlank c) :
      TagText name (opening ++ (front ++ (name ++ (back ++ closing))))

/-- The readings of a text from the left. -/
inductive Leftmost : List Char → List Piece → Prop
  | nil : Leftmost [] []
  | tag {name x rest : List Char} {ps : List Piece} (hx : TagText name x) (h : Leftmost rest ps) :
      Leftmost (x ++ rest) (.tag (String.ofList name) :: ps)
  | char {c : Char} {cs : List Char} {ps : List Piece}
      (hno : ∀ name x rest, TagText name x → c :: cs ≠ x ++ rest) (h : Leftmost cs ps) :
      Leftmost (c :: cs) (.char c :: ps)

/-! ## Tags -/

theorem tag?_of_tagText (hx : TagText name x) (rest : List Char) :
    tag? (x ++ rest) = some (name, rest) := by
  obtain @⟨front, back, hname, hchars, hfront, hback⟩ := hx
  obtain ⟨n, ns, rfl⟩ := List.exists_cons_of_ne_nil hname
  have hn : Text.isBlank n = false := not_isBlank_of_isNameChar (hchars n List.mem_cons_self)
  have hskip : (front ++ (n :: ns ++ (back ++ (closing ++ rest)))).dropWhile Text.isBlank =
      n :: ns ++ (back ++ (closing ++ rest)) := by
    rw [List.dropWhile_append_of_pos hfront, List.cons_append,
      List.dropWhile_cons_of_neg (by simp [hn])]
  have hstop : ∀ p : Char → Bool, p '}' = false →
      (closing ++ rest).takeWhile p = [] ∧ (closing ++ rest).dropWhile p = closing ++ rest :=
    fun p hp => ⟨by simp [closing, hp], by simp [closing, hp]⟩
  have hbehind : (back ++ (closing ++ rest)).takeWhile isNameChar = [] ∧
      (back ++ (closing ++ rest)).dropWhile isNameChar = back ++ (closing ++ rest) := by
    cases back with
    | nil => exact hstop _ (by decide)
    | cons b back =>
        have hb : isNameChar b = false := by
          rw [isNameChar, hback b List.mem_cons_self]
          rfl
        exact ⟨List.takeWhile_cons_of_neg (by simp [hb]), List.dropWhile_cons_of_neg (by simp [hb])⟩
  refine tag?_eq_some_iff.mpr ⟨front ++ (n :: ns ++ (back ++ (closing ++ rest))),
    by simp only [List.append_assoc], ?_, hname, ?_⟩
  · rw [hskip, List.takeWhile_append_of_pos hchars, hbehind.1, List.append_nil]
  · rw [hskip, List.dropWhile_append_of_pos hchars, hbehind.2, List.dropWhile_append_of_pos hback,
      (hstop _ (by decide)).2]

/-- A tag is found exactly where the text of one starts. -/
theorem tag?_eq_some_iff_tagText :
    tag? cs = some (name, rest) ↔ ∃ x, TagText name x ∧ cs = x ++ rest := by
  constructor
  · intro h
    obtain ⟨w, rfl, rfl, hname, hrest⟩ := tag?_eq_some_iff.mp h
    have htext : TagText ((w.dropWhile Text.isBlank).takeWhile isNameChar)
        (opening ++ (w.takeWhile Text.isBlank ++
          ((w.dropWhile Text.isBlank).takeWhile isNameChar ++
            (((w.dropWhile Text.isBlank).dropWhile isNameChar).takeWhile Text.isBlank ++
              closing)))) :=
      .mk hname (fun c hc => List.mem_takeWhile_imp hc) (fun c hc => List.mem_takeWhile_imp hc)
        fun c hc => List.mem_takeWhile_imp hc
    refine ⟨_, htext, ?_⟩
    simp only [List.append_assoc, ← hrest, List.takeWhile_append_dropWhile]
  · rintro ⟨x, hx, rfl⟩
    exact tag?_of_tagText hx rest

theorem tag?_eq_none_iff_tagText :
    tag? cs = none ↔ ∀ name x rest, TagText name x → cs ≠ x ++ rest := by
  constructor
  · rintro h name x rest hx rfl
    rw [tag?_of_tagText hx] at h
    cases h
  · intro h
    by_contra hne
    obtain ⟨⟨name, rest⟩, htag⟩ := Option.ne_none_iff_exists'.mp hne
    obtain ⟨x, hx, heq⟩ := tag?_eq_some_iff_tagText.mp htag
    exact h name x rest hx heq

/-! ## Readings -/

theorem leftmost_scan (cs : List Char) : Leftmost cs (scan 0 cs) := by
  induction hn : cs.length using Nat.strong_induction_on generalizing cs with
  | _ n ih =>
      cases cs with
      | nil =>
          rw [scan]
          exact .nil
      | cons c cs =>
          cases htag : tag? (c :: cs) with
          | none =>
              rw [scan_of_not_tag? htag]
              exact .char (tag?_eq_none_iff_tagText.mp htag) (ih cs.length (by simp [← hn]) cs rfl)
          | some found =>
              obtain ⟨name, rest⟩ := found
              have hlt : rest.length < n :=
                hn ▸ Nat.lt_succ_of_le (isSuffix_of_tag? htag).length_le
              obtain ⟨x, hx, heq⟩ := tag?_eq_some_iff_tagText.mp htag
              rw [scan_of_tag? htag, heq]
              exact .tag hx (ih rest.length hlt rest rfl)

/-- The scanner gives the one reading of a text. -/
theorem leftmost_iff : Leftmost cs ps ↔ ps = scan 0 cs := by
  constructor
  · intro h
    induction h with
    | nil => rw [scan]
    | tag hx _ ih => rw [scan_of_tag? (tag?_of_tagText hx _), ih]
    | char hno _ ih => rw [scan_of_not_tag? (tag?_eq_none_iff_tagText.mpr hno), ih]
  · rintro rfl
    exact leftmost_scan cs

theorem leftmost_toList_iff {text : String} : Leftmost text.toList ps ↔ ps = ofText text :=
  leftmost_iff

end Piece

/-! ## Compiling a source -/

namespace Template

variable {name text : String} {options : Options}

/-- What is checked of a text is also checked of its normal form. -/
theorem compile_normalText_eq_ok {t : Template} :
    compile name (Piece.normalText (Piece.ofText text)) options = .ok t ↔
      ∃ u, compile name text options = .ok u ∧ t = { u with text := u.source } := by
  rw [compile_eq_ok, Piece.ofText_normalText]
  constructor
  · rintro ⟨hcheck, rfl⟩
    exact ⟨_, compile_eq_ok.mpr ⟨hcheck, rfl⟩, rfl⟩
  · rintro ⟨u, hu, rfl⟩
    obtain ⟨hcheck, rfl⟩ := compile_eq_ok.mp hu
    exact ⟨hcheck, rfl⟩

theorem compile_normalText_eq_error {e : Error} :
    compile name (Piece.normalText (Piece.ofText text)) options = .error e ↔
      compile name text options = .error e := by
  unfold compile
  dsimp only
  rw [Piece.ofText_normalText]
  -- Only the texts differ in what is compiled, and an error has no text.
  generalize Engine.ofTexts _ = made
  cases made with
  | error fault => exact Iff.rfl
  | ok engine => exact ⟨nofun, nofun⟩

/-- A text and its source, in which every tag is written in its normal form, have the same reading,
with the same tags at the same places.  The source is compiled exactly if the text is, with the same
error if not, and otherwise to a template of the same tags and the same source.  The tags of both are
those that a render finds in the source. -/
theorem compile_rewritten (name text : String) (options : Options) :
    ∃ ps source, (∀ qs, Piece.Leftmost text.toList qs ↔ qs = ps) ∧
      source = String.ofList (Piece.write Piece.normalTag ps) ∧
      (∀ qs, Piece.Leftmost source.toList qs ↔ qs = ps) ∧
      (∀ e, compile name source options = .error e ↔ compile name text options = .error e) ∧
      ((∃ t, compile name source options = .ok t) ↔ ∃ t, compile name text options = .ok t) ∧
      ∀ t, compile name text options = .ok t →
        t.source = source ∧ t.tags = Piece.names ps ∧
          Piece.names (Piece.ofText t.source) = t.tags ∧
          ∃ t', compile name t.source options = .ok t' ∧ t'.tags = t.tags ∧
            t'.source = t.source := by
  refine ⟨Piece.ofText text, Piece.normalText (Piece.ofText text),
    fun qs => Piece.leftmost_toList_iff, rfl, fun qs => ?_,
    fun e => compile_normalText_eq_error, ?_, fun t ht => ?_⟩
  · rw [Piece.leftmost_toList_iff, Piece.ofText_normalText]
  · constructor
    · rintro ⟨t, ht⟩
      obtain ⟨u, hu, -⟩ := compile_normalText_eq_ok.mp ht
      exact ⟨u, hu⟩
    · rintro ⟨u, hu⟩
      exact ⟨_, compile_normalText_eq_ok.mpr ⟨u, hu, rfl⟩⟩
  · obtain ⟨-, hfields⟩ := compile_eq_ok.mp ht
    have hsource : t.source = Piece.normalText (Piece.ofText text) := by rw [hfields]
    have htags : t.tags = Piece.names (Piece.ofText text) := by rw [hfields]
    refine ⟨hsource, htags, ?_, { t with text := t.source }, ?_, rfl, rfl⟩
    · rw [hsource, Piece.ofText_normalText, htags]
    · rw [hsource]
      exact compile_normalText_eq_ok.mpr ⟨t, ht, by rw [hsource]⟩

end Template

end Stencil
