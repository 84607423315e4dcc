/-
Patterns of file names.

A text without special characters stands for itself.  The pattern of the files below a directory
is the path of the directory, two stars for the directories below it, and a star with the end of
the names.
-/
import Mathlib
import Stencil.Files.Pattern

namespace Stencil.Pattern

/-- Whether a character stands for itself in a pattern. -/
def IsPlain (c : Char) : Prop := c ≠ '?' ∧ c ≠ '*' ∧ c ≠ '['

/-- The pattern that a text without special characters stands for. -/
def ofPlain (text : List Char) : Pattern := text.map .char

variable {text rest : List Char} {read segment : Pattern} {previous previous' : Option Char}

theorem readFrom_plain (h : ∀ c ∈ text, IsPlain c) (position : Nat) (previous : Option Char)
    (read : Pattern) (rest : List Char) :
    readFrom position previous 0 read (text ++ rest) =
      readFrom (position + text.length) (text.getLast?.or previous) 0
        ((ofPlain text).reverse ++ read) rest := by
  induction text generalizing position previous read with
  | nil => rfl
  | cons c text ih =>
      obtain ⟨hany, hstar, hclass⟩ := h c List.mem_cons_self
      have hstep : readFrom position previous 0 read (c :: text ++ rest) =
          readFrom (position + 1) (some c) 0 (.char c :: read) (text ++ rest) := by
        rw [List.cons_append, readFrom]
        · rfl
        · exact hany
        · exact hstar
        · exact hclass
      have hlast : (c :: text).getLast?.or previous = text.getLast?.or (some c) := by
        cases text with
        | nil => rfl
        | cons c' text =>
            rw [List.getLast?_cons_cons]
            rw [List.getLast?_eq_some_getLast (List.cons_ne_nil c' text)]
            rfl
      rw [hstep, ih fun c hc => h c (List.mem_cons_of_mem _ hc), hlast, List.length_cons]
      congr 1
      · omega
      · simp [ofPlain]

theorem ofText_plain (h : ∀ c ∈ text, IsPlain c) :
    ofText (String.ofList text) = .ok (ofPlain text) := by
  have hread := readFrom_plain h 0 none [] []
  rw [List.append_nil] at hread
  rw [ofText, String.toList_ofList, hread, readFrom, List.append_nil, List.reverse_reverse]

theorem literal?_ofPlain (text : List Char) : literal? (ofPlain text) = some text := by
  induction text with
  | nil => rfl
  | cons c text ih =>
      show (literal? (ofPlain text)).map _ = _
      rw [ih]
      rfl

theorem isMatch_ofPlain (text name : List Char) : isMatch (ofPlain text) name ↔ name = text := by
  induction text generalizing name with
  | nil => cases name <;> simp [ofPlain, isMatch]
  | cons c text ih =>
      show isMatch (.char c :: ofPlain text) name = true ↔ _
      cases name with
      | nil => simp [isMatch, PatternPart.isSequence]
      | cons c' name =>
          simp only [isMatch, PatternPart.isSequence, PatternPart.holds, Bool.false_eq_true,
            if_false, Bool.and_eq_true, beq_iff_eq, ih, List.cons.injEq]

theorem anyEnd_iff (test : List Char → Bool) (text : List Char) :
    anyEnd test text ↔ ∃ t, t <:+ text ∧ test t := by
  induction text with
  | nil => simp [anyEnd]
  | cons c text ih =>
      rw [anyEnd, Bool.or_eq_true, ih]
      constructor
      · rintro (htest | ⟨t, ht, htest⟩)
        · exact ⟨_, List.suffix_refl _, htest⟩
        · exact ⟨t, ht.trans (List.suffix_cons _ _), htest⟩
      · rintro ⟨t, ht, htest⟩
        rcases List.suffix_cons_iff.mp ht with rfl | ht
        · exact .inl htest
        · exact .inr ⟨t, ht, htest⟩

/-- The pattern of the names with an end. -/
def endingIn (text : List Char) : Pattern := .anyChars :: ofPlain text

theorem isMatch_endingIn (text name : List Char) :
    isMatch (endingIn text) name ↔ text <:+ name := by
  show anyEnd (isMatch (ofPlain text)) name = true ↔ _
  simp only [anyEnd_iff, isMatch_ofPlain]
  constructor
  · rintro ⟨t, ht, rfl⟩
    exact ht
  · exact fun h => ⟨text, h, rfl⟩

theorem isDirectories_endingIn (text : List Char) : isDirectories (endingIn text) = false := by
  simp [isDirectories, endingIn, ofPlain]

/-- The pattern of any directories. -/
theorem ofText_stars : ofText "**" = .ok [.anyDirectories] := rfl

/-- Two stars behind a slash, or at the start, stand for any directories. -/
theorem readFrom_stars {previous : Option Char} (h : previous = none ∨ previous = some '/')
    (position : Nat) (read : Pattern) (rest : List Char) :
    readFrom position previous 0 read ('*' :: '*' :: '/' :: rest) =
      readFrom (position + 3) (some '/') 0 (addDirectories read) rest := by
  rcases h with rfl | rfl <;> rfl

/-- One star in front of a plain text stands for any characters. -/
theorem readFrom_star (h : ∀ c ∈ rest, IsPlain c) (position : Nat) (previous : Option Char)
    (read : Pattern) :
    readFrom position previous 0 read ('*' :: rest) =
      .ok (read.reverse ++ endingIn rest) := by
  have hstar : ('*' :: rest).takeWhile (· = '*') = ['*'] := by
    cases rest with
    | nil => rfl
    | cons c rest =>
        have hc := (h c List.mem_cons_self).2.1
        simp [hc]
  have hread := readFrom_plain h (position + 1) (some '*') (.anyChars :: read) []
  rw [List.append_nil] at hread
  have hstep : readFrom position previous 0 read ('*' :: rest) =
      readFrom (position + 1) (some '*') 0 (.anyChars :: read) rest := by
    rw [readFrom]
    simp only [lt_irrefl, if_false, hstar]
  rw [hstep, hread, readFrom]
  simp [endingIn, ofPlain]

theorem ofText_star (h : ∀ c ∈ rest, IsPlain c) :
    ofText (String.ofList ('*' :: rest)) = .ok (endingIn rest) := by
  rw [ofText, String.toList_ofList, readFrom_star h]
  rfl

/-! ## Segments -/

/-- Whether a character in front keeps two stars from standing alone. -/
def Blocks (previous : Option Char) : Prop := previous.isSome ∧ previous ≠ some '/'

/-- Whether a text can be read depends on what is in front of it only as far as two stars are
concerned. -/
theorem exists_readFrom_congr (h : Blocks previous ↔ Blocks previous')
    (position position' skip : Nat) (read read' : Pattern) :
    (∃ p, readFrom position previous skip read text = .ok p) ↔
      ∃ p, readFrom position' previous' skip read' text = .ok p := by
  induction text generalizing position position' previous previous' skip read read' with
  | nil => simp [readFrom]
  | cons c cs ih =>
      have hgo (skip : Nat) (read read' : Pattern) :
          (∃ p, readFrom (position + 1) (some c) skip read cs = .ok p) ↔
            ∃ p, readFrom (position' + 1) (some c) skip read' cs = .ok p :=
        ih Iff.rfl _ _ _ _ _
      simp only [Blocks] at h
      unfold readFrom
      simp only [h]
      split
      · exact hgo _ _ _
      · split
        · exact hgo _ _ _
        · split
          · exact hgo _ _ _
          · split
            · simp
            · split
              · exact hgo _ _ _
              · exact hgo _ _ _
              · simp
          · simp
        · split
          · exact hgo _ _ _
          · simp
        · exact hgo _ _ _

theorem eq_ofPlain_of_literal? (h : segment.literal? = some text) : segment = ofPlain text := by
  induction segment generalizing text with
  | nil =>
      cases h
      rfl
  | cons part segment ih =>
      cases part with
      | char c =>
          obtain ⟨rest, hrest, rfl⟩ := Option.map_eq_some_iff.mp h
          rw [ih hrest]
          rfl
      | _ => cases h

theorem isDirectories_ofPlain (text : List Char) : isDirectories (ofPlain text) = false := by
  simp [isDirectories, ofPlain]

theorem literal?_of_isDirectories (h : segment.isDirectories) : segment.literal? = none := by
  cases hliteral : segment.literal? with
  | none => rfl
  | some text =>
      simp [eq_ofPlain_of_literal? hliteral, isDirectories_ofPlain] at h

/-- What the segments of a pattern are like: they hold no slash, and two stars stand alone. -/
structure Proper (segment : Pattern) : Prop where
  slash : .char '/' ∉ segment
  stars : segment.isDirectories → segment = [.anyDirectories]

theorem Proper.slash_notMem (h : Proper segment) (hliteral : segment.literal? = some text) :
    '/' ∉ text := by
  intro hmem
  refine h.slash ?_
  rw [eq_ofPlain_of_literal? hliteral]
  exact List.mem_map_of_mem hmem

theorem proper_ofPlain (hslash : '/' ∉ text) : Proper (ofPlain text) where
  slash h := by
    obtain ⟨c, hc, hslash'⟩ := List.mem_map.mp h
    cases hslash'
    exact hslash hc
  stars h := by simp [isDirectories_ofPlain] at h

/-- Whether a part is neither two stars nor a slash. -/
def Inner (part : PatternPart) : Prop := part ≠ .anyDirectories ∧ part ≠ .char '/'

theorem exists_of_charClass? {part : PatternPart} {length : Nat}
    (h : charClass? text = some (part, length)) : ∃ inside spans, part = .oneOf inside spans := by
  unfold charClass? at h
  split at h
  · obtain ⟨more, -, h⟩ := Option.bind_eq_some_iff.mp h
    cases h
    exact ⟨_, _, rfl⟩
  · cases h
  · obtain ⟨more, -, h⟩ := Option.bind_eq_some_iff.mp h
    cases h
    exact ⟨_, _, rfl⟩
  · cases h

/-- A text without slashes is read as two stars, or part by part. -/
theorem inner_or_stars_of_readFrom {position skip : Nat} {p : Pattern} (hslash : '/' ∉ text)
    (hstart : Blocks previous ∨ (skip = 0 ∧ read = []))
    (h : readFrom position previous skip read text = .ok p) :
    (∃ more, p = read.reverse ++ more ∧ ∀ part ∈ more, Inner part) ∨ p = [.anyDirectories] := by
  induction text generalizing position previous skip read with
  | nil =>
      cases h
      exact .inl ⟨[], by simp, by simp⟩
  | cons c cs ih =>
      obtain ⟨hc, hcs⟩ : ¬ '/' = c ∧ '/' ∉ cs := by simpa using hslash
      have hblocks : Blocks (some c) := ⟨rfl, by simpa using Ne.symm hc⟩
      have hgo {part : PatternPart} {skip : Nat} (hpart : Inner part)
          (h : readFrom (position + 1) (some c) skip (part :: read) cs = .ok p) :
          (∃ more, p = read.reverse ++ more ∧ ∀ part ∈ more, Inner part) ∨
            p = [.anyDirectories] := by
        rcases ih hcs (.inl hblocks) h with ⟨more, rfl, hmore⟩ | hp
        · exact .inl ⟨part :: more, by simp, by simpa [hpart] using hmore⟩
        · exact .inr hp
      unfold readFrom at h
      dsimp only at h
      split at h
      · exact ih hcs (.inl hblocks) h
      · split at h
        · exact hgo (by simp [Inner]) h
        · split at h
          · exact hgo (by simp [Inner]) h
          · -- Two stars stand alone only at the start, and then nothing follows.
            split at h
            · cases h
            next hnot =>
              obtain ⟨-, rfl⟩ := hstart.resolve_left hnot
              split at h
              next hend =>
                right
                rcases cs with _ | ⟨c', _ | ⟨c'', cs⟩⟩
                · cases h
                  rfl
                · cases h
                  rfl
                · cases hend
              next hend =>
                exact absurd (List.mem_of_mem_drop (hend ▸ List.mem_cons_self)) hcs
              · cases h
          · cases h
        · split at h
          next part length hclass =>
            obtain ⟨inside, spans, rfl⟩ := exists_of_charClass? hclass
            exact hgo (by simp [Inner]) h
          next => cases h
        · exact hgo (by simp [Inner, Ne.symm hc]) h

/-- What a text without slashes reads as has no slash, and two stars stand alone in it. -/
theorem proper_of_ofText (hslash : '/' ∉ text) (h : ofText (String.ofList text) = .ok segment) :
    segment.Proper := by
  rw [ofText, String.toList_ofList] at h
  rcases inner_or_stars_of_readFrom hslash (.inr ⟨rfl, rfl⟩) h with ⟨more, rfl, hmore⟩ | rfl
  · refine ⟨fun hmem => (hmore _ hmem).2 rfl, fun hmem => ?_⟩
    rw [isDirectories, List.contains_iff_mem] at hmem
    exact absurd rfl (hmore _ hmem).1
  · exact ⟨by simp, fun _ => rfl⟩

theorem plain_of_readFrom {position : Nat} {p : Pattern} (hslash : '/' ∉ text)
    (hstart : Blocks previous ∨ read = []) (h : readFrom position previous 0 read text = .ok p)
    (hchars : ∀ part ∈ p, ∃ c, part = .char c) : ∀ c ∈ text, IsPlain c := by
  induction text generalizing position previous read with
  | nil => simp
  | cons c cs ih =>
      obtain ⟨hc, hcs⟩ : ¬ '/' = c ∧ '/' ∉ cs := by simpa using hslash
      have hblocks : Blocks (some c) := ⟨rfl, by simpa using Ne.symm hc⟩
      -- A part that is read stays, so one that is no character is in the result.
      have hread {part : PatternPart} {skip : Nat} {read : Pattern} (hmem : part ∈ read)
          (h : readFrom (position + 1) (some c) skip read cs = .ok p) : ∃ c, part = .char c := by
        rcases inner_or_stars_of_readFrom hcs (.inl hblocks) h with ⟨more, rfl, -⟩ | rfl
        · exact hchars part (by simp [hmem])
        · obtain ⟨c, hc⟩ := hchars .anyDirectories List.mem_cons_self
          cases hc
      have hstars : PatternPart.anyDirectories ∈ addDirectories read := by
        unfold addDirectories
        split <;> simp
      unfold readFrom at h
      dsimp only at h
      rw [if_neg (lt_irrefl 0)] at h
      split at h
      · obtain ⟨c, hc⟩ := hread List.mem_cons_self h
        cases hc
      · split at h
        · obtain ⟨c, hc⟩ := hread List.mem_cons_self h
          cases hc
        · split at h
          · cases h
          · split at h
            · obtain ⟨c, hc⟩ := hread hstars h
              cases hc
            · obtain ⟨c, hc⟩ := hread hstars h
              cases hc
            · cases h
        · cases h
      · split at h
        next part length hclass =>
          obtain ⟨inside, spans, rfl⟩ := exists_of_charClass? hclass
          obtain ⟨c, hc⟩ := hread List.mem_cons_self h
          cases hc
        next => cases h
      next hany hstar hclass =>
        exact List.forall_mem_cons.mpr ⟨⟨hany, hstar, hclass⟩, ih hcs (.inl hblocks) h⟩

/-- What is read as plain characters is plain. -/
theorem plain_of_literal? {plain : List Char} (hslash : '/' ∉ text)
    (h : ofText (String.ofList text) = .ok segment) (hliteral : segment.literal? = some plain) :
    ∀ c ∈ text, IsPlain c := by
  rw [ofText, String.toList_ofList] at h
  refine plain_of_readFrom hslash (.inr rfl) h fun part hpart => ?_
  rw [eq_ofPlain_of_literal? hliteral] at hpart
  obtain ⟨c, -, rfl⟩ := List.mem_map.mp hpart
  exact ⟨c, rfl⟩

end Stencil.Pattern
