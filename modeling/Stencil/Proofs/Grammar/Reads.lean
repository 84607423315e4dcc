/-
What a grammar reads, without a matcher.

The matcher carries fuel, the place it has reached and the furthest place at which a rule failed.
None of these says anything about what is matched: the result depends on the expression, on whether
white space may stand between the parts, and on the text that is ahead.  `Reads` gives that result
by rules, one for every way in which an expression can match or fail, and it is a function of the
text (`Reads.det`).  Only an expression that asks for the start of the text has no result here, for
the start is not a property of what is ahead.
-/
import Mathlib
import Stencil.Grammar.Match

namespace Stencil.Grammar

variable {ρ : Type} {g : Grammar ρ}

/-- What is to be read: an expression, or more repetitions of one. -/
inductive Query (ρ : Type) where
  | once (e : Peg ρ)
  | again (part : Peg ρ)

/-- What is read: what is ahead afterwards, and the trees that show up, last one first. -/
abbrev Found (ρ : Type) := Option (List Char × List (Tree ρ))

/-- The characters that an expression for a single character accepts. -/
def letter? : Peg ρ → Option (Char → Bool)
  | .range first last => some fun c => first ≤ c && c ≤ last
  | .anyChar => some fun _ => true
  | .space => some isSpace
  | _ => none

/-- What is ahead behind the white space that may stand between parts. -/
def skipped : Tightness → List Char → List Char
  | .free, cs => cs.dropWhile isSpace
  | _, cs => cs

/-- The trees of a rule that took some text. -/
def shown (g : Grammar ρ) (t : Tightness) (r : ρ) (taken : List Char) (trees : List (Tree ρ)) :
    List (Tree ρ) :=
  if g.mode r = .silent ∨ t.seen (g.mode r) = .hidden then trees
  else [.node r taken trees.reverse]

/-- The reading of a query from the text that is ahead. -/
inductive Reads (g : Grammar ρ) : Tightness → Query ρ → List Char → Found ρ → Prop
  | literal {t : Tightness} {l cs ds : List Char} (h : cs = l ++ ds) :
      Reads g t (.once (.literal l)) cs (some (ds, []))
  | literal_none {t : Tightness} {l cs : List Char} (h : ¬ l <+: cs) :
      Reads g t (.once (.literal l)) cs none
  | letter {t : Tightness} {e : Peg ρ} {p : Char → Bool} {c : Char} {cs : List Char}
      (he : letter? e = some p) (h : p c) : Reads g t (.once e) (c :: cs) (some (cs, []))
  | letter_none {t : Tightness} {e : Peg ρ} {p : Char → Bool} {cs : List Char}
      (he : letter? e = some p) (h : ∀ c ds, cs = c :: ds → p c = false) :
      Reads g t (.once e) cs none
  | endOfText {t : Tightness} : Reads g t (.once .endOfText) [] (some ([], []))
  | endOfText_none {t : Tightness} {c : Char} {cs : List Char} :
      Reads g t (.once .endOfText) (c :: cs) none
  | seq {t : Tightness} {a b : Peg ρ} {cs ds es : List Char} {ts us : List (Tree ρ)}
      (ha : Reads g t (.once a) cs (some (ds, ts)))
      (hb : Reads g t (.once b) (skipped t ds) (some (es, us))) :
      Reads g t (.once (.seq a b)) cs (some (es, us ++ ts))
  | seq_first {t : Tightness} {a b : Peg ρ} {cs : List Char} (ha : Reads g t (.once a) cs none) :
      Reads g t (.once (.seq a b)) cs none
  | seq_second {t : Tightness} {a b : Peg ρ} {cs ds : List Char} {ts : List (Tree ρ)}
      (ha : Reads g t (.once a) cs (some (ds, ts)))
      (hb : Reads g t (.once b) (skipped t ds) none) : Reads g t (.once (.seq a b)) cs none
  | alt_first {t : Tightness} {a b : Peg ρ} {cs ds : List Char} {ts : List (Tree ρ)}
      (ha : Reads g t (.once a) cs (some (ds, ts))) :
      Reads g t (.once (.alt a b)) cs (some (ds, ts))
  | alt_second {t : Tightness} {a b : Peg ρ} {cs : List Char} {out : Found ρ}
      (ha : Reads g t (.once a) cs none) (hb : Reads g t (.once b) cs out) :
      Reads g t (.once (.alt a b)) cs out
  | many_none {t : Tightness} {a : Peg ρ} {cs : List Char} (ha : Reads g t (.once a) cs none) :
      Reads g t (.once (.many a)) cs (some (cs, []))
  | many {t : Tightness} {a : Peg ρ} {cs ds es : List Char} {ts us : List (Tree ρ)}
      (ha : Reads g t (.once a) cs (some (ds, ts))) (hs : Reads g t (.again a) ds (some (es, us))) :
      Reads g t (.once (.many a)) cs (some (es, us ++ ts))
  | again_none {t : Tightness} {a : Peg ρ} {cs : List Char}
      (ha : Reads g t (.once a) (skipped t cs) none) :
      Reads g t (.again a) cs (some (cs, []))
  | again {t : Tightness} {a : Peg ρ} {cs ds es : List Char} {ts us : List (Tree ρ)}
      (ha : Reads g t (.once a) (skipped t cs) (some (ds, ts)))
      (hs : Reads g t (.again a) ds (some (es, us))) :
      Reads g t (.again a) cs (some (es, us ++ ts))
  | optional_none {t : Tightness} {a : Peg ρ} {cs : List Char}
      (ha : Reads g t (.once a) cs none) : Reads g t (.once (.optional a)) cs (some (cs, []))
  | optional {t : Tightness} {a : Peg ρ} {cs ds : List Char} {ts : List (Tree ρ)}
      (ha : Reads g t (.once a) cs (some (ds, ts))) :
      Reads g t (.once (.optional a)) cs (some (ds, ts))
  | absent {t : Tightness} {a : Peg ρ} {cs : List Char} (ha : Reads g t (.once a) cs none) :
      Reads g t (.once (.absent a)) cs (some (cs, []))
  | absent_none {t : Tightness} {a : Peg ρ} {cs ds : List Char} {ts : List (Tree ρ)}
      (ha : Reads g t (.once a) cs (some (ds, ts))) : Reads g t (.once (.absent a)) cs none
  | rule {t : Tightness} {r : ρ} {cs ds : List Char} {ts : List (Tree ρ)}
      (hr : Reads g (t.inside (g.mode r)) (.once (g.body r)) cs (some (ds, ts))) :
      Reads g t (.once (.rule r)) cs
        (some (ds, shown g t r (cs.take (cs.length - ds.length)) ts))
  | rule_none {t : Tightness} {r : ρ} {cs : List Char}
      (hr : Reads g (t.inside (g.mode r)) (.once (g.body r)) cs none) :
      Reads g t (.once (.rule r)) cs none

variable {t : Tightness} {a b : Peg ρ} {cs ds es : List Char} {ts us : List (Tree ρ)}
  {out : Found ρ}

theorem skipped_suffix (t : Tightness) (cs : List Char) : skipped t cs <:+ cs := by
  cases t with
  | free => exact List.dropWhile_suffix _
  | tight => exact List.suffix_refl _
  | hidden => exact List.suffix_refl _

@[simp] theorem skipped_tight (cs : List Char) : skipped .tight cs = cs := rfl

@[simp] theorem skipped_hidden (cs : List Char) : skipped .hidden cs = cs := rfl

/-- What is ahead after a reading was ahead before it. -/
theorem Reads.suffix {query : Query ρ} (h : Reads g t query cs (some (ds, ts))) : ds <:+ cs := by
  generalize hout : (some (ds, ts) : Found ρ) = out at h
  induction h generalizing ds ts with
  | literal h =>
      cases hout
      exact ⟨_, h.symm⟩
  | letter => cases hout; exact List.suffix_cons _ _
  | endOfText | many_none | again_none | optional_none | absent =>
      cases hout
      exact List.suffix_refl _
  | seq _ _ iha ihb =>
      cases hout
      exact (ihb rfl).trans ((skipped_suffix _ _).trans (iha rfl))
  | alt_first _ iha => exact iha hout
  | alt_second _ _ _ ihb => exact ihb hout
  | many _ _ iha ihs => cases hout; exact (ihs rfl).trans (iha rfl)
  | again _ _ iha ihs =>
      cases hout
      exact (ihs rfl).trans ((iha rfl).trans (skipped_suffix _ _))
  | optional _ iha => exact iha hout
  | rule _ ih => cases hout; exact ih rfl
  | literal_none | letter_none | endOfText_none | seq_first | seq_second | absent_none
  | rule_none => cases hout

/-! ## Readings by the form of the expression -/

theorem reads_literal {l : List Char} :
    Reads g t (.once (.literal l)) cs out ↔
      (∃ ds, cs = l ++ ds ∧ out = some (ds, [])) ∨ (¬ l <+: cs ∧ out = none) := by
  constructor
  · intro h
    cases h with
    | literal h => exact .inl ⟨_, h, rfl⟩
    | literal_none h => exact .inr ⟨h, rfl⟩
    | letter he => cases he
    | letter_none he => cases he
  · rintro (⟨ds, h, rfl⟩ | ⟨h, rfl⟩)
    · exact .literal h
    · exact .literal_none h

theorem reads_letter {e : Peg ρ} {p : Char → Bool} (he : letter? e = some p) :
    Reads g t (.once e) cs out ↔
      (∃ c ds, cs = c :: ds ∧ p c ∧ out = some (ds, [])) ∨
        ((∀ c ds, cs = c :: ds → p c = false) ∧ out = none) := by
  constructor
  · intro h
    cases h with
    | letter he' h =>
        rw [he] at he'
        cases he'
        exact .inl ⟨_, _, rfl, h, rfl⟩
    | letter_none he' h =>
        rw [he] at he'
        cases he'
        exact .inr ⟨h, rfl⟩
    | _ => cases he
  · rintro (⟨c, ds, rfl, h, rfl⟩ | ⟨h, rfl⟩)
    · exact .letter he h
    · exact .letter_none he h

theorem reads_seq :
    Reads g t (.once (.seq a b)) cs out ↔
      (Reads g t (.once a) cs none ∧ out = none) ∨
        ∃ ds ts, Reads g t (.once a) cs (some (ds, ts)) ∧
          ((Reads g t (.once b) (skipped t ds) none ∧ out = none) ∨
            ∃ es us, Reads g t (.once b) (skipped t ds) (some (es, us)) ∧
              out = some (es, us ++ ts)) := by
  constructor
  · intro h
    cases h with
    | seq ha hb => exact .inr ⟨_, _, ha, .inr ⟨_, _, hb, rfl⟩⟩
    | seq_first ha => exact .inl ⟨ha, rfl⟩
    | seq_second ha hb => exact .inr ⟨_, _, ha, .inl ⟨hb, rfl⟩⟩
    | letter he => cases he
    | letter_none he => cases he
  · rintro (⟨ha, rfl⟩ | ⟨ds, ts, ha, ⟨hb, rfl⟩ | ⟨es, us, hb, rfl⟩⟩)
    · exact .seq_first ha
    · exact .seq_second ha hb
    · exact .seq ha hb

theorem reads_alt :
    Reads g t (.once (.alt a b)) cs out ↔
      (∃ x, Reads g t (.once a) cs (some x) ∧ out = some x) ∨
        (Reads g t (.once a) cs none ∧ Reads g t (.once b) cs out) := by
  constructor
  · intro h
    cases h with
    | alt_first ha => exact .inl ⟨_, ha, rfl⟩
    | alt_second ha hb => exact .inr ⟨ha, hb⟩
    | letter he => cases he
    | letter_none he => cases he
  · rintro (⟨x, ha, rfl⟩ | ⟨ha, hb⟩)
    · exact .alt_first ha
    · exact .alt_second ha hb

theorem reads_many :
    Reads g t (.once (.many a)) cs out ↔
      (Reads g t (.once a) cs none ∧ out = some (cs, [])) ∨
        ∃ ds ts es us, Reads g t (.once a) cs (some (ds, ts)) ∧
          Reads g t (.again a) ds (some (es, us)) ∧ out = some (es, us ++ ts) := by
  constructor
  · intro h
    cases h with
    | many_none ha => exact .inl ⟨ha, rfl⟩
    | many ha hs => exact .inr ⟨_, _, _, _, ha, hs, rfl⟩
    | letter he => cases he
    | letter_none he => cases he
  · rintro (⟨ha, rfl⟩ | ⟨ds, ts, es, us, ha, hs, rfl⟩)
    · exact .many_none ha
    · exact .many ha hs

theorem reads_again :
    Reads g t (.again a) cs out ↔
      (Reads g t (.once a) (skipped t cs) none ∧ out = some (cs, [])) ∨
        ∃ ds ts es us, Reads g t (.once a) (skipped t cs) (some (ds, ts)) ∧
          Reads g t (.again a) ds (some (es, us)) ∧ out = some (es, us ++ ts) := by
  constructor
  · intro h
    cases h with
    | again_none ha => exact .inl ⟨ha, rfl⟩
    | again ha hs => exact .inr ⟨_, _, _, _, ha, hs, rfl⟩
  · rintro (⟨ha, rfl⟩ | ⟨ds, ts, es, us, ha, hs, rfl⟩)
    · exact .again_none ha
    · exact .again ha hs

/-- Where no white space may stand between parts, the first repetition is like the others. -/
theorem reads_many_iff_again (ht : t ≠ .free) :
    Reads g t (.once (.many a)) cs out ↔ Reads g t (.again a) cs out := by
  have hskip : skipped t cs = cs := by
    cases t with
    | free => exact absurd rfl ht
    | tight => rfl
    | hidden => rfl
  rw [reads_many, reads_again, hskip]

theorem reads_optional :
    Reads g t (.once (.optional a)) cs out ↔
      (Reads g t (.once a) cs none ∧ out = some (cs, [])) ∨
        ∃ x, Reads g t (.once a) cs (some x) ∧ out = some x := by
  constructor
  · intro h
    cases h with
    | optional_none ha => exact .inl ⟨ha, rfl⟩
    | optional ha => exact .inr ⟨_, ha, rfl⟩
    | letter he => cases he
    | letter_none he => cases he
  · rintro (⟨ha, rfl⟩ | ⟨x, ha, rfl⟩)
    · exact .optional_none ha
    · exact .optional ha

theorem reads_absent :
    Reads g t (.once (.absent a)) cs out ↔
      (Reads g t (.once a) cs none ∧ out = some (cs, [])) ∨
        ∃ x, Reads g t (.once a) cs (some x) ∧ out = none := by
  constructor
  · intro h
    cases h with
    | absent ha => exact .inl ⟨ha, rfl⟩
    | absent_none ha => exact .inr ⟨_, ha, rfl⟩
    | letter he => cases he
    | letter_none he => cases he
  · rintro (⟨ha, rfl⟩ | ⟨x, ha, rfl⟩)
    · exact .absent ha
    · exact .absent_none ha

theorem reads_rule {r : ρ} :
    Reads g t (.once (.rule r)) cs out ↔
      (Reads g (t.inside (g.mode r)) (.once (g.body r)) cs none ∧ out = none) ∨
        ∃ ds ts, Reads g (t.inside (g.mode r)) (.once (g.body r)) cs (some (ds, ts)) ∧
          out = some (ds, shown g t r (cs.take (cs.length - ds.length)) ts) := by
  constructor
  · intro h
    cases h with
    | rule hr => exact .inr ⟨_, _, hr, rfl⟩
    | rule_none hr => exact .inl ⟨hr, rfl⟩
    | letter he => cases he
    | letter_none he => cases he
  · rintro (⟨hr, rfl⟩ | ⟨ds, ts, hr, rfl⟩)
    · exact .rule_none hr
    · exact .rule hr

/-! ### Matches and failures -/

theorem reads_literal_some {l : List Char} :
    Reads g t (.once (.literal l)) cs (some (ds, ts)) ↔ cs = l ++ ds ∧ ts = [] := by
  rw [reads_literal]
  constructor
  · rintro (⟨ds', h, heq⟩ | ⟨-, heq⟩)
    · cases heq
      exact ⟨h, rfl⟩
    · cases heq
  · rintro ⟨h, rfl⟩
    exact .inl ⟨ds, h, rfl⟩

theorem reads_literal_none {l : List Char} :
    Reads g t (.once (.literal l)) cs none ↔ ¬ l <+: cs := by
  rw [reads_literal]
  constructor
  · rintro (⟨ds', h, heq⟩ | ⟨h, -⟩)
    · cases heq
    · exact h
  · exact fun h => .inr ⟨h, rfl⟩

theorem reads_seq_some :
    Reads g t (.once (.seq a b)) cs (some (es, us)) ↔ ∃ ds ts vs,
      Reads g t (.once a) cs (some (ds, ts)) ∧ Reads g t (.once b) (skipped t ds) (some (es, vs)) ∧
        us = vs ++ ts := by
  rw [reads_seq]
  constructor
  · rintro (⟨-, heq⟩ | ⟨ds, ts, ha, ⟨-, heq⟩ | ⟨es', vs, hb, heq⟩⟩)
    · cases heq
    · cases heq
    · cases heq
      exact ⟨ds, ts, vs, ha, hb, rfl⟩
  · rintro ⟨ds, ts, vs, ha, hb, rfl⟩
    exact .inr ⟨ds, ts, ha, .inr ⟨es, vs, hb, rfl⟩⟩

theorem reads_seq_none :
    Reads g t (.once (.seq a b)) cs none ↔ Reads g t (.once a) cs none ∨
      ∃ ds ts, Reads g t (.once a) cs (some (ds, ts)) ∧
        Reads g t (.once b) (skipped t ds) none := by
  rw [reads_seq]
  constructor
  · rintro (⟨ha, -⟩ | ⟨ds, ts, ha, ⟨hb, -⟩ | ⟨es, us, -, heq⟩⟩)
    · exact .inl ha
    · exact .inr ⟨ds, ts, ha, hb⟩
    · cases heq
  · rintro (ha | ⟨ds, ts, ha, hb⟩)
    · exact .inl ⟨ha, rfl⟩
    · exact .inr ⟨ds, ts, ha, .inl ⟨hb, rfl⟩⟩

theorem not_reads_many_none : ¬ Reads g t (.once (.many a)) cs none := by
  intro h
  rcases reads_many.mp h with ⟨-, heq⟩ | ⟨_, _, _, _, -, -, heq⟩ <;> cases heq

theorem not_reads_optional_none : ¬ Reads g t (.once (.optional a)) cs none := by
  intro h
  rcases reads_optional.mp h with ⟨-, heq⟩ | ⟨_, -, heq⟩ <;> cases heq

/-- A sequence whose second part never fails, such as a repetition, fails where its first part
does. -/
theorem reads_seq_none_iff_first (hb : ∀ cs, ¬ Reads g t (.once b) cs none) :
    Reads g t (.once (.seq a b)) cs none ↔ Reads g t (.once a) cs none := by
  rw [reads_seq_none]
  exact or_iff_left fun ⟨_, _, _, h⟩ => hb _ h

theorem reads_alt_some {x : List Char × List (Tree ρ)} :
    Reads g t (.once (.alt a b)) cs (some x) ↔ Reads g t (.once a) cs (some x) ∨
      (Reads g t (.once a) cs none ∧ Reads g t (.once b) cs (some x)) := by
  rw [reads_alt]
  constructor
  · rintro (⟨y, ha, heq⟩ | h)
    · cases heq
      exact .inl ha
    · exact .inr h
  · rintro (ha | h)
    · exact .inl ⟨x, ha, rfl⟩
    · exact .inr h

theorem reads_alt_none :
    Reads g t (.once (.alt a b)) cs none ↔
      Reads g t (.once a) cs none ∧ Reads g t (.once b) cs none := by
  rw [reads_alt]
  constructor
  · rintro (⟨y, -, heq⟩ | h)
    · cases heq
    · exact h
  · exact .inr

theorem reads_rule_some {r : ρ} :
    Reads g t (.once (.rule r)) cs (some (ds, us)) ↔ ∃ ts,
      Reads g (t.inside (g.mode r)) (.once (g.body r)) cs (some (ds, ts)) ∧
        us = shown g t r (cs.take (cs.length - ds.length)) ts := by
  rw [reads_rule]
  constructor
  · rintro (⟨-, heq⟩ | ⟨ds', ts, h, heq⟩)
    · cases heq
    · cases heq
      exact ⟨ts, h, rfl⟩
  · rintro ⟨ts, h, rfl⟩
    exact .inr ⟨ds, ts, h, rfl⟩

theorem reads_rule_none {r : ρ} :
    Reads g t (.once (.rule r)) cs none ↔
      Reads g (t.inside (g.mode r)) (.once (g.body r)) cs none := by
  rw [reads_rule]
  constructor
  · rintro (⟨h, -⟩ | ⟨ds', ts, -, heq⟩)
    · exact h
    · cases heq
  · exact fun h => .inl ⟨h, rfl⟩

/-- A query is read in one way only. -/
theorem Reads.det {query : Query ρ} {out' : Found ρ} (h : Reads g t query cs out)
    (h' : Reads g t query cs out') : out = out' := by
  induction h generalizing out' with
  | literal h =>
      rcases reads_literal.mp h' with ⟨ds, hds, rfl⟩ | ⟨hnot, rfl⟩
      · rw [List.append_cancel_left (h.symm.trans hds)]
      · exact absurd ⟨_, h.symm⟩ hnot
  | literal_none h =>
      rcases reads_literal.mp h' with ⟨ds, rfl, rfl⟩ | ⟨-, rfl⟩
      · exact absurd (List.prefix_append _ _) h
      · rfl
  | letter he h =>
      rcases (reads_letter he).mp h' with ⟨c, ds, hcons, -, rfl⟩ | ⟨hnot, rfl⟩
      · cases hcons
        rfl
      · rw [hnot _ _ rfl] at h
        cases h
  | letter_none he h =>
      rcases (reads_letter he).mp h' with ⟨c, ds, rfl, hc, rfl⟩ | ⟨-, rfl⟩
      · rw [h _ _ rfl] at hc
        cases hc
      · rfl
  | endOfText =>
      cases h' with
      | endOfText => rfl
      | letter_none he => cases he
  | endOfText_none =>
      cases h' with
      | endOfText_none => rfl
      | letter he => cases he
      | letter_none he => cases he
  | seq _ _ iha ihb =>
      rcases reads_seq.mp h' with ⟨ha', -⟩ | ⟨ds, ts, ha', ⟨hb', -⟩ | ⟨es, us, hb', rfl⟩⟩
      · cases iha ha'
      · cases iha ha'
        cases ihb hb'
      · cases iha ha'
        cases ihb hb'
        rfl
  | seq_first _ iha =>
      rcases reads_seq.mp h' with ⟨-, rfl⟩ | ⟨ds, ts, ha', -⟩
      · rfl
      · cases iha ha'
  | seq_second _ _ iha ihb =>
      rcases reads_seq.mp h' with ⟨-, rfl⟩ | ⟨ds, ts, ha', ⟨-, rfl⟩ | ⟨es, us, hb', rfl⟩⟩
      · rfl
      · rfl
      · cases iha ha'
        cases ihb hb'
  | alt_first _ iha =>
      rcases reads_alt.mp h' with ⟨x, ha', rfl⟩ | ⟨ha', -⟩
      · exact iha ha'
      · cases iha ha'
  | alt_second _ _ iha ihb =>
      rcases reads_alt.mp h' with ⟨x, ha', rfl⟩ | ⟨-, hb'⟩
      · cases iha ha'
      · exact ihb hb'
  | many_none _ iha =>
      rcases reads_many.mp h' with ⟨-, rfl⟩ | ⟨ds, ts, es, us, ha', -, -⟩
      · rfl
      · cases iha ha'
  | many _ _ iha ihs =>
      rcases reads_many.mp h' with ⟨ha', -⟩ | ⟨ds, ts, es, us, ha', hs', rfl⟩
      · cases iha ha'
      · cases iha ha'
        cases ihs hs'
        rfl
  | again_none _ iha =>
      cases h' with
      | again_none => rfl
      | again ha' _ => cases iha ha'
  | again _ _ iha ihs =>
      cases h' with
      | again_none ha' => cases iha ha'
      | again ha' hs' =>
          cases iha ha'
          cases ihs hs'
          rfl
  | optional_none _ iha =>
      rcases reads_optional.mp h' with ⟨-, rfl⟩ | ⟨x, ha', -⟩
      · rfl
      · cases iha ha'
  | optional _ iha =>
      rcases reads_optional.mp h' with ⟨ha', -⟩ | ⟨x, ha', rfl⟩
      · cases iha ha'
      · exact iha ha'
  | absent _ iha =>
      rcases reads_absent.mp h' with ⟨-, rfl⟩ | ⟨x, ha', -⟩
      · rfl
      · cases iha ha'
  | absent_none _ iha =>
      rcases reads_absent.mp h' with ⟨ha', -⟩ | ⟨x, -, rfl⟩
      · cases iha ha'
      · rfl
  | rule _ ih =>
      rcases reads_rule.mp h' with ⟨hr', -⟩ | ⟨ds, ts, hr', rfl⟩
      · cases ih hr'
      · cases ih hr'
        rfl
  | rule_none _ ih =>
      rcases reads_rule.mp h' with ⟨-, rfl⟩ | ⟨ds, ts, hr', -⟩
      · rfl
      · cases ih hr'

end Stencil.Grammar
