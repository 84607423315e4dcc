/-
How much fuel a grammar needs.

A grammar in which no rule calls itself in the same place of the text, and no repetition can match
nothing, needs fuel for two things only: for the calls at one place, and for the characters ahead.
The first number is bounded by a rank that descends along the calls at one place, the second by the
length of the text.  With that much fuel the matcher gives the reading of the rules, and every text
has one.
-/
import Mathlib
import Stencil.Proofs.Grammar.Reads

namespace Stencil

/-- What is claimed of the rules of a grammar: which are used, which may match nothing, how deep
their calls at one place go, and a bound for that depth. -/
structure Ranking (ρ : Type) where
  covers : ρ → Bool
  mayBeEmpty : ρ → Bool
  rank : ρ → Nat
  depth : Nat

namespace Peg

variable {ρ : Type} (k : Ranking ρ)

/-- Whether an expression may match nothing. -/
def mayBeEmpty : Peg ρ → Bool
  | literal l => l.isEmpty
  | range _ _ | anyChar | space => false
  | rule r => k.mayBeEmpty r
  | seq a b => a.mayBeEmpty && b.mayBeEmpty
  | alt a b => a.mayBeEmpty || b.mayBeEmpty
  | startOfText | endOfText | many _ | optional _ | absent _ => true

/-- The depth of the calls of an expression at one place. -/
def rank : Peg ρ → Nat
  | literal _ | range _ _ | anyChar | space | startOfText | endOfText => 1
  | rule r => k.rank r + 1
  | seq a b => max a.rank (if a.mayBeEmpty k then b.rank else 0) + 1
  | alt a b => max a.rank b.rank + 1
  | many a | optional a | absent a => a.rank + 1

/-- Whether an expression calls used rules only, repeats nothing that may be empty, and has no part
behind another one that is too deep. -/
def fits : Peg ρ → Bool
  | literal _ | range _ _ | anyChar | space | endOfText => true
  | startOfText => false
  | rule r => k.covers r
  | seq a b => a.fits && b.fits && b.rank k ≤ k.depth
  | alt a b => a.fits && b.fits
  | many a => a.fits && !a.mayBeEmpty k
  | optional a | absent a => a.fits

end Peg

namespace Grammar

variable {ρ : Type} {g : Grammar ρ} {k : Ranking ρ}

/-- Whether a ranking is right about a grammar. -/
structure RankedBy (g : Grammar ρ) (k : Ranking ρ) : Prop where
  fits_body : ∀ r, k.covers r → (g.body r).fits k
  empty_body : ∀ r, k.covers r → (g.body r).mayBeEmpty k → k.mayBeEmpty r
  rank_body : ∀ r, k.covers r → (g.body r).rank k ≤ k.rank r
  depth_pos : 0 < k.depth

namespace Query

/-- Whether a query is one that the ranking speaks of. -/
def fits (k : Ranking ρ) : Query ρ → Bool
  | once e => e.fits k
  | again e => e.fits k && !e.mayBeEmpty k

/-- The fuel for a query with so many characters ahead. -/
def need (k : Ranking ρ) (length : Nat) : Query ρ → Nat
  | once e => e.rank k + k.depth * length
  | again e => e.rank k + 1 + k.depth * length

end Query

variable {t : Tightness} {a : Peg ρ} {cs ds : List Char} {ts : List (Tree ρ)} {out : Found ρ}

theorem Peg.one_le_rank (k : Ranking ρ) (a : Peg ρ) : 1 ≤ a.rank k := by
  cases a <;> simp [Peg.rank]

theorem Peg.rank_lt_seq (a b : Peg ρ) : a.rank k < (Peg.seq a b).rank k :=
  Nat.lt_succ_of_le (le_max_left _ _)

theorem Peg.rank_lt_alt (a b : Peg ρ) :
    a.rank k < (Peg.alt a b).rank k ∧ b.rank k < (Peg.alt a b).rank k :=
  ⟨Nat.lt_succ_of_le (le_max_left _ _), Nat.lt_succ_of_le (le_max_right _ _)⟩

/-- What may not be empty takes at least one character. -/
theorem Reads.length_lt (hg : RankedBy g k) (h : Reads g t (.once a) cs (some (ds, ts)))
    (hfits : a.fits k) (hne : a.mayBeEmpty k = false) : ds.length < cs.length := by
  generalize hquery : Query.once a = query at h
  generalize hout : (some (ds, ts) : Found ρ) = out at h
  induction h generalizing a ds ts with
  | @literal _ l _ _ h =>
      cases hquery
      cases hout
      subst h
      have hl : l ≠ [] := by
        rintro rfl
        cases hne
      have := List.length_pos_iff.mpr hl
      rw [List.length_append]
      omega
  | letter he h =>
      cases hout
      exact Nat.lt_succ_self _
  | endOfText | many_none | optional_none | absent | many | optional =>
      cases hquery
      cases hne
  | seq ha hb iha ihb =>
      cases hquery
      cases hout
      simp only [Peg.fits, Bool.and_eq_true, decide_eq_true_eq] at hfits
      rw [Peg.mayBeEmpty, Bool.and_eq_false_iff] at hne
      rcases hne with hne | hne
      · exact lt_of_le_of_lt (hb.suffix.trans (skipped_suffix _ _)).length_le
          (iha hfits.1.1 hne rfl rfl)
      · exact lt_of_lt_of_le (ihb hfits.1.2 hne rfl rfl)
          ((skipped_suffix _ _).trans ha.suffix).length_le
  | alt_first _ iha =>
      cases hquery
      rw [Peg.mayBeEmpty, Bool.or_eq_false_iff] at hne
      rw [Peg.fits, Bool.and_eq_true] at hfits
      exact iha hfits.1 hne.1 rfl hout
  | alt_second _ _ _ ihb =>
      cases hquery
      rw [Peg.mayBeEmpty, Bool.or_eq_false_iff] at hne
      rw [Peg.fits, Bool.and_eq_true] at hfits
      exact ihb hfits.2 hne.2 rfl hout
  | @rule _ r _ _ _ _ ih =>
      cases hquery
      cases hout
      refine ih (hg.fits_body r hfits) ?_ rfl rfl
      cases hbody : (g.body r).mayBeEmpty k with
      | false => rfl
      | true =>
          rw [Peg.mayBeEmpty, hg.empty_body r hfits hbody] at hne
          cases hne
  | again_none | again => cases hquery
  | literal_none | letter_none | endOfText_none | seq_first | seq_second | absent_none
  | rule_none => cases hout

/-! ## The need of a query

What a query calls needs less than the query. -/

theorem need_mono (query : Query ρ) {m n : Nat} (h : m ≤ n) : query.need k m ≤ query.need k n := by
  have := Nat.mul_le_mul_left k.depth h
  cases query with
  | once => exact Nat.add_le_add_left this _
  | again => exact Nat.add_le_add_left this _

/-- A part behind one that took something needs less than the characters ahead allow. -/
theorem need_behind {b : Peg ρ} {m n : Nat} (hb : b.rank k ≤ k.depth) (h : m < n) :
    (Query.once b).need k m ≤ k.depth * n := by
  have hmul := Nat.mul_le_mul_left k.depth h
  rw [Nat.succ_eq_add_one, Nat.mul_add] at hmul
  simp only [Query.need]
  omega

/-- A part that lies less deep needs less at the same place. -/
theorem need_lt {e : Peg ρ} (h : a.rank k < e.rank k) (length : Nat) :
    (Query.once a).need k length < (Query.once e).need k length := Nat.add_lt_add_right h _

theorem need_rule {r : ρ} (hg : RankedBy g k) (hr : k.covers r) (length : Nat) :
    (Query.once (g.body r)).need k length < (Query.once (.rule r)).need k length :=
  need_lt (Nat.lt_succ_of_le (hg.rank_body r hr)) length

theorem need_part (t : Tightness) (a : Peg ρ) (cs : List Char) :
    (Query.once a).need k (skipped t cs).length < (Query.again a).need k cs.length :=
  lt_of_le_of_lt (need_mono (.once a) (skipped_suffix t cs).length_le)
    (Nat.add_lt_add_right (Nat.lt_succ_self _) _)

/-- More repetitions need less behind one that took something. -/
theorem need_again (hg : RankedBy g k) (a : Peg ρ) {m n : Nat} (h : m < n) :
    (Query.again a).need k m < (Query.again a).need k n :=
  Nat.add_lt_add_left (Nat.mul_lt_mul_of_pos_left h hg.depth_pos) _

theorem need_second {b : Peg ρ} (hg : RankedBy g k) (hfits : (Peg.seq a b).fits k)
    (ha : Reads g t (.once a) cs (some (ds, ts))) :
    (Query.once b).need k (skipped t ds).length < (Query.once (.seq a b)).need k cs.length := by
  simp only [Peg.fits, Bool.and_eq_true, decide_eq_true_eq] at hfits
  cases hempty : a.mayBeEmpty k with
  | true =>
      have := need_mono (.once b) (k := k)
        ((skipped_suffix t ds).trans ha.suffix).length_le
      simp only [Query.need, Peg.rank, hempty, if_true] at this ⊢
      omega
  | false =>
      have := need_behind hfits.2 (lt_of_le_of_lt (skipped_suffix t ds).length_le
        (ha.length_lt hg hfits.1.1 hempty))
      simp only [Query.need, Peg.rank] at this ⊢
      omega

/-! ## Every text has a reading -/

theorem exists_reads_literal (t : Tightness) (l cs : List Char) :
    ∃ out, Reads g t (.once (.literal l)) cs out := by
  by_cases h : l <+: cs
  · obtain ⟨ds, h⟩ := h
    exact ⟨_, .literal h.symm⟩
  · exact ⟨_, .literal_none h⟩

theorem exists_reads_letter (t : Tightness) {e : Peg ρ} {p : Char → Bool} (he : letter? e = some p)
    (cs : List Char) : ∃ out, Reads g t (.once e) cs out := by
  cases cs with
  | nil => exact ⟨_, .letter_none he nofun⟩
  | cons c cs =>
      cases hc : p c with
      | true => exact ⟨_, .letter he hc⟩
      | false =>
          refine ⟨_, .letter_none he ?_⟩
          intro d ds hds
          cases hds
          exact hc

/-- More repetitions always end. -/
theorem exists_reads_again (hfits : a.fits k) (hne : a.mayBeEmpty k = false)
    (hg : RankedBy g k) (h : ∀ ds, ds.length ≤ cs.length → ∃ out, Reads g t (.once a) ds out) :
    ∃ es us, Reads g t (.again a) cs (some (es, us)) := by
  induction hn : cs.length using Nat.strong_induction_on generalizing cs with
  | _ n ih =>
      have hskip := (skipped_suffix t cs).length_le
      obtain ⟨out, hout⟩ := h _ hskip
      cases out with
      | none => exact ⟨_, _, .again_none hout⟩
      | some found =>
          obtain ⟨ds, ts⟩ := found
          have hlt := hout.length_lt hg hfits hne
          obtain ⟨es, us, hes⟩ := ih ds.length (by omega)
            (fun es hes => h es (by omega)) rfl
          exact ⟨_, _, .again hout hes⟩

/-- Every text has a reading. -/
theorem exists_reads (hg : RankedBy g k) (t : Tightness) (hfits : a.fits k) (cs : List Char) :
    ∃ out, Reads g t (.once a) cs out := by
  induction hn : (Query.once a).need k cs.length using Nat.strong_induction_on
    generalizing t a cs with
  | _ n ih =>
      subst hn
      cases a with
      | literal l => exact exists_reads_literal t l cs
      | range first last => exact exists_reads_letter t rfl cs
      | anyChar => exact exists_reads_letter t rfl cs
      | space => exact exists_reads_letter t rfl cs
      | startOfText => cases hfits
      | endOfText =>
          cases cs with
          | nil => exact ⟨_, .endOfText⟩
          | cons c cs => exact ⟨_, .endOfText_none⟩
      | rule r =>
          obtain ⟨out, hout⟩ :=
            ih _ (need_rule hg hfits _) (t.inside (g.mode r)) (hg.fits_body r hfits) cs rfl
          cases out with
          | none => exact ⟨_, .rule_none hout⟩
          | some found => exact ⟨_, .rule hout⟩
      | seq a b =>
          have hsub := hfits
          simp only [Peg.fits, Bool.and_eq_true, decide_eq_true_eq] at hsub
          obtain ⟨out, ha⟩ := ih _ (need_lt (Peg.rank_lt_seq a b) _) t hsub.1.1 cs rfl
          cases out with
          | none => exact ⟨_, .seq_first ha⟩
          | some found =>
              obtain ⟨out, hb⟩ := ih _ (need_second hg hfits ha) t hsub.1.2 _ rfl
              cases out with
              | none => exact ⟨_, .seq_second ha hb⟩
              | some found => exact ⟨_, .seq ha hb⟩
      | alt a b =>
          rw [Peg.fits, Bool.and_eq_true] at hfits
          obtain ⟨out, ha⟩ := ih _ (need_lt (Peg.rank_lt_alt a b).1 _) t hfits.1 cs rfl
          cases out with
          | some found => exact ⟨_, .alt_first ha⟩
          | none =>
              obtain ⟨out, hb⟩ := ih _ (need_lt (Peg.rank_lt_alt a b).2 _) t hfits.2 cs rfl
              exact ⟨_, .alt_second ha hb⟩
      | many a =>
          rw [Peg.fits, Bool.and_eq_true, Bool.not_eq_true'] at hfits
          have hall : ∀ ds : List Char, ds.length ≤ cs.length →
              ∃ out, Reads g t (.once a) ds out := by
            intro ds hds
            have hlt := need_lt (k := k) (a := a) (e := .many a) (Nat.lt_succ_self _) cs.length
            exact ih _ ((need_mono (.once a) hds).trans_lt hlt) t hfits.1 ds rfl
          obtain ⟨out, ha⟩ := hall cs le_rfl
          cases out with
          | none => exact ⟨_, .many_none ha⟩
          | some found =>
              obtain ⟨ds, ts⟩ := found
              have hbehind : ∀ es : List Char, es.length ≤ ds.length →
                  ∃ out, Reads g t (.once a) es out :=
                fun es hes => hall es (hes.trans ha.suffix.length_le)
              obtain ⟨es, us, hes⟩ := exists_reads_again hfits.1 hfits.2 hg hbehind
              exact ⟨_, .many ha hes⟩
      | optional a =>
          obtain ⟨out, ha⟩ :=
            ih _ (need_lt (Nat.lt_succ_self _) _) t (show a.fits k from hfits) cs rfl
          cases out with
          | none => exact ⟨_, .optional_none ha⟩
          | some found => exact ⟨_, .optional ha⟩
      | absent a =>
          obtain ⟨out, ha⟩ :=
            ih _ (need_lt (Nat.lt_succ_self _) _) t (show a.fits k from hfits) cs rfl
          cases out with
          | none => exact ⟨_, .absent ha⟩
          | some found => exact ⟨_, .absent_none ha⟩

/-! ## The matcher gives the reading -/

/-- A reading as the matcher shows it, from a place with so many characters in front of it. -/
def located (before : Nat) (cs : List Char) (found : List (Tree ρ)) :
    Found ρ → Option (Match ρ)
  | none => none
  | some (ds, ts) => some (⟨before + (cs.length - ds.length), ds⟩, ts ++ found)

theorem literal?_eq (l cs ds : List Char) (before : Nat) (h : cs = l ++ ds) :
    (Place.mk before cs).literal? l = some ⟨before + (cs.length - ds.length), ds⟩ := by
  subst h
  induction l generalizing before with
  | nil => simp [Place.literal?]
  | cons c l ih =>
      rw [List.cons_append, Place.literal?]
      dsimp only
      rw [if_pos rfl, ih]
      simp only [List.length_append, List.length_cons]
      congr 2
      omega

theorem literal?_eq_none (l cs : List Char) (before : Nat) (h : ¬ l <+: cs) :
    (Place.mk before cs).literal? l = none := by
  induction l generalizing before cs with
  | nil => exact absurd (List.nil_prefix) h
  | cons c l ih =>
      cases cs with
      | nil => rfl
      | cons d cs =>
          rw [Place.literal?]
          dsimp only
          split
          next hcd =>
            subst hcd
            exact ih cs _ fun hl => h (List.cons_prefix_cons.mpr ⟨rfl, hl⟩)
          next => rfl

theorem skip_eq (before : Nat) (cs : List Char) (t : Tightness) :
    (Place.mk before cs).skip t =
      ⟨before + (cs.length - (skipped t cs).length), skipped t cs⟩ := by
  cases t with
  | free =>
      have hsplit : (cs.takeWhile isSpace).length + (cs.dropWhile isSpace).length = cs.length := by
        rw [← List.length_append, List.takeWhile_append_dropWhile]
      have hdrop : cs.drop (cs.takeWhile isSpace).length = cs.dropWhile isSpace := by
        calc cs.drop (cs.takeWhile isSpace).length
            = (cs.takeWhile isSpace ++ cs.dropWhile isSpace).drop
                (cs.takeWhile isSpace).length := by rw [List.takeWhile_append_dropWhile]
          _ = cs.dropWhile isSpace := List.drop_left' rfl
      simp only [Place.skip, skipped, hdrop]
      congr 2
      omega
  | tight => simp [Place.skip, skipped]
  | hidden => simp [Place.skip, skipped]

/-- The matcher at work on a query, behind the repetitions so far. -/
def Query.run (g : Grammar ρ) (fuel : Nat) (s : Setting) (p : Place) (found : List (Tree ρ))
    (furthest : Nat) : Query ρ → Outcome ρ
  | once e => attempt g fuel s e p furthest
  | again e => repeatFrom g fuel s e p found furthest

/-- The repetitions so far, if there are any. -/
def Query.before (found : List (Tree ρ)) : Query ρ → List (Tree ρ)
  | once _ => []
  | again _ => found

theorem Query.one_le_need (query : Query ρ) (length : Nat) : 1 ≤ query.need k length := by
  cases query with
  | once e =>
      have := Peg.one_le_rank k e
      simp only [Query.need]
      omega
  | again e =>
      simp only [Query.need]
      omega

/-- Fuel that is enough for a query leaves enough for what needs less. -/
theorem exists_fuel {query : Query ρ} {length fuel : Nat} (h : query.need k length ≤ fuel) :
    ∃ n, fuel = n + 1 ∧ ∀ {m : Nat}, m < query.need k length → m ≤ n := by
  obtain ⟨n, rfl⟩ := Nat.exists_eq_add_of_le' ((query.one_le_need length).trans h)
  exact ⟨n, rfl, fun hm => Nat.le_of_lt_succ (hm.trans_le h)⟩

/-! ### The clauses of the matcher -/

section Clauses

variable (g : Grammar ρ) (n : Nat) (s : Setting) (place : Place) (furthest : Nat)

theorem attempt_letter {e : Peg ρ} {p : Char → Bool} (he : letter? e = some p) :
    attempt g (n + 1) s e place furthest = bare (place.char? p) furthest := by
  cases e with
  | range | anyChar | space =>
      cases he
      rfl
  | _ => cases he

theorem attempt_literal (l : List Char) :
    attempt g (n + 1) s (.literal l) place furthest = bare (place.literal? l) furthest := rfl

theorem attempt_endOfText : attempt g (n + 1) s .endOfText place furthest =
    bare (if place.rest.isEmpty then some place else none) furthest := rfl

theorem attempt_seq (a b : Peg ρ) : attempt g (n + 1) s (.seq a b) place furthest =
    match attempt g n s a place furthest with
    | (none, furthest) => (none, furthest)
    | (some (q, ts), furthest) =>
      match attempt g n s b (q.skip s.tightness) furthest with
      | (none, furthest) => (none, furthest)
      | (some (r, us), furthest) => (some (r, us ++ ts), furthest) := rfl

theorem attempt_alt (a b : Peg ρ) : attempt g (n + 1) s (.alt a b) place furthest =
    match attempt g n s a place furthest with
    | (none, furthest) => attempt g n s b place furthest
    | found => found := rfl

theorem attempt_many (a : Peg ρ) : attempt g (n + 1) s (.many a) place furthest =
    match attempt g n s a place furthest with
    | (none, furthest) => (some (place, []), furthest)
    | (some (q, ts), furthest) => repeatFrom g n s a q ts furthest := rfl

theorem repeatFrom_succ (a : Peg ρ) (found : List (Tree ρ)) :
    repeatFrom g (n + 1) s a place found furthest =
      match attempt g n s a (place.skip s.tightness) furthest with
      | (none, furthest) => (some (place, found), furthest)
      | (some (q, ts), furthest) => repeatFrom g n s a q (ts ++ found) furthest := rfl

theorem attempt_optional (a : Peg ρ) : attempt g (n + 1) s (.optional a) place furthest =
    match attempt g n s a place furthest with
    | (none, furthest) => (some (place, []), furthest)
    | found => found := rfl

theorem attempt_absent (a : Peg ρ) : attempt g (n + 1) s (.absent a) place furthest =
    match attempt g n { s with negated := !s.negated } a place furthest with
    | (none, furthest) => (some (place, []), furthest)
    | (some _, furthest) => (none, furthest) := rfl

/-- What a rule notes of a vain attempt changes nothing about its match. -/
theorem attempt_rule (r : ρ) : (attempt g (n + 1) s (.rule r) place furthest).1 =
    (attempt g n { s with tightness := s.tightness.inside (g.mode r) } (g.body r) place
      furthest).1.map fun found =>
        (found.1,
          shown g s.tightness r (place.rest.take (found.1.before - place.before)) found.2) := by
  rw [attempt]
  by_cases hsilent : g.mode r = .silent
  · have hid : (fun found : Match ρ => (found.1, found.2)) = id := rfl
    simp [hsilent, shown, Tightness.inside, hid]
  · rcases attempt g n { s with tightness := s.tightness.inside (g.mode r) } (g.body r) place
      furthest with ⟨_ | ⟨q, ts⟩, f⟩
    · simp [hsilent]
    · simp [hsilent, shown]

end Clauses

/-! ### One step of the matcher

What the matcher gives for the parts of an expression, it gives for the expression with one more
unit of fuel. -/

/-- With so much fuel the matcher gives a result for a query, wherever the text stands and whatever
was matched before. -/
def Gives (g : Grammar ρ) (fuel : Nat) (t : Tightness) (query : Query ρ) (cs : List Char)
    (out : Found ρ) : Prop :=
  ∀ negated before found furthest,
    (query.run g fuel ⟨t, negated⟩ ⟨before, cs⟩ found furthest).1 =
      located before cs (query.before found) out

variable {fuel : Nat} {b : Peg ρ} {r : ρ} {es : List Char} {us : List (Tree ρ)}

theorem Gives.attempt_none (h : Gives g fuel t (.once a) cs none) (negated : Bool)
    (before furthest : Nat) :
    ∃ f, attempt g fuel ⟨t, negated⟩ a ⟨before, cs⟩ furthest = (none, f) :=
  ⟨_, Prod.ext (h negated before [] furthest) rfl⟩

theorem Gives.attempt_some (h : Gives g fuel t (.once a) cs (some (ds, ts))) (negated : Bool)
    (before furthest : Nat) :
    ∃ f, attempt g fuel ⟨t, negated⟩ a ⟨before, cs⟩ furthest =
      (some (⟨before + (cs.length - ds.length), ds⟩, ts), f) := by
  have hrun := h negated before [] furthest
  rw [Query.run, Query.before, located, List.append_nil] at hrun
  exact ⟨_, Prod.ext hrun rfl⟩

theorem gives_letter {e : Peg ρ} {p : Char → Bool} {c : Char} (he : letter? e = some p) (h : p c) :
    Gives g (fuel + 1) t (.once e) (c :: cs) (some (cs, [])) := by
  intro negated before found furthest
  simp [Query.run, attempt_letter _ _ _ _ _ he, bare, Place.char?, h, located, Query.before]

theorem gives_letter_none {e : Peg ρ} {p : Char → Bool} (he : letter? e = some p)
    (h : ∀ c ds, cs = c :: ds → p c = false) : Gives g (fuel + 1) t (.once e) cs none := by
  intro negated before found furthest
  cases cs with
  | nil => simp [Query.run, attempt_letter _ _ _ _ _ he, bare, Place.char?, located]
  | cons c cs =>
      simp [Query.run, attempt_letter _ _ _ _ _ he, bare, Place.char?, h c cs rfl, located]

theorem gives_literal {l : List Char} (h : cs = l ++ ds) :
    Gives g (fuel + 1) t (.once (.literal l)) cs (some (ds, [])) := by
  intro negated before found furthest
  simp [Query.run, attempt_literal, bare, literal?_eq _ _ _ _ h, located, Query.before]

theorem gives_literal_none {l : List Char} (h : ¬ l <+: cs) :
    Gives g (fuel + 1) t (.once (.literal l)) cs none := by
  intro negated before found furthest
  simp [Query.run, attempt_literal, bare, literal?_eq_none _ _ _ h, located]

theorem gives_endOfText : Gives g (fuel + 1) t (.once .endOfText) [] (some ([], [])) := by
  intro negated before found furthest
  simp [Query.run, attempt_endOfText, bare, located, Query.before]

theorem gives_endOfText_none {c : Char} :
    Gives g (fuel + 1) t (.once .endOfText) (c :: cs) none := by
  intro negated before found furthest
  simp [Query.run, attempt_endOfText, bare, located]

theorem Gives.seq (ha : Gives g fuel t (.once a) cs (some (ds, ts)))
    (hb : Gives g fuel t (.once b) (skipped t ds) (some (es, us))) (hds : ds.length ≤ cs.length)
    (hes : es.length ≤ (skipped t ds).length) :
    Gives g (fuel + 1) t (.once (.seq a b)) cs (some (es, us ++ ts)) := by
  intro negated before found furthest
  obtain ⟨f, hrun⟩ := ha.attempt_some negated before furthest
  obtain ⟨f', hrun'⟩ := hb.attempt_some negated
    (before + (cs.length - ds.length) + (ds.length - (skipped t ds).length)) f
  have hskip := (skipped_suffix t ds).length_le
  have hplace : before + (cs.length - ds.length) + (ds.length - (skipped t ds).length) +
      ((skipped t ds).length - es.length) = before + (cs.length - es.length) := by omega
  rw [hplace] at hrun'
  simp only [Query.run, attempt_seq, hrun, skip_eq, hrun', located, Query.before, List.append_nil]

theorem Gives.seq_first (ha : Gives g fuel t (.once a) cs none) :
    Gives g (fuel + 1) t (.once (.seq a b)) cs none := by
  intro negated before found furthest
  obtain ⟨f, hrun⟩ := ha.attempt_none negated before furthest
  simp only [Query.run, attempt_seq, hrun, located]

theorem Gives.seq_second (ha : Gives g fuel t (.once a) cs (some (ds, ts)))
    (hb : Gives g fuel t (.once b) (skipped t ds) none) :
    Gives g (fuel + 1) t (.once (.seq a b)) cs none := by
  intro negated before found furthest
  obtain ⟨f, hrun⟩ := ha.attempt_some negated before furthest
  obtain ⟨f', hrun'⟩ := hb.attempt_none negated
    (before + (cs.length - ds.length) + (ds.length - (skipped t ds).length)) f
  simp only [Query.run, attempt_seq, hrun, skip_eq, hrun', located]

theorem Gives.alt_first (ha : Gives g fuel t (.once a) cs (some (ds, ts))) :
    Gives g (fuel + 1) t (.once (.alt a b)) cs (some (ds, ts)) := by
  intro negated before found furthest
  obtain ⟨f, hrun⟩ := ha.attempt_some negated before furthest
  simp only [Query.run, attempt_alt, hrun, located, Query.before, List.append_nil]

theorem Gives.alt_second (ha : Gives g fuel t (.once a) cs none)
    (hb : Gives g fuel t (.once b) cs out) : Gives g (fuel + 1) t (.once (.alt a b)) cs out := by
  intro negated before found furthest
  obtain ⟨f, hrun⟩ := ha.attempt_none negated before furthest
  simp only [Query.run, attempt_alt, hrun]
  exact hb negated before found f

theorem Gives.many_none (ha : Gives g fuel t (.once a) cs none) :
    Gives g (fuel + 1) t (.once (.many a)) cs (some (cs, [])) := by
  intro negated before found furthest
  obtain ⟨f, hrun⟩ := ha.attempt_none negated before furthest
  simp [Query.run, attempt_many, hrun, located, Query.before]

theorem Gives.many (ha : Gives g fuel t (.once a) cs (some (ds, ts)))
    (hs : Gives g fuel t (.again a) ds (some (es, us))) (hds : ds.length ≤ cs.length)
    (hes : es.length ≤ ds.length) :
    Gives g (fuel + 1) t (.once (.many a)) cs (some (es, us ++ ts)) := by
  intro negated before found furthest
  obtain ⟨f, hrun⟩ := ha.attempt_some negated before furthest
  have hrest := hs negated (before + (cs.length - ds.length)) ts f
  have hplace : before + (cs.length - ds.length) + (ds.length - es.length) =
      before + (cs.length - es.length) := by omega
  simp only [Query.run, located, Query.before, hplace] at hrest
  simp only [Query.run, attempt_many, hrun, hrest, located, Query.before, List.append_nil]

theorem Gives.again_none (ha : Gives g fuel t (.once a) (skipped t cs) none) :
    Gives g (fuel + 1) t (.again a) cs (some (cs, [])) := by
  intro negated before found furthest
  obtain ⟨f, hrun⟩ :=
    ha.attempt_none negated (before + (cs.length - (skipped t cs).length)) furthest
  simp [Query.run, repeatFrom_succ, skip_eq, hrun, located, Query.before]

theorem Gives.again (ha : Gives g fuel t (.once a) (skipped t cs) (some (ds, ts)))
    (hs : Gives g fuel t (.again a) ds (some (es, us))) (hds : ds.length ≤ (skipped t cs).length)
    (hes : es.length ≤ ds.length) :
    Gives g (fuel + 1) t (.again a) cs (some (es, us ++ ts)) := by
  intro negated before found furthest
  obtain ⟨f, hrun⟩ :=
    ha.attempt_some negated (before + (cs.length - (skipped t cs).length)) furthest
  have hrest := hs negated (before + (cs.length - (skipped t cs).length) +
    ((skipped t cs).length - ds.length)) (ts ++ found) f
  have hskip := (skipped_suffix t cs).length_le
  have hplace : before + (cs.length - (skipped t cs).length) +
      ((skipped t cs).length - ds.length) + (ds.length - es.length) =
      before + (cs.length - es.length) := by omega
  simp only [Query.run, located, Query.before, hplace] at hrest
  simp only [Query.run, repeatFrom_succ, skip_eq, hrun, hrest, located, Query.before,
    List.append_assoc]

theorem Gives.optional_none (ha : Gives g fuel t (.once a) cs none) :
    Gives g (fuel + 1) t (.once (.optional a)) cs (some (cs, [])) := by
  intro negated before found furthest
  obtain ⟨f, hrun⟩ := ha.attempt_none negated before furthest
  simp [Query.run, attempt_optional, hrun, located, Query.before]

theorem Gives.optional (ha : Gives g fuel t (.once a) cs (some (ds, ts))) :
    Gives g (fuel + 1) t (.once (.optional a)) cs (some (ds, ts)) := by
  intro negated before found furthest
  obtain ⟨f, hrun⟩ := ha.attempt_some negated before furthest
  simp only [Query.run, attempt_optional, hrun, located, Query.before, List.append_nil]

theorem Gives.absent (ha : Gives g fuel t (.once a) cs none) :
    Gives g (fuel + 1) t (.once (.absent a)) cs (some (cs, [])) := by
  intro negated before found furthest
  obtain ⟨f, hrun⟩ := ha.attempt_none (!negated) before furthest
  simp [Query.run, attempt_absent, hrun, located, Query.before]

theorem Gives.absent_none (ha : Gives g fuel t (.once a) cs (some (ds, ts))) :
    Gives g (fuel + 1) t (.once (.absent a)) cs none := by
  intro negated before found furthest
  obtain ⟨f, hrun⟩ := ha.attempt_some (!negated) before furthest
  simp only [Query.run, attempt_absent, hrun, located]

theorem Gives.rule (h : Gives g fuel (t.inside (g.mode r)) (.once (g.body r)) cs (some (ds, ts))) :
    Gives g (fuel + 1) t (.once (.rule r)) cs
      (some (ds, shown g t r (cs.take (cs.length - ds.length)) ts)) := by
  intro negated before found furthest
  obtain ⟨f, hrun⟩ := h.attempt_some negated before furthest
  simp [Query.run, attempt_rule, hrun, located, Query.before]

theorem Gives.rule_none (h : Gives g fuel (t.inside (g.mode r)) (.once (g.body r)) cs none) :
    Gives g (fuel + 1) t (.once (.rule r)) cs none := by
  intro negated before found furthest
  obtain ⟨f, hrun⟩ := h.attempt_none negated before furthest
  simp [Query.run, attempt_rule, hrun, located]

/-! ### Enough fuel -/

/-- With the fuel that a query needs, the matcher gives the reading. -/
theorem Reads.gives {query : Query ρ} (hg : RankedBy g k) (h : Reads g t query cs out)
    (hfits : query.fits k) (fuel : Nat) (hfuel : query.need k cs.length ≤ fuel) :
    Gives g fuel t query cs out := by
  induction h generalizing fuel with
  | literal h =>
      obtain ⟨n, rfl, -⟩ := exists_fuel hfuel
      exact gives_literal h
  | literal_none h =>
      obtain ⟨n, rfl, -⟩ := exists_fuel hfuel
      exact gives_literal_none h
  | letter he h =>
      obtain ⟨n, rfl, -⟩ := exists_fuel hfuel
      exact gives_letter he h
  | letter_none he h =>
      obtain ⟨n, rfl, -⟩ := exists_fuel hfuel
      exact gives_letter_none he h
  | endOfText =>
      obtain ⟨n, rfl, -⟩ := exists_fuel hfuel
      exact gives_endOfText
  | endOfText_none =>
      obtain ⟨n, rfl, -⟩ := exists_fuel hfuel
      exact gives_endOfText_none
  | @seq t a b cs ds es ts us ha hb iha ihb =>
      obtain ⟨n, rfl, hless⟩ := exists_fuel hfuel
      have hparts := hfits
      simp only [Query.fits, Peg.fits, Bool.and_eq_true, decide_eq_true_eq] at hparts
      have hA := iha hparts.1.1 n (hless (need_lt (Peg.rank_lt_seq a b) _))
      have hB := ihb hparts.1.2 n (hless (need_second hg hfits ha))
      exact hA.seq hB ha.suffix.length_le hb.suffix.length_le
  | @seq_first t a b cs ha iha =>
      obtain ⟨n, rfl, hless⟩ := exists_fuel hfuel
      simp only [Query.fits, Peg.fits, Bool.and_eq_true] at hfits
      exact (iha hfits.1.1 n (hless (need_lt (Peg.rank_lt_seq a b) _))).seq_first
  | @seq_second t a b cs ds ts ha hb iha ihb =>
      obtain ⟨n, rfl, hless⟩ := exists_fuel hfuel
      have hparts := hfits
      simp only [Query.fits, Peg.fits, Bool.and_eq_true, decide_eq_true_eq] at hparts
      have hA := iha hparts.1.1 n (hless (need_lt (Peg.rank_lt_seq a b) _))
      have hB := ihb hparts.1.2 n (hless (need_second hg hfits ha))
      exact hA.seq_second hB
  | @alt_first t a b cs ds ts ha iha =>
      obtain ⟨n, rfl, hless⟩ := exists_fuel hfuel
      simp only [Query.fits, Peg.fits, Bool.and_eq_true] at hfits
      exact (iha hfits.1 n (hless (need_lt (Peg.rank_lt_alt a b).1 _))).alt_first
  | @alt_second t a b cs out ha hb iha ihb =>
      obtain ⟨n, rfl, hless⟩ := exists_fuel hfuel
      simp only [Query.fits, Peg.fits, Bool.and_eq_true] at hfits
      have hA := iha hfits.1 n (hless (need_lt (Peg.rank_lt_alt a b).1 _))
      have hB := ihb hfits.2 n (hless (need_lt (Peg.rank_lt_alt a b).2 _))
      exact hA.alt_second hB
  | many_none ha iha =>
      obtain ⟨n, rfl, hless⟩ := exists_fuel hfuel
      simp only [Query.fits, Peg.fits, Bool.and_eq_true] at hfits
      exact (iha hfits.1 n (hless (need_lt (Nat.lt_succ_self _) _))).many_none
  | @many t a cs ds es ts us ha hs iha ihs =>
      obtain ⟨n, rfl, hless⟩ := exists_fuel hfuel
      have hpart := hfits
      simp only [Query.fits, Peg.fits, Bool.and_eq_true, Bool.not_eq_true'] at hpart
      have hA := iha hpart.1 n (hless (need_lt (Nat.lt_succ_self _) _))
      have hS := ihs hfits n (hless (need_again hg a (ha.length_lt hg hpart.1 hpart.2)))
      exact hA.many hS ha.suffix.length_le hs.suffix.length_le
  | again_none ha iha =>
      obtain ⟨n, rfl, hless⟩ := exists_fuel hfuel
      simp only [Query.fits, Bool.and_eq_true] at hfits
      exact (iha hfits.1 n (hless (need_part _ _ _))).again_none
  | @again t a cs ds es ts us ha hs iha ihs =>
      obtain ⟨n, rfl, hless⟩ := exists_fuel hfuel
      have hpart := hfits
      simp only [Query.fits, Bool.and_eq_true, Bool.not_eq_true'] at hpart
      have hlt := lt_of_lt_of_le (ha.length_lt hg hpart.1 hpart.2) (skipped_suffix t cs).length_le
      have hA := iha hpart.1 n (hless (need_part _ _ _))
      have hS := ihs hfits n (hless (need_again hg a hlt))
      exact hA.again hS ha.suffix.length_le hs.suffix.length_le
  | optional_none ha iha =>
      obtain ⟨n, rfl, hless⟩ := exists_fuel hfuel
      exact (iha hfits n (hless (need_lt (Nat.lt_succ_self _) _))).optional_none
  | optional ha iha =>
      obtain ⟨n, rfl, hless⟩ := exists_fuel hfuel
      exact (iha hfits n (hless (need_lt (Nat.lt_succ_self _) _))).optional
  | absent ha iha =>
      obtain ⟨n, rfl, hless⟩ := exists_fuel hfuel
      exact (iha hfits n (hless (need_lt (Nat.lt_succ_self _) _))).absent
  | absent_none ha iha =>
      obtain ⟨n, rfl, hless⟩ := exists_fuel hfuel
      exact (iha hfits n (hless (need_lt (Nat.lt_succ_self _) _))).absent_none
  | @rule t r cs ds ts hr ih =>
      obtain ⟨n, rfl, hless⟩ := exists_fuel hfuel
      exact (ih (hg.fits_body r hfits) n (hless (need_rule hg hfits _))).rule
  | @rule_none t r cs hr ih =>
      obtain ⟨n, rfl, hless⟩ := exists_fuel hfuel
      exact (ih (hg.fits_body r hfits) n (hless (need_rule hg hfits _))).rule_none

end Grammar

end Stencil
