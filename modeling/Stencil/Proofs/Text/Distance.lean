/-
Edit distances.

The table of distances is filled from the fronts of two texts, and the last of its entries is the
least number of edits that turn the one text into the other.  An edit changes the distance to any
text by at most one, so no row of edits is shorter; and what the recursion on the first characters
counts is done by as many edits.  The edits of two texts read backwards are the edits of the texts
read backwards, so the recursion may just as well look at the last characters, as the table does.
-/
import Mathlib
import Stencil.Text.Distance

namespace Stencil.Text

variable {n : Nat} {c d : Char} {source target : List Char}

/-! ## Edits -/

/-- One edit of a text: a character is put in, taken out, or put in the place of another one. -/
inductive Edit : List Char → List Char → Prop
  | insert (before : List Char) (c : Char) (after : List Char) :
      Edit (before ++ after) (before ++ c :: after)
  | delete (before : List Char) (c : Char) (after : List Char) :
      Edit (before ++ c :: after) (before ++ after)
  | replace (before : List Char) (c d : Char) (after : List Char) :
      Edit (before ++ c :: after) (before ++ d :: after)

/-- One text becomes another by so many edits, one after another. -/
inductive Edits : Nat → List Char → List Char → Prop
  | refl (text : List Char) : Edits 0 text text
  | step {n : Nat} {source between target : List Char} (h : Edit source between)
      (hrest : Edits n between target) : Edits (n + 1) source target

theorem Edit.cons (c : Char) (h : Edit source target) : Edit (c :: source) (c :: target) := by
  cases h with
  | insert before d after => exact .insert (c :: before) d after
  | delete before d after => exact .delete (c :: before) d after
  | replace before d e after => exact .replace (c :: before) d e after

theorem Edits.cons (c : Char) (h : Edits n source target) :
    Edits n (c :: source) (c :: target) := by
  induction h with
  | refl text => exact .refl _
  | step h _ ih => exact .step (h.cons c) ih

theorem Edit.reverse (h : Edit source target) : Edit source.reverse target.reverse := by
  cases h with
  | insert before c after => simpa using Edit.insert after.reverse c before.reverse
  | delete before c after => simpa using Edit.delete after.reverse c before.reverse
  | replace before c d after => simpa using Edit.replace after.reverse c d before.reverse

theorem Edits.reverse (h : Edits n source target) : Edits n source.reverse target.reverse := by
  induction h with
  | refl text => exact .refl _
  | step h _ ih => exact .step h.reverse ih

/-! ## Distances by recursion -/

/-- The distance of two texts, by recursion on both. -/
def distance : List Char → List Char → Nat
  | [], target => target.length
  | c :: source, [] => (c :: source).length
  | c :: source, d :: target =>
    min (min (distance (c :: source) target + 1) (distance source (d :: target) + 1))
      (if c = d then distance source target else distance source target + 1)
termination_by source target => source.length + target.length

theorem distance_nil_left (target : List Char) : distance [] target = target.length := by
  rw [distance]

theorem distance_nil_right (source : List Char) : distance source [] = source.length := by
  cases source <;> rw [distance]

theorem distance_cons_cons (c d : Char) (source target : List Char) :
    distance (c :: source) (d :: target) =
      min (min (distance (c :: source) target + 1) (distance source (d :: target) + 1))
        (if c = d then distance source target else distance source target + 1) := by
  rw [distance]

theorem distance_self (text : List Char) : distance text text = 0 := by
  induction text with
  | nil => exact distance_nil_left []
  | cons c text ih => simp [distance_cons_cons, ih]

/-! ### An edit changes a distance by at most one -/

theorem distance_cons_left_le (c : Char) (source target : List Char) :
    distance (c :: source) target ≤ distance source target + 1 := by
  cases target with
  | nil => simp [distance_nil_right]
  | cons d target =>
      rw [distance_cons_cons]
      omega

theorem distance_cons_right_le (d : Char) (source target : List Char) :
    distance source (d :: target) ≤ distance source target + 1 := by
  cases source with
  | nil => simp [distance_nil_left]
  | cons c source =>
      rw [distance_cons_cons]
      omega

theorem distance_le_cons_left (c : Char) (source target : List Char) :
    distance source target ≤ distance (c :: source) target + 1 := by
  induction target with
  | nil => simp only [distance_nil_right, List.length_cons]; omega
  | cons d target ih =>
      have hright := distance_cons_right_le d source target
      rw [distance_cons_cons]
      split <;> omega

theorem distance_replace_le (c d : Char) (source target : List Char) :
    distance (c :: source) target ≤ distance (d :: source) target + 1 := by
  induction target with
  | nil => simp [distance_nil_right]
  | cons e target ih =>
      rw [distance_cons_cons, distance_cons_cons]
      split <;> split <;> omega

/-- What holds of the distances of two texts holds of them behind a common character. -/
theorem distance_cons_le {source between : List Char}
    (h : ∀ target, distance source target ≤ distance between target + 1) (c : Char)
    (target : List Char) :
    distance (c :: source) target ≤ distance (c :: between) target + 1 := by
  induction target with
  | nil =>
      have hnil := h []
      simp only [distance_nil_right, List.length_cons] at hnil ⊢
      omega
  | cons d target ih =>
      have hrest := h target
      have hcons := h (d :: target)
      rw [distance_cons_cons, distance_cons_cons]
      split <;> omega

theorem distance_append_le {source between : List Char}
    (h : ∀ target, distance source target ≤ distance between target + 1) (before : List Char)
    (target : List Char) :
    distance (before ++ source) target ≤ distance (before ++ between) target + 1 := by
  induction before generalizing target with
  | nil => exact h target
  | cons c before ih => exact distance_cons_le ih c target

theorem Edit.distance_le {between : List Char} (h : Edit source between) (target : List Char) :
    distance source target ≤ distance between target + 1 := by
  cases h with
  | insert before c after => exact distance_append_le (distance_le_cons_left c after) before target
  | delete before c after => exact distance_append_le (distance_cons_left_le c after) before target
  | replace before c d after =>
      exact distance_append_le (distance_replace_le c d after) before target

/-- No row of edits is shorter than the distance. -/
theorem Edits.distance_le (h : Edits n source target) : distance source target ≤ n := by
  induction h with
  | refl text => exact (distance_self text).le
  | step h _ ih => exact (h.distance_le _).trans (Nat.add_le_add_right ih 1)

/-! ### As many edits are enough -/

theorem Edits.min {m : Nat} (hm : Edits m source target) (hn : Edits n source target) :
    Edits (min m n) source target := by
  rcases min_choice m n with h | h
  · rwa [h]
  · rwa [h]

theorem edits_insert_all (target : List Char) : Edits target.length [] target := by
  induction target with
  | nil => exact .refl []
  | cons d target ih => exact .step (.insert [] d []) (ih.cons d)

theorem edits_delete_all (source : List Char) : Edits source.length source [] := by
  induction source with
  | nil => exact .refl []
  | cons c source ih => exact .step (.delete [] c source) ih

theorem edits_distance (source target : List Char) :
    Edits (distance source target) source target := by
  induction source, target using distance.induct with
  | case1 target =>
      rw [distance_nil_left]
      exact edits_insert_all target
  | case2 c source =>
      rw [distance_nil_right]
      exact edits_delete_all (c :: source)
  | case3 c source d target ihInsert ihDelete ihKeep =>
      have hinsert : Edits (distance (c :: source) target + 1) (c :: source) (d :: target) :=
        .step (.insert [] d (c :: source)) (ihInsert.cons d)
      have hdelete : Edits (distance source (d :: target) + 1) (c :: source) (d :: target) :=
        .step (.delete [] c source) ihDelete
      have hkeep : Edits (if c = d then distance source target else distance source target + 1)
          (c :: source) (d :: target) := by
        split
        next hc =>
          subst hc
          exact ihKeep.cons c
        next => exact .step (.replace [] c d source) (ihKeep.cons d)
      rw [distance_cons_cons]
      exact (hinsert.min hdelete).min hkeep

/-- The distance of two texts is the least number of edits. -/
theorem isLeast_distance (source target : List Char) :
    IsLeast {n | Edits n source target} (distance source target) :=
  ⟨edits_distance source target, fun _ h => Edits.distance_le h⟩

/-! ### Reading backwards -/

theorem distance_reverse (source target : List Char) :
    distance source.reverse target.reverse = distance source target := by
  refine le_antisymm (edits_distance source target).reverse.distance_le ?_
  have h := (edits_distance source.reverse target.reverse).reverse.distance_le
  rwa [List.reverse_reverse, List.reverse_reverse] at h

/-- The recursion from the last characters. -/
theorem distance_concat_concat (source target : List Char) (c d : Char) :
    distance (source ++ [c]) (target ++ [d]) =
      min (min (distance (source ++ [c]) target + 1) (distance source (target ++ [d]) + 1))
        (if c = d then distance source target else distance source target + 1) := by
  have h := distance_cons_cons c d source.reverse target.reverse
  simpa only [← List.reverse_concat, distance_reverse] using h

/-! ## The table -/

/-- The distances of a text to a front of another one and to all longer fronts. -/
def entries (source : List Char) : (front rest : List Char) → List Nat
  | front, [] => [distance source front]
  | front, d :: rest => distance source front :: entries source (front ++ [d]) rest

theorem entries_eq_cons (source front rest : List Char) :
    ∃ longer, entries source front rest = distance source front :: longer := by
  cases rest <;> exact ⟨_, rfl⟩

/-- The first row holds the numbers of characters to put in. -/
theorem entries_nil (front rest : List Char) :
    entries [] front rest = List.range' front.length (rest.length + 1) := by
  induction rest generalizing front with
  | nil => simp [entries, distance_nil_left]
  | cons d rest ih =>
      rw [entries, ih, distance_nil_left]
      simp [List.range'_succ]

theorem getLast?_entries (source front rest : List Char) :
    (entries source front rest).getLast? = some (distance source (front ++ rest)) := by
  induction rest generalizing front with
  | nil => simp [entries]
  | cons d rest ih =>
      obtain ⟨longer, hlonger⟩ := entries_eq_cons source (front ++ [d]) rest
      have hlast := ih (front ++ [d])
      rw [entries]
      rw [hlonger] at hlast ⊢
      rw [List.getLast?_cons_cons, hlast, List.append_assoc, List.singleton_append]

/-- Every entry behind the first comes from the one in front of it and the two above. -/
theorem nextEntries_entries (source front rest : List Char) (c : Char) :
    nextEntries c (distance (source ++ [c]) front)
        (rest.zip ((entries source front rest).zip (entries source front rest).tail)) =
      (entries (source ++ [c]) front rest).tail := by
  induction rest generalizing front with
  | nil => simp [nextEntries, entries]
  | cons d rest ih =>
      have hrest := ih (front ++ [d])
      obtain ⟨longer, hlonger⟩ := entries_eq_cons source (front ++ [d]) rest
      obtain ⟨longer', hlonger'⟩ := entries_eq_cons (source ++ [c]) (front ++ [d]) rest
      rw [hlonger, hlonger', List.tail_cons, List.tail_cons] at hrest
      rw [entries, entries, hlonger, hlonger', List.tail_cons, List.tail_cons, List.zip_cons_cons,
        List.zip_cons_cons, nextEntries, ← distance_concat_concat, hrest]

theorem nextRow_entries (source target : List Char) (c : Char) :
    nextRow target (entries source [] target) c = entries (source ++ [c]) [] target := by
  have hnext := nextEntries_entries source [] target c
  have hfirst : distance (source ++ [c]) [] = distance source [] + 1 := by
    simp [distance_nil_right]
  obtain ⟨longer, hlonger⟩ := entries_eq_cons source [] target
  obtain ⟨longer', hlonger'⟩ := entries_eq_cons (source ++ [c]) [] target
  rw [hlonger, hlonger', List.tail_cons, List.tail_cons, hfirst] at hnext
  rw [hlonger, hlonger', nextRow, hfirst, hnext]

theorem foldl_nextRow_entries (front source target : List Char) :
    source.foldl (nextRow target) (entries front [] target) =
      entries (front ++ source) [] target := by
  induction source generalizing front with
  | nil => simp
  | cons c source ih =>
      rw [List.foldl_cons, nextRow_entries, ih, List.append_assoc, List.singleton_append]

theorem editDistance_eq_distance (source target : List Char) :
    editDistance source target = distance source target := by
  have hfirst : List.range (target.length + 1) = entries [] [] target := by
    rw [entries_nil, List.range_eq_range', List.length_nil]
  rw [editDistance, hfirst, foldl_nextRow_entries, getLast?_entries, List.nil_append,
    List.nil_append, Option.getD_some]

/-- The last entry of the table is the least number of edits. -/
theorem isLeast_editDistance (source target : List Char) :
    IsLeast {n | Edits n source target} (editDistance source target) := by
  rw [editDistance_eq_distance]
  exact isLeast_distance source target

end Stencil.Text
