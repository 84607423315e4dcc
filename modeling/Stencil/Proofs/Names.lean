/-
Rows of names.

Where a row of names counts each name once, at its first occurrence, what counts is the row with its
later repetitions erased.  The names that are left are all different, stand in the order of their
first occurrences, and are not changed by one more occurrence behind the first.
-/
import Mathlib

namespace Stencil.Names

theorem nodup_eraseDups (l : List String) : l.eraseDups.Nodup := by
  induction hn : l.length using Nat.strong_induction_on generalizing l with
  | _ n ih =>
      cases l with
      | nil => exact List.nodup_nil
      | cons a as =>
          rw [List.eraseDups_cons, List.nodup_cons, List.mem_eraseDups, List.mem_filter]
          refine ⟨by simp, ih _ ?_ _ rfl⟩
          have hle := List.length_filter_le (fun b => !b == a) as
          rw [← hn, List.length_cons]
          omega

theorem eraseDups_of_nodup {l : List String} (h : l.Nodup) : l.eraseDups = l := by
  induction l with
  | nil => rfl
  | cons a as ih =>
      obtain ⟨ha, has⟩ := List.nodup_cons.mp h
      have hkept : as.filter (fun b => !b == a) = as := by
        refine List.filter_eq_self.mpr fun b hb => ?_
        have hne : b ≠ a := fun heq => ha (heq ▸ hb)
        simpa using hne
      rw [List.eraseDups_cons, hkept, ih has]

/-- There are at most as many different names as names. -/
theorem length_eraseDups_le (l : List String) : l.eraseDups.length ≤ l.length :=
  ((nodup_eraseDups l).subperm fun _ h => List.mem_eraseDups.mp h).length_le

/-- There are as many exactly if all are different. -/
theorem length_eraseDups_eq_iff {l : List String} : l.eraseDups.length = l.length ↔ l.Nodup := by
  constructor
  · intro h
    have hsub := (nodup_eraseDups l).subperm fun _ h => List.mem_eraseDups.mp h
    exact (hsub.perm_of_length_le h.ge).nodup_iff.mp (nodup_eraseDups l)
  · intro h
    rw [eraseDups_of_nodup h]

/-- Among the names of a list that are chosen, each taken once, the earlier ones occur first in the
whole list. -/
theorem pairwise_eraseDups_filter (p : String → Bool) (l : List String) :
    (l.filter p).eraseDups.Pairwise fun a b => l.idxOf a < l.idxOf b := by
  induction l generalizing p with
  | nil => exact .nil
  | cons a l ih =>
      -- In front of a list without `a` the order of the occurrences stays.
      have hbehind : ∀ q : String → Bool, q a = false →
          (l.filter q).eraseDups.Pairwise fun b c => (a :: l).idxOf b < (a :: l).idxOf c := by
        intro q hq
        have hne : ∀ b ∈ (l.filter q).eraseDups, a ≠ b := by
          rintro b hb rfl
          rw [List.mem_eraseDups, List.mem_filter, hq] at hb
          exact Bool.false_ne_true hb.2
        refine (ih q).imp_of_mem fun {b c} hb hc h => ?_
        rw [List.idxOf_cons_ne _ (hne b hb), List.idxOf_cons_ne _ (hne c hc)]
        exact Nat.succ_lt_succ h
      cases ha : p a with
      | false =>
          rw [List.filter_cons_of_neg (by simp [ha])]
          exact hbehind p ha
      | true =>
          rw [List.filter_cons_of_pos ha, List.eraseDups_cons, List.filter_filter]
          refine .cons (fun b hb => ?_) (hbehind _ (by simp))
          have hne : a ≠ b := by
            rintro rfl
            simp at hb
          rw [List.idxOf_cons_self, List.idxOf_cons_ne _ hne]
          exact Nat.succ_pos _

/-- One more occurrence of a name behind another one leaves no trace. -/
theorem eraseDups_insert {name : String} {before : List String} (h : name ∈ before)
    (after : List String) :
    (before ++ name :: after).eraseDups = (before ++ after).eraseDups := by
  have hcons : (name :: after).removeAll before = after.removeAll before :=
    List.filter_cons_of_neg (by simp [h])
  rw [List.eraseDups_append, List.eraseDups_append, hcons]

end Stencil.Names
