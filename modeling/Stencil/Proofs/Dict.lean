/-
Laws of dictionaries.

A dictionary is used in two ways.  What a key stands for is settled by `get?` alone, and the
laws about it hold for every list of pairs, in order or not.  How a dictionary is listed needs
the order: two dictionaries in ascending order with the same values under the same keys are the
same list.
-/
import Mathlib
import Stencil.Dict

namespace Stencil.Dict

variable {α β : Type}

/-! ## Looking up -/

@[simp] theorem get?_nil (key : String) : get? key ([] : Dict α) = none := rfl

theorem get?_cons (key k : String) (v : α) (d : Dict α) :
    get? key ((k, v) :: d) = if k = key then some v else get? key d := rfl

theorem get?_append (key : String) (d e : Dict α) :
    get? key (d ++ e) = (get? key d).or (get? key e) := by
  induction d with
  | nil => rfl
  | cons entry d ih =>
      obtain ⟨k, v⟩ := entry
      rw [List.cons_append, get?_cons, get?_cons, ih]
      by_cases h : k = key
      · simp [h]
      · simp [h]

theorem mem_of_get?_eq_some {key : String} {v : α} {d : Dict α} (h : d.get? key = some v) :
    (key, v) ∈ d := by
  induction d with
  | nil => simp at h
  | cons entry d ih =>
      obtain ⟨k, w⟩ := entry
      rw [get?_cons] at h
      by_cases hk : k = key
      · rw [if_pos hk] at h
        cases hk
        cases h
        exact List.mem_cons_self
      · rw [if_neg hk] at h
        exact List.mem_cons_of_mem _ (ih h)

theorem get?_eq_none_iff {key : String} {d : Dict α} : d.get? key = none ↔ key ∉ d.keys := by
  induction d with
  | nil => simp [keys]
  | cons entry d ih =>
      obtain ⟨k, w⟩ := entry
      rw [get?_cons]
      by_cases hk : k = key
      · simp [keys, hk]
      · have hk' : ¬ key = k := fun h => hk h.symm
        simpa [keys, hk, hk'] using ih

theorem hasKey_iff_mem_keys {key : String} {d : Dict α} : d.hasKey key ↔ key ∈ d.keys := by
  rw [hasKey, Option.isSome_iff_ne_none, Ne, get?_eq_none_iff, not_not]

theorem mem_keys_of_get?_eq_some {key : String} {v : α} {d : Dict α}
    (h : d.get? key = some v) : key ∈ d.keys := by
  rw [← hasKey_iff_mem_keys, hasKey, h]
  rfl

theorem hasKey_iff_exists {key : String} {d : Dict α} :
    d.hasKey key ↔ ∃ v, d.get? key = some v := by
  rw [hasKey, Option.isSome_iff_exists]

/-- Where no key occurs twice, the entries are the values that are found. -/
theorem get?_eq_some_iff_mem {key : String} {v : α} {d : Dict α} (hd : d.keys.Nodup) :
    d.get? key = some v ↔ (key, v) ∈ d := by
  refine ⟨mem_of_get?_eq_some, fun hmem => ?_⟩
  induction d with
  | nil => cases hmem
  | cons entry d ih =>
      obtain ⟨k, w⟩ := entry
      have hd' : k ∉ keys d ∧ (keys d).Nodup := List.nodup_cons.mp hd
      rw [get?_cons]
      rcases List.mem_cons.mp hmem with heq | hmem
      · cases heq
        simp
      · have hk : k ≠ key := by
          rintro rfl
          exact hd'.1 (List.mem_map_of_mem (f := Prod.fst) hmem)
        rw [if_neg hk]
        exact ih hd'.2 hmem

/-! ## Inserting -/

/-- A look-up after an insertion finds the new value under its key and the old ones elsewhere,
whatever the order of the pairs is. -/
theorem get?_insert (key k : String) (v : α) (d : Dict α) :
    (d.insert k v).get? key = if k = key then some v else d.get? key := by
  induction d with
  | nil => rfl
  | cons entry d ih =>
      obtain ⟨l, w⟩ := entry
      rw [insert]
      split
      next h =>
        rw [get?_cons, get?_cons]
        by_cases hk : k = key
        · simp [hk]
        · have hl : l ≠ key := fun hl => hk (h.trans hl)
          simp [hk, hl]
      next h =>
        split
        next _ => rfl
        next _ =>
          rw [get?_cons, get?_cons, ih]
          by_cases hk : k = key
          · have hl : l ≠ key := fun hl => h (hk.trans hl.symm)
            simp [hk, hl]
          · simp [hk]

@[simp] theorem get?_insert_self (k : String) (v : α) (d : Dict α) :
    (d.insert k v).get? k = some v := by
  rw [get?_insert, if_pos rfl]

theorem get?_insert_ne {key k : String} (h : k ≠ key) (v : α) (d : Dict α) :
    (d.insert k v).get? key = d.get? key := by
  rw [get?_insert, if_neg h]

/-- Overriding puts the pairs of the upper dictionary over the lower one, the later pairs over
the earlier ones. -/
theorem get?_override (key : String) (d top : Dict α) :
    (override d top).get? key = (get? key top.reverse).or (d.get? key) := by
  induction top generalizing d with
  | nil => rfl
  | cons entry top ih =>
      obtain ⟨k, v⟩ := entry
      show (override (d.insert k v) top).get? key = _
      rw [ih, get?_insert, List.reverse_cons, get?_append, Option.or_assoc]
      by_cases hk : k = key
      · simp [get?_cons, hk]
      · simp [get?_cons, hk]

theorem get?_ofPairs (key : String) (pairs : List (String × α)) :
    (ofPairs pairs).get? key = get? key pairs.reverse := by
  have h := get?_override key [] pairs
  rwa [get?_nil, Option.or_none] at h

theorem get?_reverse {key : String} {d : Dict α} (hd : d.keys.Nodup) :
    get? key d.reverse = d.get? key := by
  have hr : (keys d.reverse).Nodup := by
    rw [keys, List.map_reverse]
    exact List.nodup_reverse.mpr hd
  cases h : d.get? key with
  | some v =>
      rw [get?_eq_some_iff_mem hd] at h
      rw [get?_eq_some_iff_mem hr]
      exact List.mem_reverse.mpr h
  | none =>
      rw [get?_eq_none_iff] at h ⊢
      rwa [keys, List.map_reverse, List.mem_reverse]

/-- The dictionary of pairs in which no key occurs twice finds what the pairs list. -/
theorem get?_ofPairs_of_nodup {key : String} {pairs : List (String × α)}
    (h : (keys pairs).Nodup) : (ofPairs pairs).get? key = get? key pairs := by
  rw [get?_ofPairs, get?_reverse h]

/-! ## The order -/

/-- The keys stand in ascending order, and none occurs twice. -/
def Ascending (d : Dict α) : Prop := d.keys.Pairwise (· < ·)

instance (d : Dict α) : Decidable (Ascending d) :=
  inferInstanceAs (Decidable (d.keys.Pairwise (· < ·)))

theorem ascending_nil : Ascending ([] : Dict α) := List.Pairwise.nil

theorem Ascending.nodup {d : Dict α} (h : Ascending d) : d.keys.Nodup :=
  h.imp fun hlt => ne_of_lt hlt

theorem mem_keys_insert {key k : String} {v : α} {d : Dict α} :
    key ∈ (d.insert k v).keys ↔ key = k ∨ key ∈ d.keys := by
  rw [← hasKey_iff_mem_keys, ← hasKey_iff_mem_keys, hasKey, hasKey, get?_insert]
  by_cases hk : k = key
  · simp [hk]
  · have hk' : ¬ key = k := fun h => hk h.symm
    simp [hk, hk']

theorem mem_insert {entry : String × α} {k : String} {v : α} {d : Dict α}
    (h : entry ∈ d.insert k v) : entry = (k, v) ∨ entry ∈ d := by
  induction d with
  | nil => exact .inl (List.mem_singleton.mp h)
  | cons first d ih =>
      rw [Dict.insert] at h
      split at h
      · rcases List.mem_cons.mp h with rfl | h
        · exact .inl rfl
        · exact .inr (List.mem_cons_of_mem _ h)
      · split at h
        · rcases List.mem_cons.mp h with rfl | h
          · exact .inl rfl
          · exact .inr h
        · rcases List.mem_cons.mp h with rfl | h
          · exact .inr List.mem_cons_self
          · exact (ih h).imp_right (List.mem_cons_of_mem _)

theorem Ascending.insert {d : Dict α} (h : Ascending d) (k : String) (v : α) :
    Ascending (d.insert k v) := by
  induction d with
  | nil => exact List.pairwise_singleton _ _
  | cons entry d ih =>
      obtain ⟨l, w⟩ := entry
      have hd : (∀ key ∈ keys d, l < key) ∧ Ascending d := List.pairwise_cons.mp h
      rw [Dict.insert]
      split
      next hk =>
        cases hk
        exact List.pairwise_cons.mpr hd
      next hk =>
        split
        next hlt =>
          refine List.pairwise_cons.mpr ⟨fun key hkey => ?_, h⟩
          rcases List.mem_cons.mp hkey with rfl | hkey
          · exact hlt
          · exact lt_trans hlt (hd.1 key hkey)
        next hlt =>
          have hlk : l < k := lt_of_le_of_ne (not_lt.mp hlt) fun h => hk h.symm
          refine List.pairwise_cons.mpr ⟨fun key hkey => ?_, ih hd.2⟩
          rcases mem_keys_insert.mp hkey with rfl | hkey
          · exact hlk
          · exact hd.1 key hkey

theorem Ascending.override {d : Dict α} (h : Ascending d) (top : Dict α) :
    Ascending (override d top) := by
  induction top generalizing d with
  | nil => exact h
  | cons entry top ih => exact ih (h.insert entry.1 entry.2)

theorem ascending_ofPairs (pairs : List (String × α)) : Ascending (ofPairs pairs) :=
  ascending_nil.override pairs

theorem mem_keys_ofPairs {key : String} {pairs : List (String × α)} (h : (keys pairs).Nodup) :
    key ∈ (ofPairs pairs).keys ↔ key ∈ keys pairs := by
  rw [← hasKey_iff_mem_keys, ← hasKey_iff_mem_keys, hasKey, hasKey, get?_ofPairs_of_nodup h]

/-- The dictionary of pairs in which no key occurs twice has an entry for each of them. -/
theorem length_ofPairs {pairs : List (String × α)} (h : (keys pairs).Nodup) :
    (ofPairs pairs).length = pairs.length := by
  have hperm : (keys (ofPairs pairs)).Perm (keys pairs) :=
    (List.perm_ext_iff_of_nodup (ascending_ofPairs pairs).nodup h).mpr fun _ => mem_keys_ofPairs h
  simpa [keys] using hperm.length_eq

/-- The dictionary of pairs of names and what was found for them finds it under the names. -/
theorem exists_get?_ofPairs_zip {ι : Type} {f : ι → String} {l : List ι} {found : List α}
    {R : ι → α → Prop} (hnodup : (l.map f).Nodup) (h : List.Forall₂ R l found) {i : ι}
    (hi : i ∈ l) : ∃ v, (ofPairs ((l.map f).zip found)).get? (f i) = some v ∧ R i v := by
  have hkeys : keys ((l.map f).zip found) = l.map f :=
    List.map_fst_zip (by rw [List.length_map, h.length_eq])
  rw [get?_ofPairs_of_nodup (by rwa [hkeys])]
  clear hkeys
  induction h with
  | nil => cases hi
  | @cons j v l found hv _ ih =>
      rw [List.map_cons, List.nodup_cons] at hnodup
      rw [List.map_cons, List.zip_cons_cons, get?_cons]
      rcases List.mem_cons.mp hi with rfl | hi
      · exact ⟨v, if_pos rfl, hv⟩
      · have hne : f j ≠ f i := fun heq => hnodup.1 (heq ▸ List.mem_map_of_mem hi)
        rw [if_neg hne]
        exact ih hnodup.2 hi

/-- A dictionary in order is settled by what it finds. -/
theorem Ascending.ext {d e : Dict α} (hd : Ascending d) (he : Ascending e)
    (h : ∀ key, d.get? key = e.get? key) : d = e := by
  have hperm : d.Perm e := by
    refine (List.perm_ext_iff_of_nodup hd.nodup.of_map he.nodup.of_map).mpr ?_
    rintro ⟨key, v⟩
    rw [← get?_eq_some_iff_mem hd.nodup, ← get?_eq_some_iff_mem he.nodup, h]
  have hd' : List.Pairwise (fun a b : String × α => a.1 < b.1) d := List.pairwise_map.mp hd
  have he' : List.Pairwise (fun a b : String × α => a.1 < b.1) e := List.pairwise_map.mp he
  exact hperm.eq_of_pairwise (fun a b _ _ hab hba => absurd hba (not_lt.mpr hab.le)) hd' he'

/-- A dictionary in order is the dictionary of its own pairs. -/
theorem Ascending.ofPairs_eq {d : Dict α} (h : Ascending d) : ofPairs d = d :=
  (ascending_ofPairs d).ext h fun _ => get?_ofPairs_of_nodup h.nodup

/-! ## Applying a function to the values -/

theorem get?_mapValues (f : α → β) (key : String) (d : Dict α) :
    (d.mapValues f).get? key = (d.get? key).map f := by
  induction d with
  | nil => rfl
  | cons entry d ih =>
      show get? key ((entry.1, f entry.2) :: mapValues f d) = (get? key (entry :: d)).map f
      rw [get?_cons, get?_cons, ih]
      by_cases h : entry.1 = key
      · simp [h]
      · simp [h]

theorem mapValues_insert (f : α → β) (key : String) (v : α) (d : Dict α) :
    (d.insert key v).mapValues f = (d.mapValues f).insert key (f v) := by
  induction d with
  | nil => rfl
  | cons entry d ih =>
      obtain ⟨k, w⟩ := entry
      show (insert key v ((k, w) :: d)).mapValues f = insert key (f v) ((k, f w) :: mapValues f d)
      rw [insert, insert]
      split
      · rfl
      · split
        · rfl
        · rw [← ih]
          rfl

theorem mapValues_ofPairs (f : α → β) (pairs : List (String × α)) :
    (ofPairs pairs).mapValues f = ofPairs (pairs.map fun pair => (pair.1, f pair.2)) := by
  suffices ∀ d : Dict α, (override d pairs).mapValues f =
      override (d.mapValues f) (pairs.map fun pair => (pair.1, f pair.2)) by
    exact this []
  induction pairs with
  | nil => exact fun _ => rfl
  | cons entry pairs ih =>
      intro d
      show (override (d.insert entry.1 entry.2) pairs).mapValues f = _
      rw [ih, mapValues_insert]
      rfl

end Stencil.Dict
