/-
Writing all modules of a build.

`write` takes a name in two ways: as the identifier of a module if it starts with the plugin and
the separator, and as the identifier of a template otherwise.  `writeAll` hands it the identifiers
of templates.  An identifier of a template that starts like that of a module is therefore taken
for another template, and its own module is never written.  All modules of a build are written
exactly if no template is named so.
-/
import Mathlib
import Stencil.Build.Sink
import Stencil.Proofs.Activity
import Stencil.Proofs.Build.ModuleId
import Stencil.Proofs.Dict

namespace Stencil

open ModuleDefinition (templateOf? templateOf?_eq_some_iff templateOf?_moduleId)

/-- What a writer returns and what it leaves in a dictionary that was empty. -/
def Writing.collect {α : Type} (w : Writing (Dict String) α) : Except Error α × Dict String :=
  w.run.run []

namespace BuildSession

/-- The session that some records leave, given in order to a fresh one. -/
def ofRecords (records : List BuildRecord) : BuildSession :=
  records.foldl (fun s r => (record r s).2) []

theorem ascending_record {s : BuildSession} (h : Dict.Ascending s) (r : BuildRecord) :
    Dict.Ascending (record r s).2 := by
  rw [record]
  split
  · exact h
  · exact h.insert _ _

theorem ascending_ofRecords (records : List BuildRecord) :
    Dict.Ascending (ofRecords records) := by
  suffices ∀ s : BuildSession, Dict.Ascending s →
      Dict.Ascending (records.foldl (fun s r => (record r s).2) s) by
    exact this [] Dict.ascending_nil
  induction records with
  | nil => exact fun _ h => h
  | cons r records ih => exact fun s h => ih _ (ascending_record h r)

/-- The modules of a session by their identifiers: one for every record. -/
def modules (plugin : String) (s : BuildSession) : Dict String :=
  Dict.ofPairs (s.map fun entry => (moduleId plugin entry.1, ModuleText.write plugin entry.2))

/-- The template whose module `write` takes a name for. -/
def target (plugin name : String) : String := (templateOf? plugin name).getD name

/-- Whether the name of a template starts like the identifier of a module. -/
def Marked (plugin name : String) : Prop := ∃ rest, name = moduleId plugin rest

theorem target_moduleId (plugin name : String) : target plugin (moduleId plugin name) = name := by
  rw [target, templateOf?_moduleId]
  rfl

theorem target_of_not_marked {plugin name : String} (h : ¬ Marked plugin name) :
    target plugin name = name := by
  have hnone : templateOf? plugin name = none := by
    cases ht : templateOf? plugin name with
    | none => rfl
    | some rest => exact absurd ⟨rest, templateOf?_eq_some_iff.mp ht⟩ h
  rw [target, hnone]
  rfl

theorem length_lt_moduleId (plugin name : String) :
    name.length < (moduleId plugin name).length := by
  rw [← String.length_toList, ← String.length_toList, toList_moduleId]
  simp
  omega

/-! ## One module

A sink gets the record of the target and nothing else, whichever sink it is. -/

theorem write_of_recorded {σ : Type} {plugin name : String} {s : BuildSession} {r : BuildRecord}
    (h : Dict.get? (target plugin name) s = some r) (sink : Sink σ) :
    s.write plugin name sink = do
      sink.write (moduleId plugin (target plugin name)) (ModuleText.write plugin r)
      return true := by
  rw [target] at h
  simp only [write, h]
  rfl

theorem write_of_not_recorded {σ : Type} {plugin name : String} {s : BuildSession}
    (h : Dict.get? (target plugin name) s = none) (sink : Sink σ) :
    s.write plugin name sink = return false := by
  rw [target] at h
  simp only [write, h]

/-- What a dictionary holds after a module was asked for. -/
def delivered (plugin : String) (s : BuildSession) (d : Dict String) (name : String) :
    Dict String :=
  match Dict.get? (target plugin name) s with
  | none => d
  | some r => d.insert (moduleId plugin (target plugin name)) (ModuleText.write plugin r)

theorem write_dict (plugin name : String) (s : BuildSession) (d : Dict String) :
    (s.write plugin name Sink.dict).run.run d =
      (.ok (Dict.hasKey (target plugin name) s), s.delivered plugin d name) := by
  cases h : Dict.get? (target plugin name) s with
  | none =>
      rw [write_of_not_recorded h, delivered, Dict.hasKey, h]
      rfl
  | some r =>
      rw [write_of_recorded h, delivered, Dict.hasKey, h]
      rfl

/-! ## All modules -/

theorem writeEach_dict (plugin : String) (s : BuildSession) (ids : List String)
    (d : Dict String) :
    (s.writeEach plugin Sink.dict ids).run.run d =
      (.ok (ids.countP fun id => Dict.hasKey (target plugin id) s),
        ids.foldl (s.delivered plugin) d) := by
  induction ids generalizing d with
  | nil => rfl
  | cons id rest ih =>
      rw [writeEach, Activity.run_bind_of_ok (write_dict plugin id s d),
        Activity.run_bind_of_ok (ih (s.delivered plugin d id)), Activity.run_pure,
        List.countP_cons, Nat.add_comm]
      rfl

theorem get?_delivered_target (plugin name : String) (s : BuildSession) (d : Dict String) :
    (s.delivered plugin d name).get? (moduleId plugin (target plugin name)) =
      ((Dict.get? (target plugin name) s).map (ModuleText.write plugin)).or
        (d.get? (moduleId plugin (target plugin name))) := by
  rw [delivered]
  cases Dict.get? (target plugin name) s with
  | none => rfl
  | some r => simp

theorem get?_delivered_ne {plugin name key : String} {s : BuildSession} {d : Dict String}
    (h : moduleId plugin (target plugin name) ≠ key) :
    (s.delivered plugin d name).get? key = d.get? key := by
  rw [delivered]
  cases Dict.get? (target plugin name) s with
  | none => rfl
  | some r => exact Dict.get?_insert_ne h _ _

/-- What is found under the identifier of a module after some modules were asked for: the text
for its record if one of them was it. -/
theorem get?_foldl_delivered (plugin name : String) (s : BuildSession) (ids : List String)
    (d : Dict String) :
    (ids.foldl (s.delivered plugin) d).get? (moduleId plugin name) =
      if name ∈ ids.map (target plugin) then
        ((Dict.get? name s).map (ModuleText.write plugin)).or (d.get? (moduleId plugin name))
      else d.get? (moduleId plugin name) := by
  induction ids generalizing d with
  | nil => rfl
  | cons id rest ih =>
      rw [List.foldl_cons, ih, List.map_cons]
      by_cases hid : target plugin id = name
      · subst hid
        rw [get?_delivered_target, if_pos List.mem_cons_self]
        split
        · rw [← Option.or_assoc, Option.or_self]
        · rfl
      · have hne : moduleId plugin (target plugin id) ≠ moduleId plugin name :=
          fun h => hid (moduleId_injective plugin h)
        have hid' : ¬ name = target plugin id := fun h => hid h.symm
        rw [get?_delivered_ne hne]
        simp only [List.mem_cons, hid', false_or]

/-- Nothing but modules of the plugin is delivered. -/
theorem get?_foldl_delivered_of_ne {plugin key : String} {s : BuildSession}
    (h : ∀ name, key ≠ moduleId plugin name) (ids : List String) (d : Dict String) :
    (ids.foldl (s.delivered plugin) d).get? key = d.get? key := by
  induction ids generalizing d with
  | nil => rfl
  | cons id rest ih => rw [List.foldl_cons, ih, get?_delivered_ne (h _).symm]

theorem ascending_foldl_delivered (plugin : String) (s : BuildSession) (ids : List String)
    {d : Dict String} (h : Dict.Ascending d) :
    Dict.Ascending (ids.foldl (s.delivered plugin) d) := by
  induction ids generalizing d with
  | nil => exact h
  | cons id rest ih =>
      refine ih ?_
      rw [delivered]
      split
      · exact h
      · exact h.insert _ _

/-! ## The modules that are due -/

theorem keys_texts (plugin : String) (s : BuildSession) :
    Dict.keys (s.map fun entry => (moduleId plugin entry.1, ModuleText.write plugin entry.2)) =
      (Dict.keys s).map (moduleId plugin) := by
  rw [Dict.keys, Dict.keys, List.map_map, List.map_map]
  rfl

theorem get?_texts (plugin name : String) (s : BuildSession) :
    Dict.get? (moduleId plugin name)
        (s.map fun entry => (moduleId plugin entry.1, ModuleText.write plugin entry.2)) =
      (Dict.get? name s).map (ModuleText.write plugin) := by
  induction s with
  | nil => rfl
  | cons entry s ih =>
      rw [List.map_cons, Dict.get?_cons, Dict.get?_cons, ih]
      by_cases h : entry.1 = name
      · simp [h]
      · have hne : ¬ moduleId plugin entry.1 = moduleId plugin name :=
          fun hid => h (moduleId_injective plugin hid)
        simp [h, hne]

theorem get?_modules {s : BuildSession} (h : Dict.Ascending s) (plugin name : String) :
    (s.modules plugin).get? (moduleId plugin name) =
      (Dict.get? name s).map (ModuleText.write plugin) := by
  rw [modules, Dict.get?_ofPairs_of_nodup, get?_texts]
  rw [keys_texts]
  exact h.nodup.map (moduleId_injective plugin)

theorem get?_modules_of_ne {plugin key : String} (h : ∀ name, key ≠ moduleId plugin name)
    (s : BuildSession) : (s.modules plugin).get? key = none := by
  rw [modules, Dict.get?_ofPairs, Dict.get?_eq_none_iff, Dict.keys, List.map_reverse,
    List.mem_reverse, ← Dict.keys, keys_texts, List.mem_map]
  rintro ⟨name, -, rfl⟩
  exact h name rfl

/-- What was delivered is what is due exactly if every recorded template was asked for. -/
theorem foldl_delivered_eq_modules_iff {s : BuildSession} (h : Dict.Ascending s) (plugin : String)
    (ids : List String) :
    ids.foldl (s.delivered plugin) [] = s.modules plugin ↔
      ∀ name ∈ Dict.keys s, name ∈ ids.map (target plugin) := by
  constructor
  · intro heq name hname
    obtain ⟨r, hr⟩ := Dict.hasKey_iff_exists.mp (Dict.hasKey_iff_mem_keys.mpr hname)
    have hget := congrArg (Dict.get? (moduleId plugin name)) heq
    rw [get?_foldl_delivered, get?_modules h, hr] at hget
    by_contra hnot
    rw [if_neg hnot] at hget
    cases hget
  · intro hall
    refine (ascending_foldl_delivered plugin s ids Dict.ascending_nil).ext
      (Dict.ascending_ofPairs _) fun key => ?_
    by_cases hkey : ∃ name, key = moduleId plugin name
    · obtain ⟨name, rfl⟩ := hkey
      rw [get?_foldl_delivered, get?_modules h, Dict.get?_nil, Option.or_none]
      split
      next _ => rfl
      next hnot =>
        have hnone : Dict.get? name s = none :=
          Dict.get?_eq_none_iff.mpr fun hname => hnot (hall name hname)
        rw [hnone]
        rfl
    · have hne : ∀ name, key ≠ moduleId plugin name := fun name h => hkey ⟨name, h⟩
      rw [get?_foldl_delivered_of_ne hne, get?_modules_of_ne hne]
      rfl

/-- In a finite session not every recorded identifier is the target of another one, unless each
is its own: an identifier that starts with the mark is only reached from a longer one. -/
theorem not_marked_of_subset_targets {plugin : String} {ids : List String}
    (h : ∀ id ∈ ids, id ∈ ids.map (target plugin)) : ∀ id ∈ ids, ¬ Marked plugin id := by
  have hlonger : ∀ id ∈ ids, Marked plugin id →
      ∃ longer ∈ ids, Marked plugin longer ∧ id.length < longer.length := by
    intro id hid hmarked
    obtain ⟨longer, hlonger, htarget⟩ := List.mem_map.mp (h id hid)
    by_cases hm : Marked plugin longer
    · refine ⟨longer, hlonger, hm, ?_⟩
      obtain ⟨rest, rfl⟩ := hm
      rw [target_moduleId] at htarget
      rw [← htarget]
      exact length_lt_moduleId plugin rest
    · rw [target_of_not_marked hm] at htarget
      exact absurd (htarget ▸ hmarked) hm
  intro id hid hmarked
  have hlong : ∀ n, ∃ longer ∈ ids, Marked plugin longer ∧ n ≤ longer.length := by
    intro n
    induction n with
    | zero => exact ⟨id, hid, hmarked, Nat.zero_le _⟩
    | succ n ih =>
        obtain ⟨longer, hmem, hm, hn⟩ := ih
        obtain ⟨longest, hmem', hm', hlt⟩ := hlonger longer hmem hm
        exact ⟨longest, hmem', hm', by omega⟩
  obtain ⟨longer, hmem, -, hn⟩ := hlong ((ids.map String.length).sum + 1)
  have hle : longer.length ≤ (ids.map String.length).sum :=
    List.le_sum_of_mem (List.mem_map_of_mem hmem)
  omega

theorem writeAll_eq_modules_iff {s : BuildSession} (hs : Dict.Ascending s) (plugin : String) :
    (s.writeAll plugin Sink.dict).collect = (.ok s.length, s.modules plugin) ↔
      ∀ id ∈ Dict.keys s, ¬ Marked plugin id := by
  rw [Writing.collect, writeAll, writeEach_dict, Prod.mk.injEq, foldl_delivered_eq_modules_iff hs]
  constructor
  · rintro ⟨-, hall⟩
    exact not_marked_of_subset_targets hall
  · intro hplain
    have htarget : ∀ id ∈ Dict.keys s, target plugin id = id :=
      fun id hid => target_of_not_marked (hplain id hid)
    refine ⟨?_, fun id hid => List.mem_map.mpr ⟨id, hid, htarget id hid⟩⟩
    rw [List.countP_eq_length.mpr fun id hid => ?_, Dict.keys, List.length_map]
    rw [htarget id hid]
    exact Dict.hasKey_iff_mem_keys.mpr hid

/-- A recorded module is written under its own identifier exactly if its template is not named
like a module. -/
theorem write_own_iff {plugin id : String} {s : BuildSession} {r : BuildRecord}
    (h : Dict.get? id s = some r) :
    (∀ d, (s.write plugin id Sink.dict).run.run d =
        (.ok true, d.insert (moduleId plugin id) (ModuleText.write plugin r))) ↔
      ¬ Marked plugin id := by
  constructor
  · rintro hwrite ⟨rest, rfl⟩
    have hd := hwrite []
    rw [write_dict, Prod.mk.injEq] at hd
    have hget := congrArg (Dict.get? (moduleId plugin (moduleId plugin rest))) hd.2
    have hne : moduleId plugin (target plugin (moduleId plugin rest)) ≠
        moduleId plugin (moduleId plugin rest) := by
      rw [target_moduleId]
      intro heq
      have hlt := length_lt_moduleId plugin rest
      rw [← moduleId_injective plugin heq] at hlt
      exact lt_irrefl _ hlt
    rw [get?_delivered_ne hne, Dict.get?_insert_self] at hget
    cases hget
  · intro hplain d
    have hr : Dict.get? (target plugin id) s = some r := by rw [target_of_not_marked hplain, h]
    rw [write_dict, delivered, Dict.hasKey, hr, target_of_not_marked hplain]
    rfl

/-- In every session, all recorded modules are written, and nothing else, exactly if no template
is named like a module of the plugin; and a template that is not named so is always written under
its own identifier, while one that is never is. -/
theorem writeAll_complete_iff (plugin : String) (records : List BuildRecord) :
    (((ofRecords records).writeAll plugin Sink.dict).collect =
        (.ok (ofRecords records).length, (ofRecords records).modules plugin) ↔
      ∀ id ∈ Dict.keys (ofRecords records), ¬ Marked plugin id) ∧
    ∀ id r, Dict.get? id (ofRecords records) = some r →
      ((∀ d, ((ofRecords records).write plugin id Sink.dict).run.run d =
          (.ok true, d.insert (moduleId plugin id) (ModuleText.write plugin r))) ↔
        ¬ Marked plugin id) :=
  ⟨writeAll_eq_modules_iff (ascending_ofRecords records) plugin, fun _ _ h => write_own_iff h⟩

/-- With the templates `a` and `hgn!a` two modules are counted, and both times it is that
of `a`. -/
theorem writeAll_skips_marked :
    let s := ofRecords [⟨"a", "A", {}, []⟩, ⟨"hgn!a", "B", {}, []⟩]
    Dict.keys s = ["a", "hgn!a"] ∧ (s.writeAll "hgn" Sink.dict).collect.1.toOption = some 2 ∧
      Dict.keys (s.writeAll "hgn" Sink.dict).collect.2 = ["hgn!a"] := by
  decide

end BuildSession

end Stencil
