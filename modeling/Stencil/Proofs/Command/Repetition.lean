/-
Repeated names.

The names that the arguments of a build stand for are put one behind the other, and a name that
follows itself is dropped.  So no name is lost, the first occurrences keep their order, and no two
neighbours are the same; but a name that comes back behind another one stays and is counted again.
Every name is there once exactly if equal names stand together in the row that the arguments make,
whether they come from a name given twice, from two patterns or from both.
-/
import Mathlib
import Stencil.Command.Run
import Stencil.Proofs.Command.Names
import Stencil.Proofs.Names

namespace Stencil

namespace Command

variable {files : FileSystem} {root fileEnd argument name : String}
  {arguments names expanded : List String}

/-! ## What the arguments stand for -/

/-- The names that one argument stands for. -/
def chosen (files : FileSystem) (root fileEnd argument : String) : Except Failure (List String) :=
  if isPattern argument then matching files root fileEnd argument else .ok [argument]

/-- The names that arguments stand for, argument by argument. -/
def Chosen (files : FileSystem) (root fileEnd : String) (arguments : List String)
    (each : List (List String)) : Prop :=
  List.Forall₂ (fun argument found => chosen files root fileEnd argument = .ok found) arguments each

theorem expandNames_eq_ok_iff :
    expandNames files root fileEnd arguments = .ok expanded ↔
      ∃ each, Chosen files root fileEnd arguments each ∧ expanded = dropRepeated each.flatten := by
  rw [expandNames, Activity.bind_eq_ok]
  constructor
  · rintro ⟨each, heach, h⟩
    cases h
    exact ⟨each, Activity.mapM_eq_ok.mp heach, rfl⟩
  · rintro ⟨each, heach, rfl⟩
    exact ⟨each, Activity.mapM_eq_ok.mpr heach, rfl⟩

/-! ## Names that follow themselves -/

theorem dropRepeated_eq_destutter (names : List String) :
    dropRepeated names = names.destutter (· ≠ ·) := by
  fun_induction dropRepeated names with
  | case1 name names ih => rw [ih, List.destutter_cons', List.destutter_cons_cons, if_neg (by simp)]
  | case2 name next names hne ih =>
      rw [ih, List.destutter_cons', List.destutter_cons_cons, if_pos hne]
  | case3 short hshort =>
      rcases short with _ | ⟨name, _ | ⟨next, names⟩⟩
      · rfl
      · rfl
      · exact absurd rfl (hshort name next names)

/-- The first occurrences stay, in their order, among any names that are looked at. -/
theorem eraseDups_filter_dropRepeated (p : String → Bool) (names : List String) :
    ((dropRepeated names).filter p).eraseDups = (names.filter p).eraseDups := by
  fun_induction dropRepeated names generalizing p with
  | case1 name names ih =>
      rw [ih]
      cases hp : p name with
      | false => simp [hp]
      | true =>
          rw [List.filter_cons_of_pos hp, List.filter_cons_of_pos hp, List.filter_cons_of_pos hp]
          exact (Names.eraseDups_insert (List.mem_singleton_self name) (names.filter p)).symm
  | case2 name next names _ ih =>
      cases hp : p name with
      | false =>
          rw [List.filter_cons_of_neg (by simp [hp]), List.filter_cons_of_neg (by simp [hp]), ih]
      | true =>
          rw [List.filter_cons_of_pos hp, List.filter_cons_of_pos hp, List.eraseDups_cons,
            List.eraseDups_cons, List.filter_filter, List.filter_filter, ih]
  | case3 => rfl

theorem eraseDups_dropRepeated (names : List String) :
    (dropRepeated names).eraseDups = names.eraseDups := by
  simpa using eraseDups_filter_dropRepeated (fun _ => true) names

/-- Equal names stand together: between two of them there is no other one. -/
def Gathered (names : List String) : Prop :=
  ∀ before name between after, names = before ++ name :: (between ++ name :: after) →
    ∀ other ∈ between, other = name

theorem gathered_of_length_le (h : names.length ≤ 1) : Gathered names := by
  intro before name between after heq
  have hlength := congrArg List.length heq
  simp only [List.length_append, List.length_cons] at hlength
  omega

theorem gathered_cons_self : Gathered (name :: name :: names) ↔ Gathered (name :: names) := by
  constructor
  · intro h before other between after heq
    exact h (name :: before) other between after (by rw [heq, List.cons_append])
  · intro h before other between after heq
    cases before with
    | cons first before => exact h before other between after (List.cons.inj heq).2
    | nil =>
        obtain ⟨rfl, heq⟩ := List.cons.inj heq
        cases between with
        | nil => exact List.forall_mem_nil _
        | cons first between =>
            obtain ⟨rfl, hrest⟩ := List.cons.inj heq
            refine List.forall_mem_cons.mpr ⟨rfl, h [] name between after ?_⟩
            rw [hrest]
            rfl

theorem gathered_cons_cons {next : String} (hne : name ≠ next) :
    Gathered (name :: next :: names) ↔ name ∉ next :: names ∧ Gathered (next :: names) := by
  constructor
  · intro h
    refine ⟨fun hmem => ?_, fun before other between after heq => ?_⟩
    · obtain ⟨between, after, hrest⟩ :=
        List.append_of_mem ((List.mem_cons.mp hmem).resolve_left hne)
      refine hne (h [] name (next :: between) after ?_ next List.mem_cons_self).symm
      rw [hrest, List.nil_append, List.cons_append]
    · exact h (name :: before) other between after (by rw [heq, List.cons_append])
  · rintro ⟨hnot, h⟩ before other between after heq
    cases before with
    | cons first before => exact h before other between after (List.cons.inj heq).2
    | nil =>
        obtain ⟨rfl, hrest⟩ := List.cons.inj heq
        exact absurd (by rw [hrest]; exact List.mem_append_cons_self) hnot

/-- No name is left twice exactly if equal names stood together. -/
theorem nodup_dropRepeated_iff : (dropRepeated names).Nodup ↔ Gathered names := by
  fun_induction dropRepeated names with
  | case1 name names ih => rw [ih, gathered_cons_self]
  | case2 name next names hne ih =>
      rw [List.nodup_cons, mem_dropRepeated, ih, gathered_cons_cons hne]
  | case3 short hshort =>
      rcases short with _ | ⟨name, _ | ⟨next, names⟩⟩
      · exact iff_of_true List.nodup_nil (gathered_of_length_le (Nat.zero_le 1))
      · exact iff_of_true (List.nodup_singleton name) (gathered_of_length_le (Nat.le_refl 1))
      · exact absurd rfl (hshort name next names)

/-! ## Builds -/

theorem orFailure_eq_ok_iff {α : Type} {x : Except Error α} {a : α} :
    orFailure x = .ok a ↔ x = .ok a := by
  cases x <;> simp [orFailure]

/-- A build that succeeds loads the names that its arguments stand for, and says how many there
are. -/
theorem run_build_eq_ok {config : Config} {c : BuildCommand} {said : String} {files' : FileSystem}
    (h : c.run files config = (.ok said, files')) :
    ∃ names session written, expandNames files c.root config.extension c.names = .ok names ∧
      recordsOf files config c.root names = .ok session ∧
      said = builtText written names.length c.out := by
  rw [BuildCommand.run] at h
  split at h
  next => cases h
  next names session hprepared =>
    obtain ⟨names', hnames, hprepared⟩ := Activity.bind_eq_ok.mp hprepared
    obtain ⟨session', hsession, hprepared⟩ := Activity.bind_eq_ok.mp hprepared
    cases hprepared
    rw [orFailure_eq_ok_iff] at hsession
    split at h
    next written files'' _ _ =>
      cases h
      exact ⟨names, session, written, hnames, hsession, rfl⟩
    next => cases h

/-! ## Result -/

/-- If arguments expand, each stands for some names, and what they expand to has all of these and
no others, in the order of their first occurrences, without neighbours that are the same.  It is the
row of the first occurrences alone exactly if equal names stand together in the row of all of them.
A build that succeeds loads what the arguments expand to and reports how many names that are, which
are at least as many as different ones, and as many exactly in the same case. -/
theorem expandNames_once_iff {config : Config} {c : BuildCommand}
    (h : expandNames files c.root config.extension c.names = .ok expanded) :
    ∃ each, Chosen files c.root config.extension c.names each ∧
      (∀ name, name ∈ expanded ↔ ∃ found ∈ each, name ∈ found) ∧
      expanded.eraseDups = each.flatten.eraseDups ∧ expanded.IsChain (· ≠ ·) ∧
      (expanded = each.flatten.eraseDups ↔ Gathered each.flatten) ∧
      (∀ said files', c.run files config = (.ok said, files') → ∃ session written,
        recordsOf files config c.root expanded = .ok session ∧
        said = builtText written expanded.length c.out) ∧
      expanded.eraseDups.length ≤ expanded.length ∧
      (expanded.eraseDups.length = expanded.length ↔ Gathered each.flatten) := by
  obtain ⟨each, heach, rfl⟩ := expandNames_eq_ok_iff.mp h
  have hfirsts := eraseDups_dropRepeated each.flatten
  have hnodup : (dropRepeated each.flatten).Nodup ↔ Gathered each.flatten :=
    nodup_dropRepeated_iff
  refine ⟨each, heach, fun name => ?_, hfirsts, ?_, ⟨fun heq => ?_, fun hgathered => ?_⟩,
    fun said files' hrun => ?_, Names.length_eraseDups_le _, ?_⟩
  · rw [mem_dropRepeated, List.mem_flatten]
  · rw [dropRepeated_eq_destutter]
    exact List.isChain_destutter _ _
  · rw [← hnodup, heq]
    exact Names.nodup_eraseDups _
  · rw [← hfirsts, Names.eraseDups_of_nodup (hnodup.mpr hgathered)]
  · obtain ⟨names, session, written, hnames, hsession, hsaid⟩ := run_build_eq_ok hrun
    rw [h] at hnames
    cases hnames
    exact ⟨session, written, hsession, hsaid⟩
  · rw [Names.length_eraseDups_eq_iff, hnodup]

/-- A pattern and the name of what it matches, with another name behind them: each is there once. -/
theorem expandNames_once_iff_folder :
    expandNames folder "/tmp/work" ".mustache" ["*", "a", "b"] = .ok ["a", "b"] ∧
      ∃ each, Chosen folder "/tmp/work" ".mustache" ["*", "a", "b"] each ∧
        ["a", "b"] = each.flatten.eraseDups := by
  have hsome : (expandNames folder "/tmp/work" ".mustache" ["*", "a", "b"]).toOption =
      some ["a", "b"] := by decide +kernel
  cases hexpanded : expandNames folder "/tmp/work" ".mustache" ["*", "a", "b"] with
  | error failure =>
      rw [hexpanded] at hsome
      cases hsome
  | ok expanded =>
      rw [hexpanded] at hsome
      cases hsome
      obtain ⟨each, heach, -, hfirsts, -⟩ :=
        @expandNames_once_iff folder _ {} ⟨["*", "a", "b"], "/tmp/work", "dist"⟩ hexpanded
      exact ⟨rfl, each, heach, by rw [← hfirsts]; decide⟩

/-- A name that is given again behind another one is there twice. -/
theorem expandNames_repeats :
    expandNames .empty "." ".mustache" ["a", "b", "a"] = .ok ["a", "b", "a"] ∧
      ¬ ["a", "b", "a"].Nodup := by
  exact ⟨rfl, by decide⟩

end Command

end Stencil
