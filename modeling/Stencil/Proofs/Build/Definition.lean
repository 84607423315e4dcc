/-
Definitions that pass the check.

The check walks along the dependencies with the names that it has met and the place that comes next,
and stops at the first thing that is wrong.  What it lets pass can be said without a walk.  Three
tests decide whether pairs fit a definition: there are as many as dependencies, none gets lost in a
dictionary, and every declared name is there.  None of them looks for a name that is not declared,
but together they leave no room for one: the declared names are as many as the pairs, all different,
and all among the names of the pairs.
-/
import Mathlib
import Stencil.Proofs.Build.ModuleId
import Stencil.Proofs.Bundle.Registry

namespace Stencil.ModuleDefinition

variable {d : ModuleDefinition} {plugin : String} {position : Nat} {met : List String}
  {entries : List DependencyEntry}

/-! ## The check -/

/-- Whether a definition agrees with itself: it is a module of its plugin that has a name,
and its dependencies are numbered from one, have names of their own and are the plugin's as well. -/
structure IsConsistent (d : ModuleDefinition) : Prop where
  named : ∃ name, name ≠ "" ∧ d.id = moduleId d.plugin name
  numbered : d.dependencies.map (·.order) = List.range' 1 d.dependencies.length
  nodup : (d.dependencies.map (·.name)).Nodup
  own : ∀ entry ∈ d.dependencies, ∃ name, entry.id = moduleId d.plugin name

theorem isSome_templateOf?_iff {id : String} :
    (templateOf? plugin id).isSome ↔ ∃ name, id = moduleId plugin name := by
  rw [Option.isSome_iff_exists]
  exact exists_congr fun _ => templateOf?_eq_some_iff

/-- The walk finds nothing wrong if the numbers go on from the next place, and no name is met
twice. -/
theorem dependencyProblem?_eq_none_iff :
    dependencyProblem? plugin position met entries = none ↔
      entries.map (·.order) = List.range' position entries.length ∧
        (entries.map (·.name)).Nodup ∧ (∀ entry ∈ entries, entry.name ∉ met) ∧
        ∀ entry ∈ entries, ∃ name, entry.id = moduleId plugin name := by
  induction entries generalizing position met with
  | nil => simp [dependencyProblem?]
  | cons entry rest ih =>
      rw [dependencyProblem?]
      split
      next horder =>
        refine iff_of_false (Option.some_ne_none _) fun h => horder ?_
        rw [List.map_cons, List.length_cons, List.range'_succ] at h
        exact (List.cons.inj h.1).1
      next horder =>
        have horder : entry.order = position := not_not.mp horder
        split
        next hmet =>
          exact iff_of_false (Option.some_ne_none _) fun h =>
            h.2.2.1 entry List.mem_cons_self hmet
        next hmet =>
          split
          next hforeign =>
            refine iff_of_false (Option.some_ne_none _) fun h => ?_
            have hown := isSome_templateOf?_iff.mpr (h.2.2.2 entry List.mem_cons_self)
            rw [Option.isNone_iff_eq_none] at hforeign
            rw [hforeign] at hown
            cases hown
          next hown =>
            have hown : ∃ name, entry.id = moduleId plugin name := by
              rw [← isSome_templateOf?_iff]
              exact Option.isSome_iff_ne_none.mpr (by simpa using hown)
            have hapart : (∀ e ∈ rest, e.name ∉ entry.name :: met) ↔
                entry.name ∉ rest.map (·.name) ∧ ∀ e ∈ rest, e.name ∉ met := by
              simp only [List.mem_cons, not_or, List.mem_map, not_exists, not_and]
              exact ⟨fun h => ⟨fun e he => (h e he).1, fun e he => (h e he).2⟩,
                fun h e he => ⟨h.1 e he, h.2 e he⟩⟩
            rw [ih, hapart, List.map_cons, List.length_cons, List.range'_succ, List.map_cons,
              List.nodup_cons, List.forall_mem_cons, List.forall_mem_cons, List.cons.injEq]
            tauto

theorem check_eq_ok_iff : d.check = .ok () ↔ d.problem? = none := by
  rw [check]
  cases d.problem? <;> simp

/-- The check accepts the definitions that agree with themselves, and no others. -/
theorem check_eq_ok_iff_isConsistent : d.check = .ok () ↔ d.IsConsistent := by
  rw [check_eq_ok_iff, problem?]
  have hrest : dependencyProblem? d.plugin 1 [] d.dependencies = none ↔
      d.dependencies.map (·.order) = List.range' 1 d.dependencies.length ∧
        (d.dependencies.map (·.name)).Nodup ∧
        ∀ entry ∈ d.dependencies, ∃ name, entry.id = moduleId d.plugin name := by
    rw [dependencyProblem?_eq_none_iff]
    simp
  split
  next hnone =>
    refine iff_of_false (Option.some_ne_none _) fun h => ?_
    obtain ⟨name, -, hname⟩ := h.named
    rw [templateOf?_eq_some_iff.mpr hname] at hnone
    cases hnone
  next hempty =>
    refine iff_of_false (Option.some_ne_none _) fun h => ?_
    obtain ⟨name, hne, hname⟩ := h.named
    rw [templateOf?_eq_some_iff.mpr hname, Option.some.injEq] at hempty
    exact hne hempty
  next name hne hname =>
    rw [hrest]
    constructor
    · rintro ⟨hnumbered, hnodup, hown⟩
      exact ⟨⟨name, hne, templateOf?_eq_some_iff.mp hname⟩, hnumbered, hnodup, hown⟩
    · exact fun h => ⟨h.numbered, h.nodup, h.own⟩

/-! ## Binding -/

section Binding

variable {α : Type} {found : List α} {pairs pairs' : List (String × α)}

theorem exists_bind_iff :
    (∃ pairs, d.bind found = .ok pairs) ↔ found.length = d.dependencies.length := by
  rw [bind]
  split
  next hlength => exact iff_of_true ⟨_, rfl⟩ hlength
  next hlength =>
    refine iff_of_false ?_ hlength
    rintro ⟨pairs, hpairs⟩
    cases hpairs

/-- What is bound is found under the names of the dependencies, in order. -/
theorem eq_of_bind (h : d.bind found = .ok pairs) :
    pairs = (d.dependencies.map (·.name)).zip found ∧
      Dict.keys pairs = d.dependencies.map (·.name) := by
  have hlength := exists_bind_iff.mp ⟨pairs, h⟩
  rw [bind, if_pos hlength] at h
  cases h
  exact ⟨rfl, List.map_fst_zip (by rw [List.length_map, hlength])⟩

/-- Whether pairs with the given names fit a definition: there are as many of them as dependencies,
they have names of their own, and there is one for every dependency. -/
def Fits (d : ModuleDefinition) (names : List String) : Prop :=
  names.length = d.dependencies.length ∧ names.Nodup ∧ ∀ entry ∈ d.dependencies, entry.name ∈ names

/-- The three tests, of which the second one asks whether a dictionary has room for all pairs. -/
theorem fits_keys_iff :
    d.Fits (Dict.keys pairs) ↔ pairs.length = d.dependencies.length ∧
      (Dict.ofPairs pairs).length = pairs.length ∧
      (d.dependencies.all fun entry => (Dict.ofPairs pairs).hasKey entry.name) = true := by
  have hroom : (Dict.ofPairs pairs).length = pairs.length ↔ (Dict.keys pairs).Nodup :=
    ⟨Dict.nodup_of_length_ofPairs, fun h => Dict.length_ofPairs h⟩
  rw [Fits, hroom, Dict.keys, List.length_map]
  refine and_congr_right fun _ => and_congr_right fun hnodup => ?_
  rw [List.all_eq_true]
  refine forall₂_congr fun entry _ => ?_
  rw [Dict.hasKey_iff_mem_keys, Dict.mem_keys_ofPairs hnodup]
  rfl

/-- Pairs that fit are compiled with, and all others are refused. -/
theorem instantiate_of_fits (h : d.Fits (Dict.keys pairs)) :
    d.instantiate pairs =
      (Template.compile d.templateName d.body d.options).map fun t => (t, Dict.ofPairs pairs) := by
  obtain ⟨hlength, hroom, hcomplete⟩ := fits_keys_iff.mp h
  rw [instantiate]
  simp only [hlength, hroom, hcomplete]
  rw [if_neg (by simp)]
  cases Template.compile d.templateName d.body d.options <;> rfl

theorem instantiate_of_not_fits (h : ¬ d.Fits (Dict.keys pairs)) :
    d.instantiate pairs =
      .error (.dependencyMismatch d.id d.dependencies.length pairs.length) := by
  rw [fits_keys_iff, not_and_or, not_and_or, Bool.not_eq_true, ← Bool.not_eq_true'] at h
  rw [instantiate, if_pos h]
  rfl

/-- Pairs that fit fail only in the compilation. -/
theorem instantiate_eq_error {e : Error} (h : d.instantiate pairs = .error e) :
    ¬ d.Fits (Dict.keys pairs) ∧
        e = .dependencyMismatch d.id d.dependencies.length pairs.length ∨
      d.Fits (Dict.keys pairs) ∧ ∃ fault, e = Engine.compileError d.templateName fault := by
  by_cases hfits : d.Fits (Dict.keys pairs)
  · rw [instantiate_of_fits hfits] at h
    cases hcompile : Template.compile d.templateName d.body d.options with
    | ok template =>
        rw [hcompile] at h
        cases h
    | error e' =>
        rw [hcompile] at h
        cases h
        exact .inr ⟨hfits, Template.compile_eq_error hcompile⟩
  · rw [instantiate_of_not_fits hfits] at h
    cases h
    exact .inl ⟨hfits, rfl⟩

/-- What cannot be bound and instantiated does not match or does not compile. -/
theorem error_of_bind_instantiate {found : List α} {e : Error}
    (h : d.bind found >>= d.instantiate = .error e) :
    (∃ expected given, e = .dependencyMismatch d.id expected given) ∨
      ∃ fault, e = Engine.compileError d.templateName fault := by
  rcases Activity.bind_eq_error.mp h with h | ⟨pairs, -, h⟩
  · rw [bind] at h
    split at h
    · cases h
    · cases h
      exact .inl ⟨_, _, rfl⟩
  · rcases instantiate_eq_error h with ⟨-, he⟩ | ⟨-, he⟩
    · exact .inl ⟨_, _, he⟩
    · exact .inr he

theorem not_fits_of_mismatch {id : String} {expected given : Nat}
    (h : d.instantiate pairs = .error (.dependencyMismatch id expected given)) :
    ¬ d.Fits (Dict.keys pairs) := by
  rcases instantiate_eq_error h with ⟨hfits, -⟩ | ⟨-, fault, hfault⟩
  · exact hfits
  · cases hfault

/-- If the dependencies have names of their own, the names of pairs that fit are these names, in
some order. -/
theorem fits_iff_perm (hnodup : (d.dependencies.map (·.name)).Nodup) {names : List String} :
    d.Fits names ↔ names.Perm (d.dependencies.map (·.name)) := by
  constructor
  · rintro ⟨hlength, -, hall⟩
    have hsub : d.dependencies.map (·.name) ⊆ names := by
      intro name hname
      obtain ⟨entry, hentry, rfl⟩ := List.mem_map.mp hname
      exact hall entry hentry
    exact ((hnodup.subperm hsub).perm_of_length_le (by rw [hlength, List.length_map])).symm
  · intro h
    refine ⟨by rw [h.length_eq, List.length_map], h.nodup_iff.mpr hnodup, fun entry hentry => ?_⟩
    exact h.mem_iff.mpr (List.mem_map_of_mem hentry)

/-- Whether pairs fit, and what they make, is no matter of their order. -/
theorem instantiate_of_perm (h : pairs.Perm pairs') : d.instantiate pairs = d.instantiate pairs' := by
  have hkeys : (Dict.keys pairs).Perm (Dict.keys pairs') := h.map _
  have hfits : d.Fits (Dict.keys pairs) ↔ d.Fits (Dict.keys pairs') := by
    rw [Fits, Fits, hkeys.length_eq, hkeys.nodup_iff]
    simp only [hkeys.mem_iff]
  by_cases hfit : d.Fits (Dict.keys pairs)
  · have hsame : Dict.ofPairs pairs = Dict.ofPairs pairs' := by
      refine (Dict.ascending_ofPairs _).ext (Dict.ascending_ofPairs _) fun key => ?_
      rw [Dict.get?_ofPairs_of_nodup hfit.2.1, Dict.get?_ofPairs_of_nodup (hfits.mp hfit).2.1]
      refine Option.ext fun m => ?_
      rw [Dict.get?_eq_some_iff_mem hfit.2.1, Dict.get?_eq_some_iff_mem (hfits.mp hfit).2.1,
        h.mem_iff]
    rw [instantiate_of_fits hfit, instantiate_of_fits (hfits.mp hfit), hsame]
  · rw [instantiate_of_not_fits hfit, instantiate_of_not_fits (mt hfits.mpr hfit), h.length_eq]

theorem instantiate_eq_mismatch_iff (hnodup : (d.dependencies.map (·.name)).Nodup) :
    d.instantiate pairs = .error (.dependencyMismatch d.id d.dependencies.length pairs.length) ↔
      ¬ (Dict.keys pairs).Perm (d.dependencies.map (·.name)) := by
  rw [← fits_iff_perm hnodup]
  exact ⟨not_fits_of_mismatch, instantiate_of_not_fits⟩

theorem fits_of_bind (hd : d.IsConsistent) (h : d.bind found = .ok pairs) :
    d.Fits (Dict.keys pairs) := (fits_iff_perm hd.nodup).mpr (by rw [(eq_of_bind h).2])

/-- What a consistent definition makes of the modules that it has bound: every one is found under
the name of the dependency in its place, and no other name is bound. -/
theorem instantiate_of_bind (hd : d.IsConsistent) (h : d.bind found = .ok pairs) :
    ∃ bound : Dict α,
      (∀ (i : Nat) (entry : DependencyEntry) (m : α), d.dependencies[i]? = some entry →
        found[i]? = some m → bound.get? entry.name = some m) ∧
      (∀ name, bound.hasKey name ↔ ∃ entry ∈ d.dependencies, entry.name = name) ∧
      d.instantiate pairs =
        (Template.compile d.templateName d.body d.options).map fun t => (t, bound) := by
  have hfits := fits_of_bind hd h
  obtain ⟨rfl, hkeys⟩ := eq_of_bind h
  have hnodup : (Dict.keys ((d.dependencies.map (·.name)).zip found)).Nodup := by
    rw [hkeys]
    exact hd.nodup
  refine ⟨Dict.ofPairs ((d.dependencies.map (·.name)).zip found), ?_, ?_, ?_⟩
  · intro i entry m hentry hm
    rw [Dict.get?_ofPairs_of_nodup hnodup, Dict.get?_eq_some_iff_mem hnodup]
    refine List.mem_of_getElem? (i := i) ?_
    rw [List.getElem?_zip_eq_some, List.getElem?_map, hentry]
    exact ⟨rfl, hm⟩
  · intro name
    rw [Dict.hasKey_iff_mem_keys, Dict.mem_keys_ofPairs hnodup, hkeys, List.mem_map]
  · exact instantiate_of_fits hfits

end Binding

/-- A definition passes the check exactly if it agrees with itself.  Then modules can be bound to it
exactly if there are as many as dependencies, and what has been bound is never refused: each module
is found under the name of the dependency in its place.  Pairs from elsewhere get as far as the
compilation exactly if their names are the declared ones in some order, and the order does not
matter. -/
theorem check_binds (α : Type) (d : ModuleDefinition) :
    (d.check = .ok () ↔ d.IsConsistent) ∧
      (d.check = .ok () →
        (∀ found : List α,
          ((∃ pairs, d.bind found = .ok pairs) ↔ found.length = d.dependencies.length) ∧
          ∀ pairs, d.bind found = .ok pairs →
            (∀ id expected given,
              d.instantiate pairs ≠ .error (.dependencyMismatch id expected given)) ∧
            ∃ bound : Dict α,
              (∀ (i : Nat) (entry : DependencyEntry) (m : α), d.dependencies[i]? = some entry →
                found[i]? = some m → bound.get? entry.name = some m) ∧
              (∀ name, bound.hasKey name ↔ ∃ entry ∈ d.dependencies, entry.name = name) ∧
              d.instantiate pairs =
                (Template.compile d.templateName d.body d.options).map fun t => (t, bound)) ∧
        ∀ pairs : List (String × α),
          ((Dict.keys pairs).Perm (d.dependencies.map (·.name)) →
            d.instantiate pairs =
              (Template.compile d.templateName d.body d.options).map
                fun t => (t, Dict.ofPairs pairs)) ∧
          (d.instantiate pairs =
              .error (.dependencyMismatch d.id d.dependencies.length pairs.length) ↔
            ¬ (Dict.keys pairs).Perm (d.dependencies.map (·.name))) ∧
          ∀ pairs', pairs.Perm pairs' → d.instantiate pairs = d.instantiate pairs') := by
  refine ⟨check_eq_ok_iff_isConsistent, fun h => ?_⟩
  have hd := check_eq_ok_iff_isConsistent.mp h
  refine ⟨fun found => ⟨exists_bind_iff, fun pairs hpairs => ⟨fun id expected given hmismatch => ?_,
    instantiate_of_bind hd hpairs⟩⟩, fun pairs => ⟨?_, ?_, ?_⟩⟩
  · exact not_fits_of_mismatch hmismatch (fits_of_bind hd hpairs)
  · exact fun hperm => instantiate_of_fits ((fits_iff_perm hd.nodup).mpr hperm)
  · exact instantiate_eq_mismatch_iff hd.nodup
  · exact fun pairs' hperm => instantiate_of_perm hperm

/-- A page with a header and a footer. -/
def page : ModuleDefinition where
  id := "pages!home"
  plugin := "pages"
  dependencies := [⟨1, "header", "pages!header"⟩, ⟨2, "footer", "pages!footer"⟩]
  body := ""

theorem check_binds_page :
    page.check = .ok () ∧
      page.bind [true, false] = .ok [("header", true), ("footer", false)] ∧
      (∀ id expected given, page.instantiate [("header", true), ("footer", false)] ≠
        .error (.dependencyMismatch id expected given)) ∧
      page.instantiate [("header", true), ("header", false)] =
        .error (.dependencyMismatch "pages!home" 2 2) := by
  have hcheck : page.check = .ok () := by decide
  have hbind : page.bind [true, false] = .ok [("header", true), ("footer", false)] := rfl
  obtain ⟨hbinds, harbitrary⟩ := (check_binds Bool page).2 hcheck
  exact ⟨hcheck, hbind, ((hbinds [true, false]).2 _ hbind).1,
    (harbitrary [("header", true), ("header", false)]).2.1.mpr (by decide)⟩

end Stencil.ModuleDefinition
