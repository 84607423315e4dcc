/-
The dependencies of a template.

Whoever is asked for the dependencies may answer anything: the answer may depend on what was asked
before, be an error, or have any length.  There is one request if some tag has an identifier and
none otherwise.  An error stays what it is, an answer of another length than the request is refused
with both lengths, and any other answer is bound by place: every name that has an identifier gets
what stands at the place of its reference, even if other names have the same identifier.
-/
import Mathlib
import Stencil.Dependencies
import Stencil.Proofs.Activity
import Stencil.Proofs.Dict
import Stencil.Proofs.Reference.Numbering

namespace Stencil

variable {α σ : Type} {ctx : ResolutionContext} {names : List String}
  {references : List Reference} {template : String} {found : List α} {partials : Dict α}

/-! ## Binding by place -/

theorem keys_zip (h : found.length = references.length) :
    Dict.keys ((references.map (·.name)).zip found) = references.map (·.name) :=
  List.map_fst_zip (by rw [List.length_map, h])

/-- What the numbering of a row of tags makes of an answer: a dictionary with one entry for every
name that has an identifier, which is what stands in the answer at the place of its reference. -/
structure Binds (ctx : ResolutionContext) (names : List String) (found : List α)
    (partials : Dict α) : Prop where
  ascending : Dict.Ascending partials
  named : ∀ name, name ∈ Dict.keys partials ↔ name ∈ names ∧ ∃ id, ctx.resolve? name = some id
  placed : ∀ r ∈ resolvePartials ctx names, partials.get? r.name = found[r.order - 1]?

/-- The reference at a place has the number of the place. -/
theorem getElem?_resolvePartials_iff {i : Nat} {r : Reference} :
    (resolvePartials ctx names)[i]? = some r ↔
      r ∈ resolvePartials ctx names ∧ r.order = i + 1 := by
  have hnumber : ∀ {j : Nat} {r : Reference}, (resolvePartials ctx names)[j]? = some r →
      r.order = j + 1 := by
    intro j r hr
    obtain ⟨hj, rfl⟩ := List.getElem?_eq_some_iff.mp hr
    have h := List.getElem_of_eq (Reference.numbering_resolvePartials ctx names).numbered
      (i := j) (by simpa using hj)
    simpa [Nat.add_comm] using h
  constructor
  · intro h
    exact ⟨List.mem_of_getElem? h, hnumber h⟩
  · rintro ⟨hr, horder⟩
    obtain ⟨j, hj⟩ := List.mem_iff_getElem?.mp hr
    have hji : j = i := by
      have := hnumber hj
      omega
    rwa [← hji]

theorem binds_ofPairs_zip (h : found.length = (resolvePartials ctx names).length) :
    Binds ctx names found
      (Dict.ofPairs (((resolvePartials ctx names).map (·.name)).zip found)) where
  ascending := Dict.ascending_ofPairs _
  named name := by
    have hnodup := (Reference.sound_resolvePartials ctx names).nodup
    rw [Dict.mem_keys_ofPairs (by rwa [keys_zip h]), keys_zip h, List.mem_map,
      (Reference.numbering_resolvePartials ctx names).named, Reference.resolves_iff]
  placed r hr := by
    have hnodup := (Reference.sound_resolvePartials ctx names).nodup
    obtain ⟨i, hi⟩ := List.mem_iff_getElem?.mp hr
    have horder : r.order = i + 1 := (getElem?_resolvePartials_iff.mp hi).2
    have hlt : i < found.length := by
      rw [h]
      exact (List.getElem?_eq_some_iff.mp hi).1
    have hfound : found[i]? = some found[i] := List.getElem?_eq_getElem hlt
    rw [horder, Nat.add_sub_cancel, hfound, Dict.get?_ofPairs_of_nodup (by rwa [keys_zip h]),
      Dict.get?_eq_some_iff_mem (by rwa [keys_zip h]), List.mem_iff_getElem?]
    refine ⟨i, ?_⟩
    rw [List.getElem?_zip_eq_some, List.getElem?_map, hi, hfound]
    exact ⟨rfl, rfl⟩

/-- Asking for one dependency after another is a way to answer a request.  No case of its own is
needed there for a template without references. -/
theorem loadDependencies_mapM {m : Type → Type} [Monad m] [LawfulMonad m]
    (load : String → ExceptT Error m α) (template : String) (references : List Reference) :
    loadDependencies (fun ids => ids.mapM load) template references = (do
      let found ← (references.map (·.canonicalId)).mapM load
      bindResults template references found) := by
  cases references with
  | nil => rw [loadDependencies, List.map_nil, List.mapM_nil, pure_bind]; rfl
  | cons r references => rfl

/-! ## Requests -/

/-- Someone who answers requests.  The answers may depend on a state. -/
abbrev Responder (σ α : Type) := List String → σ → Except Error (List α) × σ

/-- An activity that has a state and in which every request is noted. -/
abbrev Asking (σ : Type) := ExceptT Error (StateM (σ × List (List String)))

/-- Asks a responder. -/
def ask (respond : Responder σ α) (ids : List String) : Asking σ (List α) := do
  let answer ← modifyGet fun (s, requests) =>
    ((respond ids s).1, ((respond ids s).2, requests ++ [ids]))
  match answer with
  | .ok found => return found
  | .error e => throw e

theorem run_ask (respond : Responder σ α) (ids : List String) (s : σ)
    (requests : List (List String)) :
    (ask respond ids).run.run (s, requests) =
      ((respond ids s).1, ((respond ids s).2, requests ++ [ids])) := by
  rw [ask, Activity.run_bind, Activity.run_modifyGet]
  cases (respond ids s).1 <;> rfl

/-- What becomes of the answer to the request for the dependencies of a template, when so many are
expected. -/
inductive Answered (ctx : ResolutionContext) (names : List String) (template : String)
    (expected : Nat) : Except Error (List α) → Except Error (Dict α) → Prop
  | refused (e : Error) : Answered ctx names template expected (.error e) (.error e)
  | miscounted {found : List α} (h : found.length ≠ expected) :
      Answered ctx names template expected (.ok found)
        (.error (.dependencyMismatch template expected found.length))
  | bound {found : List α} {partials : Dict α} (h : found.length = expected)
      (hbinds : Binds ctx names found partials) :
      Answered ctx names template expected (.ok found) (.ok partials)

theorem run_bindResults {τ : Type} (template : String) (references : List Reference)
    (found : List α) (t : τ) :
    (bindResults template references found : ExceptT Error (StateM τ) (Dict α)).run.run t =
      (bindReferences template references found, t) := by
  rw [bindResults]
  cases bindReferences template references found <;> rfl

/-- With references there is one request, and the answer to it is bound. -/
theorem run_loadDependencies (hne : references ≠ []) (respond : Responder σ α) (template : String)
    (s : σ) (requests : List (List String)) :
    (loadDependencies (ask respond) template references).run.run (s, requests) =
      ((respond (references.map (·.canonicalId)) s).1 >>= bindReferences template references,
        ((respond (references.map (·.canonicalId)) s).2,
          requests ++ [references.map (·.canonicalId)])) := by
  rw [loadDependencies.eq_def]
  split
  · exact absurd rfl hne
  · rw [Activity.run_bind, run_ask]
    cases hanswer : (respond (references.map (·.canonicalId)) s).1 with
    | error e => rfl
    | ok found => exact run_bindResults template references found _

theorem answered_bindReferences (template : String) (answer : Except Error (List α)) :
    Answered ctx names template (resolvePartials ctx names).length answer
      (answer >>= bindReferences template (resolvePartials ctx names)) := by
  cases answer with
  | error e => exact .refused e
  | ok found =>
      show Answered _ _ _ _ _ (bindReferences template (resolvePartials ctx names) found)
      rw [bindReferences]
      split
      next h => exact .bound h (binds_ofPairs_zip h)
      next h => exact .miscounted h

/-- Nobody is asked for the dependencies of a template none of whose tags has an identifier.  For
any other template there is one request.  It lists the identifiers of the references in the order of
their numbers, and what becomes of it is settled by the answer. -/
theorem loadDependencies_asks_once (ctx : ResolutionContext) (names : List String)
    (template : String) (respond : Responder σ α) (s : σ) (requests : List (List String)) :
    ((∀ name ∈ names, ctx.resolve? name = none) ∧
      (loadDependencies (ask respond) template (resolvePartials ctx names)).run.run (s, requests) =
        (.ok [], (s, requests))) ∨
    ((∃ name ∈ names, ∃ id, ctx.resolve? name = some id) ∧
      ∃ ids outcome,
        (∀ i id, ids[i]? = some id ↔
          ∃ r ∈ resolvePartials ctx names, r.order = i + 1 ∧ r.canonicalId = id) ∧
        (loadDependencies (ask respond) template (resolvePartials ctx names)).run.run
          (s, requests) = (outcome, ((respond ids s).2, requests ++ [ids])) ∧
        Answered ctx names template ids.length (respond ids s).1 outcome) := by
  have hnamed := (Reference.numbering_resolvePartials ctx names).named
  by_cases hnone : resolvePartials ctx names = []
  · refine .inl ⟨?_, ?_⟩
    · intro name hname
      by_contra hid
      have hresolves : Reference.resolves ctx name := Option.isSome_iff_ne_none.mpr hid
      obtain ⟨r, hr, -⟩ := (hnamed name).mpr ⟨hname, hresolves⟩
      rw [hnone] at hr
      cases hr
    · rw [hnone]
      rfl
  · obtain ⟨r, hr⟩ := List.exists_mem_of_ne_nil _ hnone
    obtain ⟨hname, hid⟩ := Reference.mem_resolvePartials hr
    refine .inr ⟨⟨r.name, hname, r.canonicalId, hid⟩,
      (resolvePartials ctx names).map (·.canonicalId), _, ?_,
      run_loadDependencies hnone respond template s requests, ?_⟩
    · intro i id
      simp only [List.getElem?_map, Option.map_eq_some_iff, getElem?_resolvePartials_iff, and_assoc]
    · rw [List.length_map]
      exact answered_bindReferences template _

end Stencil
