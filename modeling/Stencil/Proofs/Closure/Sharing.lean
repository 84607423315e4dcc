/-
Clones that share an engine.

A closure keeps the engine of its first render without partials given at run time, and its clones
keep theirs in the same place.  No result of a call tells whether an engine was kept.  What is kept is
always what each of the clones would make by itself; a call with partials given at run time neither
reads nor changes it; and a call that fails for want of an engine leaves nothing.  So a program that
builds closures, clones them and renders them in any order gets what it would get if every render
were the first one of a closure just built.
-/
import Mathlib
import Stencil.Closure

namespace Stencil.Closure

/-- A closure in the hands of a program, and the place where its engine is kept. -/
structure Handle where
  closure : Closure
  place : Nat

/-- The handles of a program in the order in which it got them, and what is kept in every place. -/
structure Shelf where
  handles : List Handle
  kept : List (Option Engine)

/-- What a program does with closures.  Handles are named by their numbers. -/
inductive Action where
  | build (c : Closure)
  | clone (i : Nat)
  | render (i : Nat) (given : Dict Json) (runtime : Dict Closure) (indent : String)

/-- Does one thing, and tells what came out if it was a render.  A closure that is built has a place
of its own, in which nothing is kept yet, and a clone has the place of what it is a clone of. -/
def Shelf.perform (s : Shelf) : Action → Option (Except Error String) × Shelf
  | .build c => (none, ⟨s.handles ++ [⟨c, s.kept.length⟩], s.kept ++ [none]⟩)
  | .clone i =>
    match s.handles[i]? with
    | none => (none, s)
    | some h => (none, { s with handles := s.handles ++ [h] })
  | .render i given runtime indent =>
    match s.handles[i]? with
    | none => (none, s)
    | some h =>
      let (outcome, kept) := h.closure.renderKeeping s.kept[h.place]?.join given runtime indent
      (some outcome, { s with kept := s.kept.set h.place kept })

/-- What comes out of a run. -/
def Shelf.run (s : Shelf) : List Action → List (Option (Except Error String))
  | [] => []
  | a :: as => (s.perform a).1 :: (s.perform a).2.run as

/-- The same step where nothing is ever kept: every render is the first one of its closure. -/
def performAlone (held : List Closure) : Action → Option (Except Error String) × List Closure
  | .build c => (none, held ++ [c])
  | .clone i =>
    match held[i]? with
    | none => (none, held)
    | some c => (none, held ++ [c])
  | .render i given runtime indent => (held[i]?.map (·.render given runtime indent), held)

/-- What comes out of a run where nothing is ever kept. -/
def runAlone (held : List Closure) : List Action → List (Option (Except Error String))
  | [] => []
  | a :: as => (performAlone held a).1 :: runAlone (performAlone held a).2 as

/-! ## One call -/

/-- Whether what is kept is what the closure would make by itself. -/
def Keeps (c : Closure) (kept : Option Engine) : Prop :=
  ∀ engine, kept = some engine → c.template.engine c.partials [] = .ok engine

variable {c : Closure} {kept : Option Engine}

theorem keeps_none (c : Closure) : Keeps c none := fun _ h => nomatch h

/-- A call returns the same whatever is kept, and keeps only what the closure would make. -/
theorem Keeps.renderKeeping (h : Keeps c kept) (given : Dict Json) (runtime : Dict Closure)
    (indent : String) :
    (c.renderKeeping kept given runtime indent).1 = c.render given runtime indent ∧
      Keeps c (c.renderKeeping kept given runtime indent).2 := by
  cases runtime with
  | cons entry runtime => exact ⟨rfl, h⟩
  | nil =>
      cases kept with
      | some engine =>
          have hengine := h engine rfl
          refine ⟨?_, h⟩
          rw [Closure.render, Closure.renderKeeping, Closure.renderKeeping]
          simp only [hengine]
      | none =>
          refine ⟨rfl, ?_⟩
          rw [Closure.renderKeeping]
          cases hengine : c.template.engine c.partials [] with
          | error e => exact keeps_none c
          | ok engine =>
              rintro _ ⟨⟩
              exact hengine

/-- Handles with the same place are clones of each other, and what is kept in their place is what
each of them would make by itself. -/
structure Shelf.Sound (s : Shelf) : Prop where
  placed : ∀ h ∈ s.handles, h.place < s.kept.length
  clones : ∀ h ∈ s.handles, ∀ h' ∈ s.handles, h.place = h'.place → h.closure = h'.closure
  keeps : ∀ h ∈ s.handles, Keeps h.closure s.kept[h.place]?.join

/-- The closures that the handles of a program are of. -/
def Shelf.held (s : Shelf) : List Closure := s.handles.map Handle.closure

variable {s : Shelf} {h : Handle} {i : Nat}

theorem Shelf.getElem?_held : s.held[i]? = s.handles[i]?.map Handle.closure := List.getElem?_map

theorem Shelf.Sound.build (hs : s.Sound) (c : Closure) : (s.perform (.build c)).2.Sound := by
  -- The new place is behind those of all handles there are.
  have hplace : ∀ h ∈ s.handles, h.place ≠ s.kept.length := fun h hh => (hs.placed h hh).ne
  refine ⟨fun h hh => ?_, fun h hh h' hh' heq => ?_, fun h hh => ?_⟩
  · rw [Shelf.perform, List.length_append]
    rcases List.mem_append.mp hh with hh | hh
    · exact (hs.placed h hh).trans (Nat.lt_succ_self _)
    · cases List.mem_singleton.mp hh
      exact Nat.lt_succ_self _
  · rcases List.mem_append.mp hh with hh | hh <;> rcases List.mem_append.mp hh' with hh' | hh'
    · exact hs.clones h hh h' hh' heq
    · cases List.mem_singleton.mp hh'
      exact absurd heq (hplace h hh)
    · cases List.mem_singleton.mp hh
      exact absurd heq.symm (hplace h' hh')
    · cases List.mem_singleton.mp hh
      cases List.mem_singleton.mp hh'
      rfl
  · rw [Shelf.perform]
    rcases List.mem_append.mp hh with hh | hh
    · rw [List.getElem?_append_left (hs.placed h hh)]
      exact hs.keeps h hh
    · cases List.mem_singleton.mp hh
      rw [List.getElem?_concat_length]
      exact keeps_none c

theorem Shelf.Sound.clone (hs : s.Sound) (hi : s.handles[i]? = some h) :
    ({ s with handles := s.handles ++ [h] } : Shelf).Sound := by
  have hmem : ∀ h' ∈ s.handles ++ [h], h' ∈ s.handles := by
    intro h' hh'
    rcases List.mem_append.mp hh' with hh' | hh'
    · exact hh'
    · cases List.mem_singleton.mp hh'
      exact List.mem_of_getElem? hi
  exact ⟨fun h' hh' => hs.placed h' (hmem h' hh'),
    fun a ha b hb => hs.clones a (hmem a ha) b (hmem b hb),
    fun h' hh' => hs.keeps h' (hmem h' hh')⟩

/-- Keeping in the place of a handle what its closure would make is right for all its clones. -/
theorem Shelf.Sound.set (hs : s.Sound) (hh : h ∈ s.handles) (hkept : Keeps h.closure kept) :
    ({ s with kept := s.kept.set h.place kept } : Shelf).Sound := by
  refine ⟨fun h' hh' => ?_, hs.clones, fun h' hh' => ?_⟩
  · rw [List.length_set]
    exact hs.placed h' hh'
  · by_cases heq : h.place = h'.place
    · rw [← heq, List.getElem?_set_self (hs.placed h hh), ← hs.clones h hh h' hh' heq]
      exact hkept
    · rw [List.getElem?_set_ne heq]
      exact hs.keeps h' hh'

/-- A step gives what the same step gives where nothing is kept. -/
theorem Shelf.Sound.perform (hs : s.Sound) (a : Action) :
    (s.perform a).1 = (performAlone s.held a).1 ∧
      (s.perform a).2.held = (performAlone s.held a).2 ∧ (s.perform a).2.Sound := by
  cases a with
  | build c => exact ⟨rfl, List.map_append, hs.build c⟩
  | clone i =>
      rw [Shelf.perform, performAlone, Shelf.getElem?_held]
      cases hi : s.handles[i]? with
      | none => exact ⟨rfl, rfl, hs⟩
      | some h => exact ⟨rfl, List.map_append, hs.clone hi⟩
  | render i given runtime indent =>
      rw [Shelf.perform, performAlone, Shelf.getElem?_held]
      cases hi : s.handles[i]? with
      | none => exact ⟨rfl, rfl, hs⟩
      | some h =>
          have hh := List.mem_of_getElem? hi
          obtain ⟨hresult, hkept⟩ := (hs.keeps h hh).renderKeeping given runtime indent
          exact ⟨congrArg some hresult, rfl, hs.set hh hkept⟩

/-! ## Whole runs -/

theorem Shelf.Sound.run (hs : s.Sound) (actions : List Action) :
    s.run actions = runAlone s.held actions := by
  induction actions generalizing s with
  | nil => rfl
  | cons a actions ih =>
      obtain ⟨hresult, hheld, hsound⟩ := hs.perform a
      rw [Shelf.run, runAlone, hresult, ← hheld, ih hsound]

theorem Shelf.sound_nil : (⟨[], []⟩ : Shelf).Sound :=
  ⟨List.forall_mem_nil _, List.forall_mem_nil _, List.forall_mem_nil _⟩

end Stencil.Closure
