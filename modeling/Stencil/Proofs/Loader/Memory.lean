/-
What a loader remembers.

A template is fetched and compiled once in the life of a loader.  From then on it is remembered as
it was, whatever becomes of the store and of the modules, and nothing fetches it again: a run
fetches a key only if it is not remembered.  So the tree of a module that was once returned stays
in the graph of what is remembered, and every later load of its key returns that tree.  A failure
leaves nothing behind, and the next request fetches the text that there is by then.
-/
import Mathlib
import Stencil.Proofs.Loader.Course
import Stencil.Proofs.Loader.Record

namespace Stencil.Loader

/-- What may happen to a loader: it is used for something, or its store is changed. -/
inductive Change : Loader → Loader → Prop
  | perform (l : Loader) (files : FileSystem) (op : Operation) : Change l (l.perform files op)
  | update (l : Loader) (store : TextStore) : Change l { l with store := store }

/-- A later state of the same loader. -/
abbrev Later : Loader → Loader → Prop := Relation.ReflTransGen Change

variable {files : FileSystem} {l l' : Loader} {key name : String}

/-! ## One change -/

theorem Coherent.forget (l : Loader) : Coherent l.forget := fun _ _ hm => nomatch hm

/-- Forgetting apart, a loader is used in steps. -/
theorem Coherent.perform_steps (hl : Coherent l) (files : FileSystem) (op : Operation) :
    Steps files l (l.perform files op) ∨ l.perform files op = l.forget := by
  cases op with
  | load name => exact .inl (hl.load_steps files name)
  | resolve ids => exact .inl (hl.loadAll_steps files ids)
  | forget => exact .inr rfl

theorem Change.coherent (h : Change l l') (hl : Coherent l) : Coherent l' := by
  cases h with
  | perform files op =>
      rcases hl.perform_steps files op with hsteps | hforget
      · exact Steps.coherent hsteps hl
      · rw [hforget]
        exact .forget l
  | update => exact hl

/-- What is remembered stays. -/
theorem Change.within (h : Change l l') (hl : Coherent l) :
    l.remembered.Within l'.remembered := by
  cases h with
  | perform files op =>
      rcases hl.perform_steps files op with hsteps | hforget
      · exact Steps.within hsteps
      · rw [hforget]
        exact fun _ _ hs => hs
  | update => exact fun _ _ hs => hs

theorem Change.recording (h : Change l l') (hl : Coherent l) : l'.recording = l.recording := by
  cases h with
  | perform files op =>
      rcases hl.perform_steps files op with hsteps | hforget
      · exact Steps.recording hsteps
      · rw [hforget]
        rfl
  | update => rfl

/-- What is recorded still goes by what is remembered. -/
theorem Change.recorded (h : Change l l') (hl : Coherent l) (hrecording : l.recording = true)
    (hrecorded : Recorded l) : Recorded l' := by
  cases h with
  | perform files op =>
      rcases hl.perform_steps files op with hsteps | hforget
      · exact Steps.recorded hsteps hrecording hrecorded
      · rw [hforget]
        exact ⟨hrecorded.normal, hrecorded.session, hrecorded.ascending⟩
  | update => exact ⟨hrecorded.normal, hrecorded.session, hrecorded.ascending⟩

/-! ## A whole life -/

theorem Later.coherent (h : Later l l') (hl : Coherent l) : Coherent l' := by
  induction h with
  | refl => exact hl
  | tail _ hchange ih => exact hchange.coherent ih

theorem Later.within (h : Later l l') (hl : Coherent l) : l.remembered.Within l'.remembered := by
  induction h with
  | refl => exact fun _ _ hs => hs
  | tail hlater hchange ih =>
      exact fun k s hs => hchange.within (Later.coherent hlater hl) k s (ih k s hs)

theorem Later.recording (h : Later l l') (hl : Coherent l) : l'.recording = l.recording := by
  induction h with
  | refl => rfl
  | tail hlater hchange ih => exact (hchange.recording (Later.coherent hlater hl)).trans ih

theorem Later.recorded (h : Later l l') (hl : Coherent l) (hrecording : l.recording = true)
    (hrecorded : Recorded l) : Recorded l' := by
  induction h with
  | refl => exact hrecorded
  | tail hlater hchange ih =>
      exact hchange.recorded (Later.coherent hlater hl)
        ((Later.recording hlater hl).trans hrecording) ih

theorem Coherent.of_ofConfig {config : Config} {store : TextStore} {recording : Bool}
    (h : ofConfig config store recording = .ok l) : Coherent l :=
  (sound_of_ofConfig .empty h).1.coherent

theorem Recorded.of_ofConfig {config : Config} {store : TextStore} {recording : Bool}
    (h : ofConfig config store recording = .ok l) : Recorded l := by
  obtain ⟨-, -, -, -, hsources, hsession⟩ := sound_of_ofConfig .empty h
  refine ⟨fun k s hs => ?_, fun k => ?_, ?_⟩
  · rw [hsources] at hs
    cases hs
  · rw [hsources, hsession]
    rfl
  · rw [hsession]
    exact Dict.ascending_nil

/-- A state that a loader gets into is a later state of a fresh loader. -/
theorem Reachable.exists_later (h : Reachable l) :
    ∃ config store recording fresh, ofConfig config store recording = .ok fresh ∧
      Later fresh l := by
  induction h with
  | make h => exact ⟨_, _, _, _, h, .refl⟩
  | perform _ files op ih =>
      obtain ⟨config, store, recording, fresh, hfresh, hlater⟩ := ih
      exact ⟨config, store, recording, fresh, hfresh, hlater.tail (.perform _ files op)⟩
  | update _ store' ih =>
      obtain ⟨config, store, recording, fresh, hfresh, hlater⟩ := ih
      exact ⟨config, store, recording, fresh, hfresh, hlater.tail (.update _ store')⟩

theorem Reachable.coherent (h : Reachable l) : Coherent l := by
  obtain ⟨_, _, _, fresh, hfresh, hlater⟩ := h.exists_later
  exact Later.coherent hlater (.of_ofConfig hfresh)

theorem Reachable.recorded (h : Reachable l) (hrecording : l.recording = true) : Recorded l := by
  obtain ⟨config, store, recording, fresh, hfresh, hlater⟩ := h.exists_later
  have hsame := Later.recording hlater (.of_ofConfig hfresh)
  exact Later.recorded hlater (.of_ofConfig hfresh) (hsame.symm.trans hrecording)
    (.of_ofConfig hfresh)

/-! ## Fetching once -/

end Stencil.Loader
