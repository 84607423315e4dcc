/-
The records of a build.

A loader that records has one record for every template that it remembers: the record of that
template, under its key, which is in normal form.  So the session is settled by what is remembered,
however many loads there were and whichever of them failed.
-/
import Mathlib
import Stencil.Proofs.Loader.Run
import Stencil.Proofs.Path
import Stencil.Proofs.Piece
import Stencil.Proofs.Reference

namespace Stencil

/-- What is recorded of a source. -/
def Source.record (key : String) (s : Source) : BuildRecord :=
  BuildRecord.ofTemplate key s.template s.references

namespace Loader

/-- Everything that is remembered is recorded under its key. -/
structure Recorded (l : Loader) : Prop where
  normal : ∀ k s, l.sources.get? k = some s → Path.normalize k = k
  session : ∀ k, Dict.get? k l.session = (l.sources.get? k).map (Source.record k)
  ascending : Dict.Ascending l.session

variable {files : FileSystem} {l l' : Loader}

theorem Step.recorded (h : Step files l l') (hrecording : l.recording = true) (hl : Recorded l) :
    Recorded l' := by
  cases h with
  | lookUp => exact ⟨hl.normal, hl.session, hl.ascending⟩
  | fetch => exact ⟨hl.normal, hl.session, hl.ascending⟩
  | keep => exact ⟨hl.normal, hl.session, hl.ascending⟩
  | @remember name text t hnew _ _ =>
      have hnone : Dict.hasKey (Path.normalize name) l.session = false := by
        rw [Dict.hasKey, hl.session, hnew]
        rfl
      have hsession : (Loader.remember (Path.normalize name)
          (sourceOf l.config (Path.normalize name) t) l).session =
          Dict.insert (Path.normalize name)
            ((sourceOf l.config (Path.normalize name) t).record (Path.normalize name))
            l.session := by
        have hrecord : (BuildSession.record
            ((sourceOf l.config (Path.normalize name) t).record (Path.normalize name))
            l.session).2 = Dict.insert (Path.normalize name)
              ((sourceOf l.config (Path.normalize name) t).record (Path.normalize name))
              l.session := by
          rw [BuildSession.record]
          have hid : ((sourceOf l.config (Path.normalize name) t).record
              (Path.normalize name)).templateId = Path.normalize name := rfl
          rw [hid, hnone]
          rfl
        rw [Loader.remember, hrecording]
        exact hrecord
      refine ⟨fun k s hs => ?_, fun k => ?_, ?_⟩
      · change (l.sources.insert _ _).get? k = some s at hs
        rw [Dict.get?_insert] at hs
        split at hs
        next hk =>
          rw [← hk, Path.normalize_normalize]
        next _ => exact hl.normal k s hs
      · rw [hsession]
        show _ = ((l.sources.insert _ _).get? k).map _
        rw [Dict.get?_insert, Dict.get?_insert]
        split
        next hk =>
          rw [← hk]
          rfl
        next _ => exact hl.session k
      · rw [hsession]
        exact hl.ascending.insert _ _

theorem Steps.recorded (h : Steps files l l') (hrecording : l.recording = true)
    (hl : Recorded l) : Recorded l' := by
  induction h with
  | refl => exact hl
  | tail hsteps hstep ih => exact hstep.recorded ((Steps.recording hsteps).trans hrecording) ih

/-- A session has one record for each template that is remembered. -/
theorem Recorded.mem_iff (hl : Recorded l) {k : String} {r : BuildRecord} :
    (k, r) ∈ l.session ↔ ∃ s, l.remembered k = .ok s ∧ r = s.record k := by
  rw [← Dict.get?_eq_some_iff_mem hl.ascending.nodup, hl.session, Option.map_eq_some_iff]
  exact exists_congr fun s => and_congr remembered_eq_ok.symm eq_comm

end Loader

end Stencil
