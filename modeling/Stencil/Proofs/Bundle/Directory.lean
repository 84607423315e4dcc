/-
Bundles from directories.

A bundle is filled from a directory exactly if every file that is found there is the text of a
module.  It then has all their definitions, and under every identifier that of the last one.
-/
import Mathlib
import Stencil.Bundle.Directory
import Stencil.Proofs.Activity
import Stencil.Proofs.Dict

namespace Stencil.Bundle

variable {files : FileSystem} {path directory : String} {paths : List String} {b b' : Bundle}
  {d : ModuleDefinition} {ds : List ModuleDefinition} {n : Nat}

/-- The definition that is read from a file. -/
def definitionAt (files : FileSystem) (path : String) : Except Error ModuleDefinition :=
  match files.readText path with
  | .ok text => ModuleDefinition.ofText text
  | .error fault => .error (.fetch path fault.message)

theorem definitionAt_eq_ok :
    definitionAt files path = .ok d ↔
      ∃ text, files.readText path = .ok text ∧ ModuleDefinition.ofText text = .ok d := by
  rw [definitionAt]
  cases files.readText path with
  | ok text => simp
  | error fault => simp

theorem run_addFile (files : FileSystem) (path : String) (b : Bundle) :
    (addFile files path).run.run b =
      match definitionAt files path with
      | .ok d => (.ok (), (insert d b).2)
      | .error e => (.error e, b) := by
  rw [addFile, definitionAt]
  cases files.readText path with
  | error fault => rfl
  | ok text =>
      dsimp only
      rw [Activity.run_bind, add]
      cases ModuleDefinition.ofText text <;> rfl

/-- The files are added exactly if a definition is read from each of them. -/
theorem run_addFiles_eq_ok :
    (paths.forM (addFile files)).run.run b = (.ok (), b') ↔
      ∃ ds, List.Forall₂ (fun path d => definitionAt files path = .ok d) paths ds ∧
        b' = ds.foldl (fun b d => (insert d b).2) b := by
  induction paths generalizing b with
  | nil =>
      constructor
      · rintro ⟨⟩
        exact ⟨[], .nil, rfl⟩
      · rintro ⟨ds, hds, rfl⟩
        cases hds
        rfl
  | cons path paths ih =>
      have hcons : (path :: paths).forM (addFile files) =
          (addFile files path >>= fun _ => paths.forM (addFile files)) := rfl
      rw [hcons, Activity.run_bind, run_addFile]
      cases hpath : definitionAt files path with
      | error e =>
          constructor
          · rintro ⟨⟩
          · rintro ⟨ds, hds, -⟩
            cases hds with
            | cons hd _ =>
                rw [hpath] at hd
                cases hd
      | ok d =>
          dsimp only
          rw [ih]
          constructor
          · rintro ⟨ds, hds, rfl⟩
            exact ⟨d :: ds, .cons hpath hds, rfl⟩
          · rintro ⟨ds, hds, rfl⟩
            cases hds with
            | cons hd hds =>
                rw [hpath] at hd
                cases hd
                exact ⟨_, hds, rfl⟩

/-- A definition with the identifier under which it is found. -/
def entry (d : ModuleDefinition) : String × ModuleDefinition := (canonicalModuleId d.id, d)

theorem definitions_foldl_insert (ds : List ModuleDefinition) (b : Bundle) :
    (ds.foldl (fun b d => (insert d b).2) b).definitions =
      Dict.override b.definitions (ds.map entry) := by
  induction ds generalizing b with
  | nil => rfl
  | cons d ds ih => exact ih _

/-- A bundle that was filled with definitions of different identifiers finds each of them. -/
theorem definitions_filled (ds : List ModuleDefinition) :
    (ds.foldl (fun b d => (insert d b).2) {}).definitions = Dict.ofPairs (ds.map entry) :=
  definitions_foldl_insert ds {}

/-- What a bundle that is filled from a directory is filled with. -/
theorem addDirectory_eq_ok (hglob : files.glob (filePattern directory) = .ok paths) :
    (addDirectory files directory).run.run {} = (.ok n, b) ↔
      n = paths.length ∧
        ∃ ds, List.Forall₂ (fun path d => definitionAt files path = .ok d) paths ds ∧
          b = ds.foldl (fun b d => (insert d b).2) {} := by
  rw [addDirectory, hglob]
  dsimp only
  rw [Activity.run_bind]
  rcases hrun : (paths.forM (addFile files)).run.run {} with ⟨e | u, filled⟩
  · dsimp only
    constructor
    · rintro ⟨⟩
    · rintro ⟨-, ds, hds, rfl⟩
      rw [run_addFiles_eq_ok.mpr ⟨ds, hds, rfl⟩] at hrun
      cases hrun
  · obtain ⟨ds, hds, rfl⟩ := run_addFiles_eq_ok.mp hrun
    dsimp only
    rw [Activity.run_pure]
    constructor
    · rintro ⟨⟩
      exact ⟨rfl, ds, hds, rfl⟩
    · rintro ⟨rfl, ds', hds', rfl⟩
      rw [run_addFiles_eq_ok.mpr ⟨ds', hds', rfl⟩] at hrun
      rw [(Prod.mk.inj hrun).2]

end Stencil.Bundle
