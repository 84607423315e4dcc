/-
Identifiers of modules.

The identifier of a module is its plugin, the separator and the name of its template.  The name
can be read off it as long as the plugin is known; a name that happens to start with a plugin and
a separator itself is read off one level too deep.
-/
import Mathlib
import Stencil.Build.Definition
import Stencil.Bundle
import Stencil.Proofs.Text.Search

namespace Stencil

theorem toList_moduleId (plugin name : String) :
    (moduleId plugin name).toList = plugin.toList ++ pluginSeparator :: name.toList := by
  simp [moduleId]

theorem moduleId_injective (plugin : String) : Function.Injective (moduleId plugin) := by
  intro a b h
  have hl := congrArg String.toList h
  rw [toList_moduleId, toList_moduleId] at hl
  exact String.toList_inj.mp (List.cons_injective (List.append_cancel_left hl))

namespace ModuleDefinition

theorem toList_mark (plugin : String) :
    (mark plugin).toList = plugin.toList ++ [pluginSeparator] := by
  simp [mark, toList_moduleId]

/-- An identifier names a template for a plugin exactly if it is the identifier of the plugin's
module of that name. -/
theorem templateOf?_eq_some_iff {plugin id name : String} :
    templateOf? plugin id = some name ↔ id = moduleId plugin name := by
  have hstart : ∀ rest : List Char,
      Text.strip? (mark plugin).toList id.toList = some rest ↔
        id.toList = plugin.toList ++ pluginSeparator :: rest := by
    intro rest
    rw [Text.strip?_eq_some_iff, toList_mark]
    simp
  rw [templateOf?, Option.map_eq_some_iff]
  constructor
  · rintro ⟨rest, hrest, rfl⟩
    apply String.toList_inj.mp
    rw [toList_moduleId, String.toList_ofList]
    exact (hstart rest).mp hrest
  · rintro rfl
    exact ⟨name.toList, (hstart _).mpr (toList_moduleId plugin name), String.ofList_toList⟩

@[simp] theorem templateOf?_moduleId (plugin name : String) :
    templateOf? plugin (moduleId plugin name) = some name :=
  templateOf?_eq_some_iff.mpr rfl

end ModuleDefinition

/-- The canonical form of a module's identifier keeps the plugin and normalizes the name. -/
theorem canonicalModuleId_moduleId {plugin : String} (h : pluginSeparator ∉ plugin.toList)
    (name : String) :
    canonicalModuleId (moduleId plugin name) = moduleId plugin (Path.normalize name) := by
  rw [canonicalModuleId, toList_moduleId, Text.splitOnce?_append h]
  simp

end Stencil
