import ScriptModules.Import.Basic
import ScriptModules.Rule.Basic

/-!
# Edge cases

Settings for a single file. An override takes the place of what would be derived; the other settings
are added to it.
-/

namespace ScriptModules

/-- The settings for one file. -/
structure EdgeCase where
  exportsOverride : Option (List Export) := none
  importsOverride : Option (List Import) := none
  replacementsOverride : Option (List WrittenRule) := none
  outputOverride : Option String := none
  exports : List Export := []
  imports : List Import := []
  replacements : List WrittenRule := []

end ScriptModules
