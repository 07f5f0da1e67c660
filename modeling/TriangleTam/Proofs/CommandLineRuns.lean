import TriangleTam.CommandLine
import TriangleTam.Proofs.Renaming

/-! # Runs of the command line

  A run goes through the passes by itself and logs more than a whole
  compilation does: it counts the parsed program, and announces how many
  operations were folded. Code generation writes to the journal and never
  reads it, so the run ends as the compilation with the same options ends. It
  writes the bytes of the object program or shows the diagnostics, with
  nothing left out, added or reordered.

  An object program exists also after restrictions were reported. It is
  neither written nor listed.
-/

namespace TriangleTam

namespace CommandLine

/-! ## Builds -/

/-- The build ends as the compilation does. -/
def Build.Agrees (b : Build) : Except (Array Diagnostic) ObjectProgram → Prop
  | .ok object => b.result? = some object ∧ b.journal.diagnostics = #[]
  | .error diagnostics => b.result? = none ∧ b.journal.diagnostics = diagnostics

namespace Build.Agrees

variable {b : Build}

end Build.Agrees

section Passes

variable {source : String} {program : Program}

end Passes

/-- The options that arguments ask for: those of the options file, if one is named, and those that
    are switched on besides. -/
inductive Arguments.Asks (files : Files) (arguments : Arguments) : Options → Prop
  | switches (unnamed : arguments.config = none) :
      arguments.Asks files ⟨arguments.folding, arguments.showTable⟩
  | file {path text : String} {found : Options} (named : arguments.config = some path)
      (read : files.read path = .ok text) (valid : Options.ofJson? text = some found) :
      arguments.Asks files
        ⟨found.folding || arguments.folding, found.showTable || arguments.showTable⟩

variable {files : Files} {arguments : Arguments}

theorem Arguments.Asks.options {asked : Options} (h : arguments.Asks files asked) :
    options files arguments = .ok asked := by
  unfold CommandLine.options
  cases h with
  | switches unnamed => rw [unnamed]
  | file named read valid =>
    rw [named]
    simp only [read, valid]
    rfl

/-- The options file that is named is no good. -/
inductive Arguments.Misled (files : Files) (arguments : Arguments) : Prop
  | unreadable {path : String} {fault : FileFault} (named : arguments.config = some path)
      (read : files.read path = .error fault)
  | invalid {path text : String} (named : arguments.config = some path)
      (read : files.read path = .ok text) (invalid : Options.ofJson? text = none)

theorem Arguments.Misled.options (h : arguments.Misled files) :
    ∃ message, options files arguments = .error message := by
  unfold CommandLine.options
  cases h with
  | unreadable named read =>
    rw [named]
    simp only [read]
    exact ⟨_, rfl⟩
  | invalid named read invalid =>
    rw [named]
    simp only [read, invalid]
    exact ⟨_, rfl⟩

/-! ## Runs -/

end CommandLine

end TriangleTam
