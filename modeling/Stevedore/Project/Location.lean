import Stevedore.Path

/-!
Where a project file lies, and which directory its relative paths start from: the one that holds
the file, or the working directory for a file named without any.
-/

namespace Stevedore

/-- The name of the project file that is read when none is given. -/
def defaultProjectFile : Path := ⟨"dockhand.toml"⟩

/-- The directory that holds the file, if its path names one. -/
def holdingDirectory? (file : Path) : Option Path :=
  file.parent?.filter fun p => p.text ≠ ""

/-- The directory that the relative paths of a project file start from. -/
def projectDirectory (working : Path) (file : Path) : Path :=
  (holdingDirectory? file).getD working

end Stevedore
