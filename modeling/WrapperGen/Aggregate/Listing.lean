import WrapperGen.FileTree
import WrapperGen.Text.Affix

/-!
# What aggregation looks at

Aggregation lists the final contents of an output tree. It leaves out what editors and operating
systems leave behind, and never enters hidden directories or caches.
-/

namespace WrapperGen.Aggregate

/-- Whether a file was left behind by an editor or an operating system. -/
def isArtifact (name : String) : Bool :=
  Text.startsWith "." name || Text.startsWith "#" name || Text.endsWith "~" name ||
    Text.endsWith ".swp" name || Text.endsWith ".swo" name || Text.endsWith ".bak" name ||
    name = "Thumbs.db"

/-- Whether a directory is never entered. -/
def isSkippedDir (name : String) : Bool :=
  Text.startsWith "." name || name = "node_modules" || name = "__pycache__"

/-- Whether an entry of an output tree is met: no directory on the way to it, itself included, is
skipped. -/
def isMet (names : List String) : Entry → Bool
  | .dir => !names.any isSkippedDir
  | .file _ => !names.dropLast.any isSkippedDir

end WrapperGen.Aggregate
