import WrapperGen.Command.Execution

/-!
# The command line

The command works on the tree of the working directory as it was when it was called; what it changed
there is written afterwards.
-/

namespace WrapperGen.Main

/-- What stands at an entry of a directory: a file, or a directory that no link leads to. -/
def entryOf (entry : IO.FS.DirEntry) : IO (Option Entry) := do
  match (← entry.path.symlinkMetadata).type with
  | .dir => return some .dir
  | .file => return some (.file (← IO.FS.readBinFile entry.path))
  | .symlink =>
    if (← entry.path.metadata).type == .file then
      return some (.file (← IO.FS.readBinFile entry.path))
    else return none
  | .other => return none

/-- Read all that stands below a location. -/
partial def readBelow (location : Location) (entries : Array IO.FS.DirEntry) (t : FileTree) :
    IO FileTree := do
  let mut t := t
  for entry in entries do
    let here := location ++ [entry.fileName]
    match ← (entryOf entry).toBaseIO with
    | .ok (some .dir) => t ← readBelow here (← entry.path.readDir) (t.put here .dir)
    | .ok (some (.file contents)) => t := t.put here (.file contents)
    | _ => pure ()
  return t

/-- Write the entries of a tree that another does not have. -/
def writeChanges (old new : FileTree) : IO Unit := do
  for (location, entry) in new.below [] do
    unless old.entry? location = some entry do
      let name := "/".intercalate location
      match entry with
      | .dir => IO.FS.createDirAll name
      | .file contents => IO.FS.writeBinFile name contents

end WrapperGen.Main

open WrapperGen in
/-- Run the command line in the working directory. -/
def main (args : List String) : IO UInt32 := do
  let old ← Main.readBelow [] (← (← IO.currentDir).readDir) .empty
  let (outcome, new) := Command.run args old
  Main.writeChanges old new
  IO.print outcome.printed
  match outcome.complaint with
  | some c => IO.eprintln c.message
  | none => pure ()
  return UInt32.ofNat outcome.exit
