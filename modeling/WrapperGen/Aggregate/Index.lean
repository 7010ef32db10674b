import WrapperGen.Aggregate.Listing
import WrapperGen.Placement
import WrapperGen.Text.Names

/-!
# Directory indexes

Every directory of an output tree gets an index which exports its modules and the indexes of the
directories in it. A generated module is listed only when no override stands next to it; in the base
directory generated modules are never listed.
-/

namespace WrapperGen.Aggregate

def indexFile : String := "index.js"

/-- What an index leaves out. -/
structure IndexRules where
  /-- The directory of base modules written by hand, below the output root. -/
  baseDir : String
  /-- Modules that are entry points, never exported. -/
  entryPoints : List String
deriving DecidableEq, Repr, Inhabited

/-- Whether an override of a generated module stands among the files of its directory. -/
def hasOverrideAmong (p : Placement) (files : List String) (name : String) : Bool :=
  match p.overrideFor? ⟨name⟩ with
  | some o => files.contains o.text
  | none => false

/-- Whether an index lists a file. -/
def IndexRules.lists (r : IndexRules) (p : Placement) (inBase : Bool) (files : List String)
    (name : String) : Bool :=
  !isArtifact name && Text.endsWith p.target.moduleExtension name && name ≠ indexFile &&
    !r.entryPoints.contains name &&
    (!p.isGenerated name || (!inBase && !hasOverrideAmong p files name))

/-- The modules an index exports, given the files and directories in its directory: files first,
then the indexes of the directories, each in name order. -/
def indexModules (r : IndexRules) (p : Placement) (inBase : Bool) (files dirs : List String) :
    List String :=
  ((Names.sorted files).filter (r.lists p inBase files)).map ("./" ++ ·) ++
    (Names.sorted dirs).map fun d => "./" ++ d ++ "/" ++ indexFile

structure IndexPlan where
  path : Path
  /-- Whether this is the index of the output root. -/
  top : Bool
  modules : List String
deriving DecidableEq, Repr, Inhabited

def filesOf (entries : List (String × Entry)) : List String :=
  (entries.filter fun e => !e.2.isDir).map (·.1)

/-- The directories in a directory that are entered. -/
def dirsOf (entries : List (String × Entry)) : List String :=
  (entries.filter fun e => e.2.isDir && !isSkippedDir e.1).map (·.1)

/-- The index of a directory met on a walk over the output tree. -/
def indexOf (r : IndexRules) (p : Placement) (t : FileTree) (root : Location)
    (v : FileTree.Visit) : IndexPlan :=
  let entries := t.children (root ++ v.names)
  { path := v.path.child indexFile
    top := v.names.isEmpty
    modules := indexModules r p (v.path.same (p.root.child r.baseDir)) (filesOf entries)
      (dirsOf entries) }

/-- The indexes of an output tree, a directory's before those of the directories in it. Without an
output tree there are none. -/
def planIndexes (r : IndexRules) (p : Placement) (t : FileTree) : Except Error (List IndexPlan) :=
  if t.isDir p.root then do
    let root ← (t.locate p.root).mapError (Error.io p.root)
    let visits ← t.walk p.root isMet
    return (visits.filter (·.entry.isDir)).map (indexOf r p t root)
  else .ok []

end WrapperGen.Aggregate
