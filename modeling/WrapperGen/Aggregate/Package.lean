import WrapperGen.Aggregate.Listing
import WrapperGen.Placement

/-!
# Package registration

Every directory that holds generated output is made a package by a marker file. One aggregator at
the output root imports every module. A generated module with an override is left to the override,
which imports it itself.
-/

namespace WrapperGen.Aggregate

def packageMarker : String := "__init__.py"

/-- What the aggregator leaves out. -/
structure PackageRules where
  /-- The aggregator's own file name, below the output root. -/
  aggregator : String
  /-- Modules that are never imported. -/
  denied : List String
deriving DecidableEq, Repr, Inhabited

/-- Insert a path into a list in component order, unless one with its components is there. -/
def insertPath (p : Path) : List Path → List Path
  | [] => [p]
  | q :: r => if p.same q then q :: r else if p.le q then p :: q :: r else q :: insertPath p r

/-- A directory and those on the way down to it by the given components. -/
def chain (dir : Path) : List Component → List Path
  | [] => [dir]
  | c :: r => dir :: chain (dir.child c.text) r

/-- The directories from the output root down to a file's, if it lies below the root. -/
def markerChain (p : Placement) (file : Path) : List Path :=
  match file.parent? with
  | none => []
  | some dir =>
    match Path.below? p.root dir with
    | some components => chain p.root components
    | none => []

/-- The directories that have to be packages, in component order. -/
def markerDirs (p : Placement) (files : List Path) : List Path :=
  (files.flatMap (markerChain p)).foldl (fun dirs d => insertPath d dirs) []

/-- Whether the aggregator imports a file of the output tree. -/
def PackageRules.imports (r : PackageRules) (p : Placement) (files : List Path) (file : Path) : Bool :=
  match file.fileName? with
  | none => false
  | some name =>
    !isArtifact name && Text.endsWith p.target.moduleExtension name && name ≠ packageMarker &&
      name ≠ r.aggregator && !r.denied.contains name &&
      (!p.isGenerated name || !((p.overrideFor? file).any fun o => files.any o.same))

/-- The modules the aggregator imports, in walk order. Without an output tree there are none. -/
def planPackage (r : PackageRules) (p : Placement) (t : FileTree) : Except Error (List String) :=
  if t.isDir p.root then do
    let visits ← t.walk p.root isMet
    let files := (visits.filter (!·.entry.isDir)).map (·.path)
    return (files.filter (r.imports p files)).filterMap p.modulePath?
  else .ok []

end WrapperGen.Aggregate
