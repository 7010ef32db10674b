import WrapperGen.Inheritance
import WrapperGen.Placement

/-!
# References between wrappers

A wrapper imports its superclass, its dependencies and the classes its own properties name. Each of
them is an artifact with files of its own in the output tree; an override that stands there is
imported in place of the generated module.
-/

namespace WrapperGen

structure Artifact where
  /-- The class it is known as. -/
  name : String
  /-- The beginning of its files' names. -/
  stem : String
  unitPath : String
deriving DecidableEq, Repr, Inhabited

/-- An import as one file writes it. -/
structure Reference where
  className : String
  unitPath : String
  file : Path
  importPath : String
  isOverride : Bool
deriving DecidableEq, Repr, Inhabited

abbrev References := Std.ExtTreeMap String Reference

/-- What references are looked up in. -/
structure Linker where
  table : ClassTable
  placement : Placement
  /-- Whether an override stands at a path. -/
  overridden : Path → Bool
  /-- The unit path of the base type, which the root class stands for. -/
  basePath : String

namespace Linker

/-- The unit path of the base type where none is configured. -/
def defaultBasePath (root : String) : String := "_base/" ++ root

def withBasePath (l : Linker) (path : String) : Linker :=
  { l with basePath := UnitPath.normalize path }

def base (l : Linker) : Artifact := ⟨l.table.root, UnitPath.unitName l.basePath, l.basePath⟩

/-- What a reference of a class leads to: a class of the table, the base type, or the file at a bare
path, in this order. -/
def locate (l : Linker) (source reference : String) : Except Error Artifact :=
  match l.table.get? reference with
  | some r => .ok ⟨reference, reference, r.unitPathOf reference⟩
  | none =>
    if l.table.isRoot reference then .ok l.base
    else if isBarePath reference then
      let path := UnitPath.normalize reference
      .ok ⟨UnitPath.unitName path, UnitPath.unitName path, path⟩
    else .error (.invalidReference source reference)

def locateReferent (l : Linker) (source : String) : Referent → Except Error Artifact
  | .named c => l.locate source c
  | .base => .ok l.base

/-- How a file imports an artifact: its override if that stands, else its generated module. -/
def describe (l : Linker) (file : Path) (a : Artifact) : Reference :=
  let overriding := l.placement.overridePath a.stem a.unitPath
  let isOverride := l.overridden overriding
  let target := if isOverride then overriding else l.placement.generatedPath a.stem a.unitPath
  { className := a.name
    unitPath := a.unitPath
    file := target
    importPath := l.placement.importPath file target
    isOverride }

def baseReference (l : Linker) (file : Path) : Reference := l.describe file l.base

def parent (l : Linker) (r : Resolved) : Except Error Artifact :=
  match r.superClass with
  | some c => l.locate r.className c
  | none => .ok l.base

def superclass (l : Linker) (r : Resolved) (file : Path) : Except Error Reference :=
  (l.parent r).map (l.describe file)

/-- The artifacts a class names besides its superclass: its dependencies, then what its own
properties refer to. -/
def named (l : Linker) (r : Resolved) : Except Error (List Artifact) := do
  let dependencies ← r.dependencies.mapM (l.locate r.className)
  let referents ←
    (r.ownProperties.entries.flatMap (·.2.references)).mapM (l.locateReferent r.className)
  return dependencies ++ referents

/-- The references of a class as a file imports them. A class does not import itself. -/
def references (l : Linker) (r : Resolved) (file : Path) : Except Error References := do
  let parent ← l.superclass r file
  let others := (← l.named r).filter (·.name ≠ r.className)
  return (others.map (l.describe file)).foldl (fun refs d => refs.insert d.className d)
    (Std.ExtTreeMap.empty.insert parent.className parent)

end Linker

namespace Reference

def value (r : Reference) : Value :=
  .record [("targetClass", .text r.className), ("targetRelativePath", .text r.unitPath),
    ("resolvedPath", .text r.file.text), ("importPath", .text r.importPath),
    ("isOverride", .bool r.isOverride)]

end Reference

/-- References as a value, in name order. -/
def References.value (refs : References) : Value :=
  .record (refs.toList.map fun (name, r) => (name, r.value))

end WrapperGen
