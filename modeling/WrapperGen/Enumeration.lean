import WrapperGen.FileTree
import WrapperGen.Settings
import WrapperGen.SourceUnit
import WrapperGen.ClassTable.Basic

/-!
# Enumeration of source units

The units of a run are the files of the wrapped library, or, without a library, the classes of the
table whose names are the last segments of their unit paths.
-/

namespace WrapperGen.SourceUnit

/-- The units that a table's classes are primary in, in table order. -/
def ofTable (t : ClassTable) : List SourceUnit :=
  t.classes.entries.filterMap fun (name, r) =>
    let unit := ofPath (r.unitPathOf name)
    if unit.className = name then some unit else none

/-- Whether neither an entry of a library nor a directory on the way to it is hidden. -/
def isVisible (names : List String) : Bool := !names.any (Text.startsWith ".")

/-- The unit of an entry of a library, if it is a file with the given extension. -/
def ofVisit? (extension : String) (v : FileTree.Visit) : Option SourceUnit :=
  if !v.entry.isDir && v.path.extension? = some extension then some (ofPath ("/".intercalate v.names))
  else none

def ofTree (t : FileTree) (root : Path) (extension : String) : Except Error (List SourceUnit) := do
  let visits ← t.walk root fun names _ => isVisible names
  return visits.filterMap (ofVisit? extension)

/-- The units of a run. -/
def enumerate (s : Settings) (table : ClassTable) (t : FileTree) : Except Error (List SourceUnit) := do
  let units ← match s.run.sourceRoot with
    | some root => ofTree t root s.run.sourceExtension
    | none => .ok (ofTable table)
  return units.filter fun u => isSelected u.unitPath s.run.included s.run.excluded

end WrapperGen.SourceUnit
