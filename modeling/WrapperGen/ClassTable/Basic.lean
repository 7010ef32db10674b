import Std.Data.HashMap
import WrapperGen.ClassRecord
import WrapperGen.Error

/-!
# Class tables

A class table holds the records of all classes in order, the record of defaults, the name of the root
class, and an index of the classes by unit path.
-/

namespace WrapperGen

/-- Classes by unit path. -/
abbrev PathIndex := Std.HashMap String (List String)

namespace PathIndex

def enter (index : PathIndex) (c : String × ClassRecord) : PathIndex :=
  let path := c.2.unitPathOf c.1
  index.insert path (index.getD path [] ++ [c.1])

def ofClasses (classes : Keyed ClassRecord) : PathIndex := classes.entries.foldl enter {}

end PathIndex

/-- The records of one run. -/
structure ClassTable where
  classes : Keyed ClassRecord
  defaults : ClassRecord
  /-- The class at which every chain of superclasses ends; it need not have a record. -/
  root : String
  /-- The classes at each unit path, in order. -/
  byPath : PathIndex
  indexed : byPath = PathIndex.ofClasses classes

namespace ClassTable

/-- The key of the record of defaults. -/
def defaultsKey : String := "_defaults"

/-- The root class when none is configured. -/
def defaultRoot : String := "Three"

def ofClasses (classes : Keyed ClassRecord) (defaults : ClassRecord) : ClassTable :=
  { classes, defaults, root := defaultRoot, byPath := .ofClasses classes, indexed := rfl }

/-- The table of given records, of which the last one of a name counts, and defaults. -/
def ofRecords (records : Named ClassRecord) (defaults : ClassRecord) : ClassTable :=
  ofClasses (.ofList records) defaults

/-- The table of records that may hold the defaults under their key. -/
def ofEntries (entries : Keyed ClassRecord) : ClassTable :=
  ofClasses (entries.erase defaultsKey) ((entries.get? defaultsKey).getD .empty)

def withRoot (t : ClassTable) (root : String) : ClassTable := { t with root }

def isRoot (t : ClassTable) (name : String) : Bool := name = t.root

def get? (t : ClassTable) (name : String) : Option ClassRecord := t.classes.get? name

def has (t : ClassTable) (name : String) : Bool := t.classes.has name

def names (t : ClassTable) : List String := t.classes.names

/-- Whether a reference to a name can be followed: it is a class or the root. -/
def knows (t : ClassTable) (name : String) : Bool := t.has name || t.isRoot name

def unitPath (t : ClassTable) (name : String) : Except Error String :=
  match t.get? name with
  | some r => .ok (r.unitPathOf name)
  | none => .error (.unknownClass name)

/-- The other classes at the unit path of a class, in order. -/
def extras (t : ClassTable) (name : String) : Except Error (List String) := do
  let path ← t.unitPath name
  return (t.byPath.getD path []).filter (· ≠ name)

end ClassTable

/-- Whether a reference is a path and not the name of a class. -/
def isBarePath (reference : String) : Bool := reference.toList.contains '/'

end WrapperGen
