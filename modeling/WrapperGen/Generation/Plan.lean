import WrapperGen.ClassTable.Basic
import WrapperGen.SourceUnit

/-!
# Plans

The classes of a run are those of its source units: of each unit its primary class, then the other
classes at the same unit path. A class is scheduled once, for the first unit that has it. A unit whose
class the table does not know is skipped.
-/

namespace WrapperGen

/-- A class to be generated, and the unit it was scheduled for. -/
structure Scheduled where
  className : String
  unitPath : String
deriving DecidableEq, Repr, Inhabited

/-- A class that is not generated, and why. -/
structure Skipped where
  className : String
  unitPath : String
  error : Error
deriving DecidableEq, Repr, Inhabited

structure Plan where
  classes : List Scheduled
  skipped : List Skipped
deriving DecidableEq, Repr, Inhabited

namespace Plan

/-- Schedule the classes of a unit that are not scheduled yet. -/
def schedule (unitPath : String) (classes : List Scheduled) (names : List String) : List Scheduled :=
  names.foldl (fun done name =>
    if done.any (·.className = name) then done else done ++ [⟨name, unitPath⟩]) classes

/-- Add a unit to a plan. -/
def add (t : ClassTable) (plan : Plan) (u : SourceUnit) : Plan :=
  match t.extras u.className with
  | .ok extras =>
    { plan with classes := schedule u.unitPath plan.classes (u.className :: extras) }
  | .error e => { plan with skipped := plan.skipped ++ [⟨u.className, u.unitPath, e⟩] }

def ofUnits (t : ClassTable) (units : List SourceUnit) : Plan := units.foldl (add t) ⟨[], []⟩

end Plan
end WrapperGen
