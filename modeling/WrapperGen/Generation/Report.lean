import WrapperGen.Generation.Plan
import WrapperGen.Target

/-!
# Reports

What a run did: for every target language the files it wrote and the classes it skipped, and the
classes that no language could be generated for.
-/

namespace WrapperGen

/-- What a run did for one target language. -/
structure TargetReport where
  target : Target
  /-- The generated modules, in path order. -/
  generated : List Path
  /-- The classes without a module, in name order. -/
  skipped : List Skipped
  /-- The files that put the modules together, in the order of their writing. -/
  aggregates : List Path
deriving DecidableEq, Repr, Inhabited

/-- What a run did. -/
structure Report where
  targets : List TargetReport
  /-- The classes that are unknown or cannot be resolved. -/
  unresolved : List Skipped
deriving DecidableEq, Repr, Inhabited

namespace Report

def generatedCount (r : Report) : Nat := (r.targets.flatMap (·.generated)).length

/-- Every class that was skipped somewhere. -/
def skipped (r : Report) : List Skipped := r.unresolved ++ r.targets.flatMap (·.skipped)

/-- Whether nothing was skipped. -/
def isClean (r : Report) : Bool := r.skipped.isEmpty

def targetLine (t : TargetReport) : String :=
  "✓ " ++ t.target.name ++ ": " ++ toString t.generated.length ++ " generated, " ++
    toString t.skipped.length ++ " skipped, " ++ toString t.aggregates.length ++
    " aggregation files\n"

def skippedLine (s : Skipped) : String :=
  "✗ " ++ s.className ++ " (" ++ s.unitPath ++ "): " ++ s.error.message ++ "\n"

def summary (r : Report) : String :=
  String.join (r.targets.map targetLine) ++
    if r.isClean then "\nGeneration complete!\n"
    else "\n" ++ toString r.skipped.length ++ " classes skipped:\n" ++
      String.join (r.skipped.map skippedLine)

end Report
end WrapperGen
