import WrapperGen.Aggregate.Index
import WrapperGen.Aggregate.Package
import WrapperGen.Host
import WrapperGen.Template.Catalog
import WrapperGen.Wrapper.Basic

/-!
# Writing what puts modules together

After all modules of a target language are written, the output tree is listed and its indexes, or its
package markers and its aggregator, are written.
-/

namespace WrapperGen.Aggregate

def IndexRules.ofSettings (s : Settings) : IndexRules := ⟨s.layout.baseDir, s.javascript.entryPoints⟩

def PackageRules.ofSettings (s : Settings) : PackageRules := ⟨s.python.aggregator, s.python.denied⟩

def indexText (library : Library) (plan : IndexPlan) : Except Error String :=
  Template.jsIndex.render plan.path.text
    (.record [("version", .text version), ("top", .bool plan.top), ("library", library.value),
      ("modules", .ofTexts plan.modules)])

def packageText (aggregator : String) (modules : List String) : Except Error String :=
  Template.pyPackage.render aggregator
    (.record [("version", .text version), ("modules", .ofTexts modules)])

variable {σ : Type} [Host σ]

def writeIndex (library : Library) (plan : IndexPlan) : Step σ Path := do
  let text ← indexText library plan
  Host.write plan.path text
  return plan.path

def writeIndexes (s : Settings) (p : Placement) : Step σ (List Path) := do
  let plans ← planIndexes (.ofSettings s) p (Host.disk (← get))
  plans.mapM (writeIndex s.library)

/-- Make a directory a package; answers its marker if that was missing. -/
def ensureMarker (dir : Path) : Step σ (Option Path) := do
  let marker := dir.child packageMarker
  return if ← Host.ensure marker then some marker else none

/-- Make every directory down to given files a package; answers the markers that were missing. -/
def ensureMarkers (p : Placement) (files : List Path) : Step σ (List Path) := do
  return (← (markerDirs p files).mapM ensureMarker).filterMap id

def writePackage (s : Settings) (p : Placement) : Step σ Path := do
  let modules ← planPackage (.ofSettings s) p (Host.disk (← get))
  let path := p.root.child s.python.aggregator
  let text ← packageText s.python.aggregator modules
  Host.write path text
  return path

/-- Write what puts the modules of a target language together. -/
def write (s : Settings) (target : Target) (generated : List Path) : Step σ (List Path) := do
  let p := s.placement target
  match target with
  | .javascript => writeIndexes s p
  | .python =>
    let markers ← ensureMarkers p generated
    return markers ++ [← writePackage s p]

end WrapperGen.Aggregate
