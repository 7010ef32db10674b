import WrapperGen.Proofs.Generation.Scheduling
import WrapperGen.Proofs.Wrapper.Stages

/-!
# Products of runs

A run writes four kinds of files: the generated modules of classes of the table, and per target language
the indexes, the markers and the aggregator.
-/

namespace WrapperGen.Generation

open Aggregate (indexFile packageMarker)

/-- The files that a run may write for a target language. -/
inductive Product (s : Settings) (t : ClassTable) : Target → Path → Prop
  | wrapper {target : Target} {c : String} {own : ClassRecord} (record : t.get? c = some own) :
      Product s t target ((s.placement target).generatedPath c (own.unitPathOf c))
  | index (dir : Path) : Product s t .javascript (dir.child indexFile)
  | marker (dir : Path) : Product s t .python (dir.child packageMarker)
  | aggregator : Product s t .python ((s.placement .python).root.child s.python.aggregator)

/-- The paths at which a run writes over what is there. Markers are not among them. -/
inductive Rewritten (s : Settings) (served : List Target) : Path → Prop
  | wrapper (target : Target) (c unitPath : String) :
      Rewritten s served ((s.placement target).generatedPath c unitPath)
  | index (dir : Path) : Rewritten s served (dir.child indexFile)
  | aggregator (mem : .python ∈ served) :
      Rewritten s served ((s.placement .python).root.child s.python.aggregator)

variable {s : Settings} {t : ClassTable}

theorem product_file (target : Target) {job : Job} {c : String} (h : t.resolve c = .ok job.resolved) :
    Product s t target (job.file s target) := by
  obtain ⟨own, above, hown, hmerge⟩ := ClassTable.resolve_eq_merge h
  rw [Job.file, hmerge]
  exact .wrapper hown

end WrapperGen.Generation
