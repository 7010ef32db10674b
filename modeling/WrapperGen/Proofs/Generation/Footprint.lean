import WrapperGen.Proofs.Generation.Overrides

/-!
# Footprints of runs

The report of a run names all files that the run left: the generated modules, the indexes, the markers
it had to create and the aggregator. All else in the tree is as it was.
-/

namespace WrapperGen.Generation

open Aggregate (indexFile packageMarker)

variable {s : Settings} {t : ClassTable} {asked : List Target} {served : List Target} {a b : FileTree}

/-- Of the files written over only the aggregator can have the name of a marker. -/
theorem Rewritten.aggregator_of_marker {p : Path} {dir : Location} (h : Rewritten s served p)
    (hl : b.locate p = .ok (dir ++ [packageMarker])) :
    .python ∈ served ∧ p = (s.placement .python).root.child s.python.aggregator := by
  have hmarker : (dir ++ [packageMarker]).getLast? = some packageMarker := by simp
  cases h with
  | wrapper target c unitPath =>
    rw [Placement.generatedPath, Settings.placement_target] at hl
    obtain ⟨hlast, x, hx⟩ := FileTree.getLast?_of_locate_child (by cases target <;> decide)
      (by cases target <;> exact ⟨'a', by decide⟩) hl
    rw [hmarker, Option.some.injEq, hx] at hlast
    have hends := Text.endsWith_iff.2 ⟨x, hlast⟩
    cases target <;> exact absurd hends (by decide)
  | index dir' =>
    have hfile : indexFile = "index" ++ Target.javascript.moduleExtension := by decide
    rw [hfile] at hl
    obtain ⟨hlast, -⟩ := getLast?_of_locate_module hl
    rw [hmarker] at hlast
    exact absurd hlast (by decide)
  | aggregator mem => exact ⟨mem, rfl⟩

/-- The report of a run that succeeds is its footprint, in whatever order its operations come. Every file of the
tree is as it was, in particular absent where it was, unless a path of the report leads to it; every path of the
report leads to a file afterwards; and no file goes away. A marker that stood before is neither changed nor named,
unless the package is served and it is the aggregator. -/
theorem report_footprint {report : Report} (h : RunsTo s t asked a (.ok report) b) :
    (∀ l, b.file? l = a.file? l ∨ ∃ p, report.Lists p ∧ b.locate p = .ok l) ∧
    (∀ p, report.Lists p → b.isFile p = true) ∧
    (∀ l, (a.file? l).isSome → (b.file? l).isSome) ∧
    ∀ dir : Location, (a.file? (dir ++ [packageMarker])).isSome →
      (b.file? (dir ++ [packageMarker]) = a.file? (dir ++ [packageMarker]) ∧
        ∀ p, report.Lists p → b.locate p ≠ .ok (dir ++ [packageMarker])) ∨
      (.python ∈ targets s asked ∧
        b.locate ((s.placement .python).root.child s.python.aggregator) =
          .ok (dir ++ [packageMarker])) := by
  obtain ⟨-, -, -, -, hfootprint⟩ := h.accounts
  refine ⟨hfootprint.changed, hfootprint.listed, hfootprint.files, fun dir hdir => ?_⟩
  by_cases hnamed : ∃ p, report.Lists p ∧ b.locate p = .ok (dir ++ [packageMarker])
  · obtain ⟨p, hp, hl⟩ := hnamed
    by_cases hrewritten : Rewritten s (targets s asked) p
    · obtain ⟨hserved, rfl⟩ := hrewritten.aggregator_of_marker hl
      exact .inr ⟨hserved, hl⟩
    · -- A path that is not written over leads to where nothing stood.
      have hfree := hfootprint.fresh p _ hp hrewritten hl
      simp [FileTree.file?, hfree] at hdir
  · exact .inl ⟨(hfootprint.changed _).resolve_right hnamed, fun p hp hl => hnamed ⟨p, hp, hl⟩⟩

theorem report_footprint_ring : ∃ report,
    RunsTo {} loneTable Target.all handwritten (.ok report) packageTree ∧
      (∀ l, packageTree.file? l = handwritten.file? l ∨
        ∃ p, report.Lists p ∧ packageTree.locate p = .ok l) ∧
      ∀ p, report.Lists p → packageTree.isFile p = true := by
  obtain ⟨report, hrun⟩ := run_lone
  have hruns := runsTo_of_run hrun
  obtain ⟨hchanged, hlisted, -⟩ := report_footprint hruns
  exact ⟨report, hruns, hchanged, hlisted⟩

end WrapperGen.Generation
