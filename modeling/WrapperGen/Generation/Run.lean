import WrapperGen.Enumeration
import WrapperGen.Generation.Aggregation
import WrapperGen.Generation.Report
import WrapperGen.Generator
import WrapperGen.Inheritance

/-!
# Runs

A run enumerates the source units, plans and resolves their classes, and then generates the modules of
all target languages and what puts them together. A class that fails is skipped; a file that cannot be
written ends the run.
-/

namespace WrapperGen

/-- A scheduled class and what it resolved to. -/
structure Job where
  scheduled : Scheduled
  resolved : Resolved
deriving DecidableEq, Repr, Inhabited

namespace Generation

/-- Resolve scheduled classes one after the other; those that cannot be resolved come second. -/
def resolveAll (t : ClassTable) : ClassTable.Memo → List Scheduled → List Job × List Skipped
  | _, [] => ([], [])
  | memo, c :: rest =>
    match t.resolveWith memo c.className with
    | (.ok r, memo') =>
      let (jobs, failed) := resolveAll t memo' rest
      (⟨c, r⟩ :: jobs, failed)
    | (.error e, memo') =>
      let (jobs, failed) := resolveAll t memo' rest
      (jobs, ⟨c.className, c.unitPath, e⟩ :: failed)

/-- What became of a job. -/
inductive Outcome where
  | generated (file : Path)
  | skipped (s : Skipped)
deriving DecidableEq, Repr, Inhabited

def Outcome.file? : Outcome → Option Path
  | generated file => some file
  | skipped _ => none

def Outcome.skipped? : Outcome → Option Skipped
  | generated _ => none
  | skipped s => some s

variable {σ : Type} [Host σ]

/-- Generate and write the module of one class. -/
def generate (s : Settings) (t : ClassTable) (target : Target) (job : Job) : Step σ Outcome := do
  let g : Generator := ⟨s, t, target, Host.overridden (← get)⟩
  match g.render job.resolved with
  | .ok (file, text) =>
    Host.write file text
    return .generated file
  | .error e =>
    if e.isClassScoped then
      return .skipped ⟨job.scheduled.className, job.scheduled.unitPath, e⟩
    else throw e

def sortedPaths (paths : List Path) : List Path := paths.mergeSort Path.le

def sortedSkipped (skipped : List Skipped) : List Skipped :=
  skipped.mergeSort fun a b => decide (a.className ≤ b.className)

/-- Put the modules of a target language together, and report on it. -/
def putTogether (s : Settings) (target : Target) (outcomes : List Outcome) : Step σ TargetReport := do
  let generated := sortedPaths (outcomes.filterMap Outcome.file?)
  return {
    target
    generated
    skipped := sortedSkipped (outcomes.filterMap Outcome.skipped?)
    aggregates := ← Aggregate.write s target generated }

/-- Serve target languages with jobs. They are served side by side, a task for every job, and each puts its
modules together once its own tasks are done; what the tasks do may come in any order. Here all modules come
first, and then what puts them together. -/
def serve (s : Settings) (t : ClassTable) (served : List Target) (jobs : List Job) :
    Step σ (List TargetReport) := do
  let modules ← served.mapM fun target => return (target, ← jobs.mapM (generate s t target))
  modules.mapM fun (target, outcomes) => putTogether s target outcomes

/-- The target languages of a run: those asked for and enabled. -/
def targets (s : Settings) (asked : List Target) : List Target :=
  Target.all.filter fun target => asked.contains target && s.isEnabled target

/-- Run a generation for the target languages asked for. -/
def run (s : Settings) (t : ClassTable) (asked : List Target) : Step σ Report := do
  let units ← SourceUnit.enumerate s t (Host.disk (← get))
  let plan := Plan.ofUnits t units
  let (jobs, failed) := resolveAll t {} plan.classes
  let reports ← serve s t (targets s asked) jobs
  return ⟨reports, plan.skipped ++ failed⟩

end Generation
end WrapperGen
