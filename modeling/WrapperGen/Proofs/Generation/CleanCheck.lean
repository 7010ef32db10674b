import WrapperGen.Command.Execution
import WrapperGen.Proofs.ClassTable.Problems
import WrapperGen.Proofs.Concurrency.Accounts

/-!
# Generation after a clean check

A check looks at names that lead nowhere and at constructor arguments. It does not look at the names of
properties, nor whether they have literals. So a run after a clean check resolves all its classes, and
skips those that the check cannot see through.
-/

namespace WrapperGen

namespace ClassTable

variable {t : ClassTable} {r : Resolved}

theorem argumentProblems_eq_nil_iff :
    argumentProblems r = [] ↔ ∀ a, .property a ∈ r.arguments → a ∈ r.allProperties.names := by
  rw [← List.head?_eq_none_iff, ← Wrapper.failure?_argumentExpressions, failure?_eq_none_iff,
    Wrapper.exists_argumentExpressions_iff]

/-- What a table without problems says of its classes. -/
theorem resolve_of_problems_eq_nil (h : t.problems = []) {c : String} (hc : t.has c = true) :
    ∃ r, t.resolve c = .ok r ∧ t.dangling r = [] ∧
      ∀ a, .property a ∈ r.arguments → a ∈ r.allProperties.names := by
  rw [problems_eq_flatMap_findings, List.flatMap_eq_nil_iff] at h
  have hnone := h c (has_iff_mem.1 hc)
  cases hr : t.resolve c with
  | error e => simp [findings, hr] at hnone
  | ok r =>
    rw [findings_of_resolve hr, problemsOf_eq, List.append_eq_nil_iff, List.map_eq_nil_iff] at hnone
    exact ⟨r, rfl, hnone.1, argumentProblems_eq_nil_iff.1 hnone.2⟩

end ClassTable

namespace Generation

variable {s : Settings} {t : ClassTable} {tree : FileTree}

/-- What a target language asks of a class besides what a check looks at. -/
structure Expressible (target : Target) (r : Resolved) : Prop where
  identified : ∀ e ∈ r.ownProperties.entries, Symbol.isIdentifier e.1 = true
  initialized : ∀ e ∈ r.ownProperties.entries, e.2 ≠ .any none false
  defaulted : target = .python → Defaulted r

/-- A class that a check finds nothing on can be rendered exactly if it is expressible. -/
theorem renderable_iff_expressible {r : Resolved} (hlinked : t.dangling r = [])
    (hdeclared : ∀ a, .property a ∈ r.arguments → a ∈ r.allProperties.names) (target : Target) :
    (Renderable t r ∧ (target = .python → Defaulted r)) ↔ Expressible target r := by
  constructor
  · rintro ⟨⟨-, hidentified, hinitialized, -⟩, hdefaulted⟩
    exact ⟨hidentified, hinitialized, hdefaulted⟩
  · rintro ⟨hidentified, hinitialized, hdefaulted⟩
    exact ⟨⟨ClassTable.dangling_eq_nil_iff.1 hlinked, hidentified, hinitialized, hdeclared⟩,
      hdefaulted⟩

/-- What a target language reports after a clean check. -/
structure ReportsInexpressible (t : ClassTable) (classes : List Scheduled) (report : TargetReport) :
    Prop where
  skipped : ∀ c, c ∈ report.skipped.map (·.className) ↔
    c ∈ classes.map (·.className) ∧ ∃ r, t.resolve c = .ok r ∧ ¬ Expressible report.target r
  rendering : ∀ k ∈ report.skipped, ∃ fault, k.error = .render k.className fault

section

variable {jobs : List Job} {target : Target} {report : TargetReport}

theorem accounts_targets {served : List Target} {reports : List TargetReport}
    (h : List.Forall₂ (Accounts s t jobs) served reports) : reports.map (·.target) = served := by
  induction h with
  | nil => rfl
  | cons head _ ih => rw [List.map_cons, head.served, ih]

/-- What is reported as skipped comes from a job. -/
theorem Accounts.exists_job (h : Accounts s t jobs target report) {k : Skipped}
    (hk : k ∈ report.skipped) : ∃ job ∈ jobs, Becomes s t target job (.skipped k) := by
  obtain ⟨arrived, ⟨outcomes, houtcomes, harrive⟩, -, hskipped⟩ := h.outcomes
  rw [hskipped, skippedOf, sortedSkipped, List.mem_mergeSort] at hk
  obtain ⟨outcome, hmem, hk⟩ := List.mem_filterMap.1 hk
  obtain ⟨job, hjob, hbecomes⟩ := (exists_of_forall₂ houtcomes).2 outcome (harrive.mem_iff.1 hmem)
  cases outcome with
  | generated file => exact nomatch hk
  | skipped k' => exact ⟨job, hjob, Option.some.inj hk ▸ hbecomes⟩

/-- The classes reported as skipped are those of the jobs that cannot be rendered. -/
theorem Accounts.mem_skipped_iff (h : Accounts s t jobs target report) {c : String} :
    c ∈ report.skipped.map (·.className) ↔ ∃ job ∈ jobs, job.scheduled.className = c ∧
      ¬ (Renderable t job.resolved ∧ (target = .python → Defaulted job.resolved)) := by
  constructor
  · intro hc
    obtain ⟨k, hk, rfl⟩ := List.mem_map.1 hc
    obtain ⟨job, hjob, hname, -, hnot, -⟩ := h.exists_job hk
    exact ⟨job, hjob, hname.symm, hnot⟩
  · rintro ⟨job, hjob, rfl, hnot⟩
    obtain ⟨arrived, ⟨outcomes, houtcomes, harrive⟩, -, hskipped⟩ := h.outcomes
    obtain ⟨outcome, hmem, hbecomes⟩ := (exists_of_forall₂ houtcomes).1 job hjob
    cases outcome with
    | generated file => exact absurd hbecomes.2 hnot
    | skipped k =>
      refine List.mem_map.2 ⟨k, ?_, hbecomes.1⟩
      rw [hskipped, skippedOf, sortedSkipped, List.mem_mergeSort]
      exact List.mem_filterMap.2 ⟨_, harrive.mem_iff.2 hmem, rfl⟩

end

theorem Accounts.reportsInexpressible {classes : List Scheduled} {target : Target}
    {report : TargetReport} (h : Accounts s t (classes.filterMap (job? t)) target report)
    (hclass : ∀ c ∈ classes, ∃ r, t.resolve c.className = .ok r ∧ t.dangling r = [] ∧
      ∀ a, .property a ∈ r.arguments → a ∈ r.allProperties.names) :
    ReportsInexpressible t classes report := by
  obtain rfl := h.served
  have hjob : ∀ job ∈ classes.filterMap (job? t), job.scheduled ∈ classes ∧
      t.resolve job.scheduled.className = .ok job.resolved ∧ t.dangling job.resolved = [] ∧
      ∀ a, .property a ∈ job.resolved.arguments → a ∈ job.resolved.allProperties.names := by
    intro job hjob
    obtain ⟨hc, hr⟩ := mem_jobs_iff.1 hjob
    obtain ⟨r, hr', hlinked, hdeclared⟩ := hclass _ hc
    obtain rfl := Except.ok.inj (hr.symm.trans hr')
    exact ⟨hc, hr, hlinked, hdeclared⟩
  constructor
  · intro c
    rw [h.mem_skipped_iff]
    constructor
    · rintro ⟨job, hmem, rfl, hnot⟩
      obtain ⟨hc, hr, hlinked, hdeclared⟩ := hjob job hmem
      rw [renderable_iff_expressible hlinked hdeclared] at hnot
      exact ⟨List.mem_map_of_mem hc, job.resolved, hr, hnot⟩
    · rintro ⟨hname, r, hr, hnot⟩
      obtain ⟨c, hc, rfl⟩ := List.mem_map.1 hname
      have hmem : (⟨c, r⟩ : Job) ∈ classes.filterMap (job? t) := mem_jobs_iff.2 ⟨hc, hr⟩
      obtain ⟨-, -, hlinked, hdeclared⟩ := hjob _ hmem
      rw [← renderable_iff_expressible hlinked hdeclared] at hnot
      exact ⟨_, hmem, rfl, hnot⟩
  · intro k hk
    obtain ⟨job, hmem, -, -, -, -, hrendering⟩ := h.exists_job hk
    exact hrendering (hjob job hmem).2.2.1

/-- After a clean check a run resolves every scheduled class, and each of its target languages skips those
that have a property whose name is no identifier, a property without literal, or for the package an
argument without literal, with an error of rendering. Only storage can end it early. All this holds in
whatever order the operations of the run come. -/
theorem run_after_clean_check (hclean : Command.problems s t tree = .ok []) (asked : List Target) :
    ∃ classes, scheduled s t tree = .ok classes ∧
      (∀ c ∈ classes, ∃ r, t.resolve c.className = .ok r) ∧
      ∀ result after, RunsTo s t asked tree result after →
        match result with
        | .ok report => report.unresolved = [] ∧ report.targets.map (·.target) = targets s asked ∧
            ∀ tr ∈ report.targets, ReportsInexpressible t classes tr
        | .error e => e.IsStorage := by
  obtain ⟨units, hunits, hfound⟩ := bind_eq_ok_iff.1 hclean
  obtain ⟨hproblems, hknown⟩ := List.append_eq_nil_iff.1 (Except.ok.inj hfound)
  have hclass : ∀ c ∈ (Plan.ofUnits t units).classes, ∃ r, t.resolve c.className = .ok r ∧
      t.dangling r = [] ∧ ∀ a, .property a ∈ r.arguments → a ∈ r.allProperties.names := fun c hc =>
    ClassTable.resolve_of_problems_eq_nil hproblems (Plan.has_of_mem_classes t units c hc)
  have hunresolved : (Plan.ofUnits t units).skipped ++
      (Plan.ofUnits t units).classes.filterMap (unresolved? t) = [] := by
    refine List.append_eq_nil_iff.2 ⟨List.map_eq_nil_iff.1 hknown, List.filterMap_eq_nil_iff.2 ?_⟩
    intro c hc
    obtain ⟨r, hr, -⟩ := hclass c hc
    rw [unresolved?, hr]
  refine ⟨(Plan.ofUnits t units).classes, by rw [scheduled, hunits]; rfl, ?_, fun result after hrun => ?_⟩
  · intro c hc
    obtain ⟨r, hr, -⟩ := hclass c hc
    exact ⟨r, hr⟩
  · cases result with
    | error e =>
      refine hrun.isStorage.resolve_left fun hunlisted => ?_
      cases hunits.symm.trans hunlisted
    | ok report =>
      obtain ⟨units', hunits', hfailed, haccounts, -⟩ := hrun.accounts
      obtain rfl := Except.ok.inj (hunits.symm.trans hunits')
      refine ⟨hfailed.trans hunresolved, accounts_targets haccounts, fun tr htr => ?_⟩
      obtain ⟨target, -, haccount⟩ := (exists_of_forall₂ haccounts).2 tr htr
      exact haccount.reportsInexpressible hclass

def gearRecord : ClassRecord := ClassRecord.empty.withProperty "outer radius" (.float none false)

/-- A class with a property that a check accepts and no module can declare. -/
def gearTable : ClassTable := .ofRecords [("Ring", .empty), ("Gear", gearRecord)] .empty

theorem run_after_clean_check_gear :
    Command.problems {} gearTable .empty = .ok [] ∧
      ∀ report, ((run {} gearTable Target.all).run FileTree.empty).1 = .ok report →
        report.unresolved = [] ∧ ∀ tr ∈ report.targets, "Gear" ∈ tr.skipped.map (·.className) := by
  have hclean : Command.problems {} gearTable .empty = .ok [] := by cbv
  have hscheduled : scheduled {} gearTable .empty = .ok [⟨"Ring", "Ring"⟩, ⟨"Gear", "Gear"⟩] := by cbv
  have hresolve : gearTable.resolve "Gear" = .ok (gearTable.merge "Gear" gearRecord none) := by cbv
  obtain ⟨classes, hclasses, -, hrun⟩ := run_after_clean_check hclean Target.all
  obtain rfl := Except.ok.inj (hscheduled.symm.trans hclasses)
  refine ⟨hclean, fun report hreport => ?_⟩
  obtain ⟨hunresolved, -, hreports⟩ := hrun _ _ (runsTo_of_run (Step.run_eq_after hreport))
  refine ⟨hunresolved, fun tr htr => ((hreports tr htr).skipped "Gear").2 ⟨by simp, _, hresolve, ?_⟩⟩
  intro hexpressible
  have hname := hexpressible.identified ("outer radius", .float none false) (by decide)
  exact absurd hname (by decide)

end Generation
end WrapperGen
