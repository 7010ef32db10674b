import WrapperGen.Proofs.Concurrency.Accounts

/-!
# Conservation of classes

No class gets lost in a run and none is counted twice. A unit is either unknown or has its classes
scheduled, a scheduled class either fails to resolve or becomes a job, and in every target language that
is served a job is either generated or skipped. Reports list this and nothing else, in order.
-/

namespace WrapperGen

namespace Plan

variable {t : ClassTable}

theorem nodup_schedule {path : String} {done : List Scheduled} {names : List String}
    (h : (done.map (·.className)).Nodup) :
    ((schedule path done names).map (·.className)).Nodup := by
  induction names generalizing done with
  | nil => exact h
  | cons name rest ih =>
    rw [schedule, List.foldl_cons]
    refine ih ?_
    split
    · exact h
    · next hfresh =>
      rw [List.map_append, List.map_singleton, List.nodup_append]
      refine ⟨h, by simp, fun c hc d hd => ?_⟩
      rintro rfl
      obtain rfl := List.mem_singleton.1 hd
      obtain ⟨job, hjob, hname⟩ := List.mem_map.1 hc
      exact hfresh (List.any_eq_true.2 ⟨job, hjob, by simpa using hname⟩)

/-- No class is scheduled twice. -/
theorem nodup_classes (t : ClassTable) (units : List SourceUnit) :
    ((ofUnits t units).classes.map (·.className)).Nodup := by
  have hfold : ∀ plan : Plan, (plan.classes.map (·.className)).Nodup →
      ((units.foldl (add t) plan).classes.map (·.className)).Nodup := by
    induction units with
    | nil => exact fun _ h => h
    | cons u rest ih =>
      refine fun plan h => ih (plan.add t u) ?_
      unfold add
      split
      · exact nodup_schedule h
      · exact h
  exact hfold ⟨[], []⟩ .nil

/-- A unit is unknown if its class has no record. -/
theorem skipped_add (plan : Plan) (u : SourceUnit) :
    (plan.add t u).skipped = plan.skipped ++ if t.has u.className then []
      else [⟨u.className, u.unitPath, .unknownClass u.className⟩] := by
  unfold add ClassTable.extras ClassTable.unitPath
  have hhas : t.has u.className = (t.get? u.className).isSome :=
    (Named.get?_isSome t.classes.entries u.className).symm
  cases hrecord : t.get? u.className <;> simp [hhas, hrecord, bind, Except.bind, pure, Except.pure]

/-- The units that a table does not know, as a report tells of them. -/
def unknown (t : ClassTable) (units : List SourceUnit) : List Skipped :=
  (units.filter fun u => !t.has u.className).map fun u =>
    ⟨u.className, u.unitPath, .unknownClass u.className⟩

theorem skipped_ofUnits (t : ClassTable) (units : List SourceUnit) :
    (ofUnits t units).skipped = unknown t units := by
  have hfold : ∀ plan : Plan,
      (units.foldl (add t) plan).skipped = plan.skipped ++ unknown t units := by
    induction units with
    | nil => simp [unknown]
    | cons u rest ih =>
      intro plan
      rw [List.foldl_cons, ih, skipped_add]
      cases hhas : t.has u.className <;> simp [unknown, hhas]
  exact hfold ⟨[], []⟩

end Plan

namespace Generation

variable {s : Settings} {t : ClassTable} {target : Target} {jobs : List Job}

/-- What tells why a job was skipped. -/
def Explains (job : Job) (k : Skipped) : Prop :=
  k.className = job.scheduled.className ∧ k.unitPath = job.scheduled.unitPath ∧
    k.error.isClassScoped = true

/-- What a report says of the jobs of a target language: each of them has one entry, its file among the
generated ones or a note among the skipped ones. Nothing else is listed, and both lists are in order. Classes
may have one file if a name holds separators, which is then listed for each of them. -/
structure Settles (s : Settings) (target : Target) (jobs : List Job) (report : TargetReport) : Prop where
  served : report.target = target
  parts : ∃ made failed, jobs.Perm (made ++ failed) ∧ report.generated = made.map (Job.file s target) ∧
    List.Forall₂ Explains failed report.skipped
  once : (∀ job ∈ jobs, '/' ∉ job.scheduled.className.toList) → ∀ job ∈ jobs,
    report.generated.count (job.file s target) +
      (report.skipped.map (·.className)).count job.scheduled.className = 1
  paths : report.generated.Pairwise fun p q => p.le q = true
  names : report.skipped.Pairwise fun j k => j.className ≤ k.className

/-- The outcomes of jobs part them into those with a file and those with a note. -/
theorem exists_parts {outcomes : List Outcome} (h : List.Forall₂ (Becomes s t target) jobs outcomes) :
    ∃ made failed, jobs.Perm (made ++ failed) ∧
      outcomes.filterMap Outcome.file? = made.map (Job.file s target) ∧
      List.Forall₂ Explains failed (outcomes.filterMap Outcome.skipped?) := by
  induction h with
  | nil => exact ⟨[], [], .nil, rfl, .nil⟩
  | @cons job outcome jobs outcomes hbecomes _ ih =>
    obtain ⟨made, failed, hparts, hfiles, hnotes⟩ := ih
    cases outcome with
    | generated file =>
      obtain rfl : file = job.file s target := hbecomes.1
      exact ⟨job :: made, failed, hparts.cons job, congrArg (job.file s target :: ·) hfiles, hnotes⟩
    | skipped k =>
      obtain ⟨hname, hpath, -, hblames, -⟩ := hbecomes
      exact ⟨made, job :: failed, (hparts.cons job).trans List.perm_middle.symm, hfiles,
        .cons ⟨hname, hpath, hblames.isClassScoped⟩ hnotes⟩

theorem Explains.names {failed : List Job} {notes : List Skipped}
    (h : List.Forall₂ Explains failed notes) :
    notes.map (·.className) = failed.map (·.scheduled.className) := by
  induction h with
  | nil => rfl
  | cons head _ ih => rw [List.map_cons, List.map_cons, head.1, ih]

/-- What the jobs of a target language come to is what its report lists. -/
theorem Accounts.settles {report : TargetReport} (h : Accounts s t jobs target report)
    (hnames : (jobs.map (·.scheduled.className)).Nodup)
    (hjobs : ∀ job ∈ jobs, job.resolved.className = job.scheduled.className) :
    Settles s target jobs report := by
  obtain ⟨arrived, ⟨outcomes, houtcomes, harrive⟩, hgenerated, hskipped⟩ := h.outcomes
  obtain ⟨made', failed', hparts', hfiles, hnotes⟩ := exists_parts houtcomes
  -- The entries come in the order of the report.
  obtain ⟨made, hgenerated', hmade⟩ : ∃ made : List Job, report.generated = made.map (Job.file s target) ∧
      made.Perm made' := by
    have hperm : report.generated.Perm (made'.map (Job.file s target)) := by
      rw [hgenerated, ← hfiles]
      exact (List.mergeSort_perm _ _).trans (harrive.filterMap _)
    exact (congrFun₂ (List.eq_map_comp_perm (Job.file s target)) _ _).mpr hperm
  obtain ⟨failed, hskipped', hfailed⟩ : ∃ failed, List.Forall₂ Explains failed report.skipped ∧
      failed.Perm failed' := by
    have hperm : report.skipped.Perm (outcomes.filterMap Outcome.skipped?) := by
      rw [hskipped]
      exact (List.mergeSort_perm _ _).trans (harrive.filterMap _)
    obtain ⟨failed, hnotes', hfailed⟩ := List.perm_comp_forall₂ hperm hnotes.flip
    exact ⟨failed, hnotes'.flip, hfailed⟩
  have hparts : jobs.Perm (made ++ failed) := hparts'.trans (hmade.append hfailed).symm
  refine ⟨h.served, ⟨made, failed, hparts, hgenerated', hskipped'⟩, fun hplain job hjob => ?_,
    hgenerated ▸ pairwise_sortedPaths _, hskipped ▸ pairwise_sortedSkipped _⟩
  -- Neither names nor, since the names are plain, files come twice.
  have hnodup : (made.map (·.scheduled.className) ++ failed.map (·.scheduled.className)).Nodup := by
    rw [← List.map_append]
    exact (hparts.map _).nodup_iff.1 hnames
  obtain ⟨hmade, hfailed, hapart⟩ := List.nodup_append.1 hnodup
  have hinj : ∀ j ∈ jobs, ∀ k ∈ jobs, j.file s target = k.file s target →
      j.scheduled.className = k.scheduled.className := by
    intro j hj k hk hfile
    rw [← hjobs j hj, ← hjobs k hk]
    exact Job.className_eq_of_file_eq (hjobs j hj ▸ hplain j hj) (hjobs k hk ▸ hplain k hk) hfile
  have hmem : ∀ j ∈ made, j ∈ jobs := fun j hj => hparts.mem_iff.2 (List.mem_append_left _ hj)
  rw [hgenerated', Explains.names hskipped']
  rcases List.mem_append.1 (hparts.mem_iff.1 hjob) with hin | hin
  · have hfiles : (made.map (Job.file s target)).Nodup := by
      refine List.Nodup.map_on (fun j hj k hk hfile => ?_) hmade.of_map
      exact List.inj_on_of_nodup_map hmade hj hk (hinj j (hmem j hj) k (hmem k hk) hfile)
    rw [List.count_eq_one_of_mem hfiles (List.mem_map_of_mem hin), List.count_eq_zero_of_not_mem]
    exact fun hother => hapart _ (List.mem_map_of_mem hin) _ hother rfl
  · rw [List.count_eq_one_of_mem hfailed (List.mem_map_of_mem hin), List.count_eq_zero_of_not_mem]
    intro hother
    obtain ⟨j, hj, hfile⟩ := List.mem_map.1 hother
    exact hapart _ (List.mem_map_of_mem hj) _ (List.mem_map_of_mem hin) (hinj j (hmem j hj) job hjob hfile)

theorem names_jobs (t : ClassTable) (classes : List Scheduled) :
    (classes.filterMap (job? t)).map (·.scheduled.className) =
      (classes.filter fun c => (t.resolve c.className).isOk).map (·.className) := by
  induction classes with
  | nil => rfl
  | cons c rest ih =>
    cases hresolve : t.resolve c.className <;>
      simp [job?, hresolve, ih, Except.isOk, Except.toBool]

theorem names_unresolved (t : ClassTable) (classes : List Scheduled) :
    (classes.filterMap (unresolved? t)).map (·.className) =
      (classes.filter fun c => !(t.resolve c.className).isOk).map (·.className) := by
  induction classes with
  | nil => rfl
  | cons c rest ih =>
    cases hresolve : t.resolve c.className <;>
      simp [unresolved?, hresolve, ih, Except.isOk, Except.toBool]

/-- A scheduled class is told of as unresolved once if it does not resolve, and else never. -/
theorem count_unresolved (t : ClassTable) (units : List SourceUnit) {c : Scheduled}
    (hc : c ∈ (Plan.ofUnits t units).classes) :
    ((Plan.unknown t units ++ (Plan.ofUnits t units).classes.filterMap (unresolved? t)).map
      (·.className)).count c.className = if (t.resolve c.className).isOk then 0 else 1 := by
  have hknown : c.className ∉ (Plan.unknown t units).map (·.className) := by
    intro hmem
    obtain ⟨k, hk, hname⟩ := List.mem_map.1 hmem
    obtain ⟨u, hu, rfl⟩ := List.mem_map.1 hk
    have hhas := Plan.has_of_mem_classes t units c hc
    rw [← hname] at hhas
    simpa [hhas] using (List.mem_filter.1 hu).2
  have hnodup := Plan.nodup_classes t units
  rw [List.map_append, List.count_append, List.count_eq_zero_of_not_mem hknown, Nat.zero_add,
    names_unresolved]
  split
  · next hresolves =>
    refine List.count_eq_zero_of_not_mem fun hmem => ?_
    obtain ⟨d, hd, hname⟩ := List.mem_map.1 hmem
    have hfails := (List.mem_filter.1 hd).2
    rw [hname, hresolves] at hfails
    exact nomatch hfails
  · next hfails =>
    refine List.count_eq_one_of_mem (hnodup.sublist (List.filter_sublist.map _)) ?_
    exact List.mem_map_of_mem (List.mem_filter.2 ⟨hc, by simpa using hfails⟩)

/-- Every class has one outcome. In whatever order a run comes to a report, each unit whose class the table does
not have is unresolved; no class is scheduled twice; a scheduled class is unresolved exactly if it does not
resolve, and otherwise each target language that is served lists its file or skips it, once. Nothing else is
listed. -/
theorem run_conserves {asked : List Target} {report : Report} {a b : FileTree}
    (h : RunsTo s t asked a (.ok report) b) :
    ∃ units, SourceUnit.enumerate s t a = .ok units ∧
      let classes := (Plan.ofUnits t units).classes
      (classes.map (·.className)).Nodup ∧
      report.unresolved = Plan.unknown t units ++ classes.filterMap (unresolved? t) ∧
      (∀ c ∈ classes, (report.unresolved.map (·.className)).count c.className =
        if (t.resolve c.className).isOk then 0 else 1) ∧
      List.Forall₂ (fun target r => Settles s target (classes.filterMap (job? t)) r)
        (targets s asked) report.targets := by
  obtain ⟨units, hunits, hunresolved, haccounts, -⟩ := h.accounts
  have hnodup := Plan.nodup_classes t units
  have hnames : (((Plan.ofUnits t units).classes.filterMap (job? t)).map
      (·.scheduled.className)).Nodup := by
    rw [names_jobs]
    exact hnodup.sublist (List.filter_sublist.map _)
  have hjobs : ∀ job ∈ (Plan.ofUnits t units).classes.filterMap (job? t),
      job.resolved.className = job.scheduled.className := fun job hjob =>
    ClassTable.className_of_resolve (mem_jobs_iff.1 hjob).2
  rw [Plan.skipped_ofUnits] at hunresolved
  refine ⟨units, hunits, hnodup, hunresolved, fun c hc => ?_, haccounts.imp fun _ _ haccount =>
    haccount.settles hnames hjobs⟩
  rw [hunresolved]
  exact count_unresolved t units hc

theorem run_conserves_ring : ∃ report,
    RunsTo {} loneTable Target.all handwritten (.ok report) packageTree ∧
      report.unresolved = [] ∧
      List.Forall₂ (fun target r => Settles {} target [loneJob] r) Target.all report.targets := by
  obtain ⟨report, hrun⟩ := run_lone
  have hruns := runsTo_of_run hrun
  obtain ⟨units, hunits, -, hunresolved, -, hsettled⟩ := run_conserves hruns
  obtain rfl := Except.ok.inj ((enumerate_lone handwritten).symm.trans hunits)
  have hnone : Plan.unknown loneTable [⟨"Ring", "Ring"⟩] ++
      (Plan.ofUnits loneTable [⟨"Ring", "Ring"⟩]).classes.filterMap (unresolved? loneTable) = [] := by
    cbv
  have htargets : targets {} Target.all = Target.all := by decide
  rw [jobs_lone, htargets] at hsettled
  exact ⟨report, hruns, hunresolved.trans hnone, hsettled⟩

def sharedTable : ClassTable :=
  .ofRecords [("B", .located "a/B"), ("P", .empty), ("a/B", .located "P")] .empty

/-- Two of these classes have one file. -/
def sharedJobs : List Job :=
  [⟨⟨"B", "a/B"⟩, sharedTable.merge "B" (.located "a/B") none⟩,
    ⟨⟨"P", "P"⟩, sharedTable.merge "P" .empty none⟩,
    ⟨⟨"a/B", "P"⟩, sharedTable.merge "a/B" (.located "P") none⟩]

/-- The file of two scheduled classes is listed twice. -/
theorem run_lists_shared_file_twice : ∃ units report b,
    SourceUnit.enumerate {} sharedTable FileTree.empty = .ok units ∧
      (run {} sharedTable [.javascript]).run FileTree.empty = (.ok report, b) ∧
      ∃ r ∈ report.targets, r.target = .javascript ∧
        ∃ job ∈ (Plan.ofUnits sharedTable units).classes.filterMap (job? sharedTable),
          job.scheduled = ⟨"B", "a/B"⟩ ∧
          r.generated.count (job.file {} .javascript) +
            (r.skipped.map (·.className)).count job.scheduled.className ≠ 1 := by
  have hunits : SourceUnit.enumerate {} sharedTable FileTree.empty = .ok [⟨"a/B", "B"⟩, ⟨"P", "P"⟩] := by cbv
  have hjobs : (Plan.ofUnits sharedTable [⟨"a/B", "B"⟩, ⟨"P", "P"⟩]).classes.filterMap (job? sharedTable) =
      sharedJobs := by cbv
  have htargets : targets {} [.javascript] = [.javascript] := by decide
  let outcomes : List Outcome := [.generated ⟨"js/src/a/B.autogen.js"⟩, .generated ⟨"js/src/P.autogen.js"⟩,
    .generated ⟨"js/src/a/B.autogen.js"⟩]
  obtain ⟨modules, indexed, aggregates, hmodules, hindexes⟩ : ∃ modules indexed aggregates,
      (sharedJobs.mapM (generate {} sharedTable .javascript)).run FileTree.empty = (.ok outcomes, modules) ∧
        (Aggregate.write {} .javascript (generatedOf outcomes)).run modules = (.ok aggregates, indexed) :=
    ⟨_, _, [⟨"js/src/index.js"⟩, ⟨"js/src/a/index.js"⟩], Step.run_eq_after (by decide +kernel),
      Step.run_eq_after (by decide +kernel)⟩
  have hserve : (serve {} sharedTable [.javascript] sharedJobs).run FileTree.empty =
      (.ok [⟨.javascript, generatedOf outcomes, skippedOf outcomes, aggregates⟩], indexed) :=
    Step.run_bind_eq_ok_iff.2 ⟨[(.javascript, outcomes)], modules,
      Step.run_mapM_cons (run_modules hmodules) rfl, Step.run_mapM_cons (run_putTogether hindexes) rfl⟩
  have hmem : ⟨⟨"B", "a/B"⟩, sharedTable.merge "B" (.located "a/B") none⟩ ∈ sharedJobs := List.mem_cons_self
  rw [← hjobs, ← htargets] at hserve
  have hrun := (run_of_enumerate (σ := FileTree) hunits [.javascript]).trans
    (Step.run_bind_pure_eq_ok_iff.2 ⟨_, hserve, rfl⟩)
  refine ⟨_, _, _, hunits, hrun, _, List.mem_singleton_self _, rfl, _, hjobs ▸ hmem, rfl, ?_⟩
  have hfile : Job.file {} .javascript ⟨⟨"B", "a/B"⟩, sharedTable.merge "B" (.located "a/B") none⟩ =
      ⟨"js/src/a/B.autogen.js"⟩ := by decide
  have hskipped : skippedOf outcomes = [] := List.mergeSort_nil
  dsimp only
  rw [hfile, hskipped, generatedOf, sortedPaths, (List.mergeSort_perm _ _).count_eq]
  decide

end Generation
end WrapperGen
