import WrapperGen.Proofs.Concurrency.Rests
import WrapperGen.Proofs.Concurrency.Together

/-!
# Runs that are repeated

A run looks at what the one before it has written: it enumerates the library, looks for overrides and lists
the output trees. Where the target languages have places of their own, aside from the library, and no file
that puts modules together has the name of an override that is looked for, nothing of the first run shows, so
the next one finds every file as it would write it.
-/

namespace WrapperGen

open FileTree (Keeps Agree)

/-- The units of a library are told by what stands below its root. -/
theorem SourceUnit.enumerate_of_agree {s : Settings} {t : ClassTable} {a b : FileTree}
    {units : List SourceUnit} (h : enumerate s t a = .ok units) (hkeeps : Keeps a b)
    (hagree : ∀ root l, s.run.sourceRoot = some root → a.locate root = .ok l → Agree l a b) :
    enumerate s t b = .ok units := by
  unfold enumerate at h ⊢
  cases hroot : s.run.sourceRoot with
  | none => rwa [hroot] at h
  | some root =>
    rw [hroot] at h
    dsimp only [ofTree] at h ⊢
    cases hlocate : a.locate root with
    | error f => simp [FileTree.walk, hlocate, bind, Except.bind] at h
    | ok l => rwa [← (hagree root l hroot hlocate).walk_eq hlocate (hkeeps.locate hlocate)]

namespace Generation

open Aggregate (indexFile packageMarker Unlisted Unindexed Unimported)
open Relation (ReflTransGen)

/-- What is not taken for something else when files have come by which modules are put together, at a place of
a tree. -/
structure Unmistakable (s : Settings) (t : ClassTable) (target : Target) (jobs : List Job) (a : FileTree)
    (R : Location) : Prop where
  /-- No override is looked for where such a file comes, unless one stands there. -/
  overrides : ∀ job ∈ jobs, ∀ p, (⟨s, t, target, fun _ => false⟩ : Generator).Consults job.resolved p →
    ∀ names, a.aim? p = some (R ++ names) → Marks target names ∨ Lists s target names → a.isFile p = true
  /-- None comes as an override of a module that stands. -/
  shadows : ∀ names stem, Lists s target (names ++ [stem ++ target.moduleExtension]) →
    (a.file? (R ++ names ++ [stem ++ target.generatedSuffix])).isSome →
      (a.file? (R ++ names ++ [stem ++ target.moduleExtension])).isSome
  /-- No module goes to the place of a list of modules. -/
  modules : ∀ job ∈ jobs, ∀ names, a.aim? (job.file s target) = some (R ++ names) → ¬ Lists s target names

/-- What a run has left at the place of a target language: the modules, as they stand in `c`, and the files
that put them together, as they were planned from `u`. -/
structure Finished (s : Settings) (t : ClassTable) (target : Target) (jobs : List Job) (a : FileTree)
    (R : Location) (c u b : FileTree) : Prop where
  keeps : Keeps a c
  modules : Overlaid a R (written s t target jobs a) (written s t target jobs a) c
  together : Together s target R (generatedOf (outcomes s t target jobs a)) c u b

variable {s : Settings} {t : ClassTable} {target : Target} {jobs : List Job} {served asked : List Target}
  {a b c u : FileTree} {R : Location} {place : Target → Location} {report : TargetReport}
  {reports : List TargetReport} {names : List String}

theorem not_marks (target : Target) (names : List String) (stem : String) :
    ¬ Marks target (names ++ [stem ++ target.generatedSuffix]) := by
  cases target with
  | javascript => exact id
  | python =>
    rintro ⟨above, heq⟩
    have hname : packageMarker = stem ++ Target.python.generatedSuffix :=
      (List.singleton_inj.1 (List.append_inj' heq rfl).2).symm
    exact absurd (Text.endsWith_iff.2 ⟨stem, hname⟩) (by decide)

theorem Lists.eq {n m : String} (h : Lists s target (names ++ [n])) (h' : Lists s target (names ++ [m])) :
    n = m := by
  cases target with
  | javascript =>
    obtain ⟨above, heq⟩ := h
    obtain ⟨above', heq'⟩ := h'
    have hn : n = indexFile := List.singleton_inj.1 (List.append_inj' heq rfl).2
    have hm : m = indexFile := List.singleton_inj.1 (List.append_inj' heq' rfl).2
    exact hn.trans hm.symm
  | python => exact List.singleton_inj.1 (List.append_cancel_left (h.trans h'.symm))

theorem generatedSuffix_ne (target : Target) (stem : String) :
    stem ++ target.generatedSuffix ≠ stem ++ target.moduleExtension := fun heq =>
  absurd ((String.append_right_inj stem).1 heq) (by cases target <;> decide)

/-- What a target language ends with after a run in any order. -/
theorem Site.exists_finished (h : Site s t target jobs a R)
    {d : FileTree} (hserves : Serves s target R a (start s t jobs target) d report)
    (haside : FileTree.Aside R d b) : (∃ c u, Finished s t target jobs a R c u b) ∧
      accounted report = (target, generatedOf (outcomes s t target jobs a),
        skippedOf (outcomes s t target jobs a)) := by
  obtain ⟨c, arrived, harrived, hkeeps, hover, hrest⟩ := h.serves_modules (.refl a) h.midway_start hserves
  obtain ⟨hgenerated, hskipped⟩ := h.reports_eq harrived (.refl _)
  rw [hgenerated, hskipped] at hrest
  have hfiles : ∀ file ∈ generatedOf (outcomes s t target jobs a), ∃ job ∈ jobs, file = job.file s target :=
    exists_job_of_generatedOf fun outcome ho file hfile => by
      obtain ⟨job, hjob, rfl⟩ := List.mem_map.1 ho
      exact ⟨job, hjob, file_of_outcome hfile⟩
  obtain ⟨⟨u, htogether⟩, aggregates, rfl⟩ := hrest.ensures (h.ensures_aggregate hkeeps hfiles)
    fun b c hb hbc => hb.imp fun u hu => hu.of_aside h hkeeps hbc
  exact ⟨⟨c, u, hkeeps, hover, htogether.of_aside h hkeeps haside⟩, rfl⟩

namespace Finished

variable (hf : Finished s t target jobs a R c u b)

include hf

theorem keeps_listing : Keeps a u := hf.keeps.trans hf.together.marked.keeps

theorem keeps_end : Keeps a b := hf.keeps_listing.trans hf.together.listed.keeps

variable (h : Site s t target jobs a R) (hnames : Unmistakable s t target jobs a R)

include h hnames

/-- An override that is looked for stands exactly if it stood before. -/
theorem isFile_eq {job : Job} (hjob : job ∈ jobs) {p : Path}
    (hp : (⟨s, t, target, fun _ => false⟩ : Generator).Consults job.resolved p) :
    b.isFile p = a.isFile p := by
  obtain ⟨names, haim, hfree⟩ := h.ne_of_consults hjob hp
  have hkept := hf.keeps_end
  cases hstood : a.isFile p with
  | true => exact hkept.isFile hstood
  | false =>
    have hplace : ¬ (Marks target names ∨ Lists s target names) := fun hplace => by
      simp [hnames.overrides job hjob p hp names haim hplace] at hstood
    rw [not_or] at hplace
    have hfile : b.file? (R ++ names) = c.file? (R ++ names) :=
      (hf.together.listed.files names hplace.2).trans (hf.together.marked.files names hplace.1)
    rw [← hstood, ← hf.modules.isFile_eq hf.keeps haim hfree]
    exact FileTree.isFile_eq_of_aim haim hkept hf.keeps (by rw [hfile])

/-- Every module stands as it was written. -/
theorem holds {w : Path × String} (hw : w ∈ written s t target jobs a) : b.Holds w.1 w.2 := by
  obtain ⟨job, hjob, hplayed⟩ := List.mem_flatMap.1 hw
  have hfile := file_of_played hplayed
  have haim : a.aim? w.1 = some (R ++ (UnitPath.dirs job.resolved.unitPath ++
      [job.resolved.className ++ target.generatedSuffix])) := by
    rw [hfile, ← List.append_assoc]
    exact (h.aims_file hjob).2.1
  have hmarked := hf.together.marked.holds hf.keeps (hf.modules.written w hw) haim (not_marks target _ _)
  exact hf.together.listed.holds hf.keeps_listing hmarked haim (hnames.modules job hjob _ (hfile ▸ haim))

/-- The override of a generated module did not come with the files that list the modules. -/
theorem shadowed {names : List String} {stem : String}
    (hmodule : (b.file? (R ++ names ++ [stem ++ target.generatedSuffix])).isSome)
    (hfile : (b.file? (R ++ names ++ [stem ++ target.moduleExtension])).isSome) :
    (u.file? (R ++ names ++ [stem ++ target.moduleExtension])).isSome := by
  rw [List.append_assoc] at hmodule hfile ⊢
  by_cases hlists : Lists s target (names ++ [stem ++ target.moduleExtension])
  · have hnot : ¬ Lists s target (names ++ [stem ++ target.generatedSuffix]) := fun hlists' =>
      generatedSuffix_ne target stem (hlists'.eq hlists)
    rw [hf.together.listed.files _ hnot, hf.together.marked.files _ (not_marks target names stem)] at hmodule
    refine hf.keeps_listing.files _ ?_
    by_cases hwritten : ∃ w ∈ written s t target jobs a,
        a.aim? w.1 = some (R ++ (names ++ [stem ++ target.generatedSuffix]))
    · -- A module of this run: its own override is looked for.
      obtain ⟨w, hw, haim⟩ := hwritten
      obtain ⟨job, hjob, hplayed⟩ := List.mem_flatMap.1 hw
      rw [file_of_played hplayed, FileTree.aim?_of_components h.root (h.components_file hjob),
        Option.some.injEq, List.append_cancel_left_eq] at haim
      obtain ⟨rfl, hlast⟩ := List.append_inj' haim rfl
      obtain rfl := (String.append_left_inj _).1 (List.singleton_inj.1 hlast)
      have hcomponents := (s.placement target).components_overridePath (h.slash_not_mem hjob)
        job.resolved.unitPath
      rw [Settings.placement_target] at hcomponents
      have hoverride := FileTree.aim?_of_components h.root hcomponents
      obtain ⟨l, hl, hstood⟩ := FileTree.isFile_iff.1
        (hnames.overrides job hjob _ (.inl rfl) _ hoverride (.inr hlists))
      exact FileTree.eq_of_locate rfl hoverride hl ▸ hstood
    · have hfree : ∀ w ∈ written s t target jobs a,
          a.aim? w.1 ≠ some (R ++ (names ++ [stem ++ target.generatedSuffix])) :=
        fun w hw haim => hwritten ⟨w, hw, haim⟩
      rcases hf.modules.other _ hfree with hsame | ⟨hdir, -⟩
      · have hstood := hnames.shadows names stem hlists
        rw [List.append_assoc, List.append_assoc] at hstood
        exact hstood (FileTree.file?_congr hsame ▸ hmodule)
      · simp [FileTree.file?, hdir] at hmodule
  · rwa [hf.together.listed.files _ hlists] at hfile

/-- To a listing nothing has come since the last one but files with overlooked names. -/
theorem unlisted {overlooked : String → Prop}
    (hover : ∀ names name, Lists s target (names ++ [name]) → overlooked name) :
    Unlisted (s.placement target) overlooked u b where
  keeps := hf.together.listed.keeps
  anchored l hroot _ hdir := by
    obtain rfl := FileTree.eq_of_locate hf.keeps_end.home h.root hroot
    exact FileTree.locate_of_aim hf.keeps_end.home h.root hf.keeps_listing hroot (fun _ => hdir) (by simp [hdir])
  fresh root names name hroot hfile := by
    obtain rfl := FileTree.eq_of_locate hf.keeps_end.home h.root hroot
    by_cases hlists : Lists s target (names ++ [name])
    · exact .inr (hover names name hlists)
    · rw [List.append_assoc] at hfile ⊢
      exact .inl (hf.together.listed.files _ hlists ▸ hfile)
  shadows root names stem hroot hmodule hfile := by
    obtain rfl := FileTree.eq_of_locate hf.keeps_end.home h.root hroot
    rw [Settings.placement_target] at hmodule hfile ⊢
    exact hf.shadowed h hnames hmodule hfile

/-- The files that list the modules stand as they would be planned again. -/
theorem stands : Stands s (generatedOf (outcomes s t target jobs a)) b b target := by
  cases target with
  | javascript =>
    have hplans : Aggregate.planIndexes (.ofSettings s) (s.placement .javascript) b =
        Aggregate.planIndexes (.ofSettings s) (s.placement .javascript) u := by
      refine Unlisted.planIndexes_eq (hf.unlisted h hnames fun names name hlists => ?_)
        fun root names hroot _ hdir => ?_
      · obtain ⟨above, heq⟩ := hlists
        exact .inl (List.singleton_inj.1 (List.append_inj' heq rfl).2)
      · obtain rfl := FileTree.eq_of_locate hf.keeps_end.home h.root hroot
        exact hf.together.dirs rfl names hdir
    obtain ⟨plans, hlisted, hindexes⟩ := hf.together.stands
    exact ⟨plans, hplans.trans hlisted, hindexes⟩
  | python =>
    have hmodules : Aggregate.planPackage (.ofSettings s) (s.placement .python) b =
        Aggregate.planPackage (.ofSettings s) (s.placement .python) u := by
      refine Unlisted.planPackage_eq (hf.unlisted h hnames fun names name hlists => .inl ?_)
      have heq : names ++ [name] = [] ++ [s.python.aggregator] := hlists
      exact List.singleton_inj.1 (List.append_inj' heq rfl).2
    obtain ⟨hmarkers, modules, text, hlisted, htext, hpackage⟩ := hf.together.stands
    exact ⟨hmarkers, modules, text, hmodules.trans hlisted, htext, hpackage⟩

end Finished

/-- Where all files stand as they are planned, what puts modules together leaves the tree. -/
theorem Site.rests_aggregate (h : Site s t target jobs a R) (hkeeps : Keeps a b) {generated : List Path}
    (hstands : Stands s generated b b target)
    (hfiles : ∀ file ∈ generated, ∃ job ∈ jobs, file = job.file s target) :
    (Script.aggregate s target generated).Rests b fun _ => True := by
  cases target with
  | javascript =>
    obtain ⟨plans, hplans, hindexes⟩ := hstands
    refine ⟨b, rfl, Script.rests_ok_bind hplans (Script.rests_mapM fun plan hplan => ?_)⟩
    obtain ⟨names, -, -, hn, -, before, hpieces⟩ := h.aims_index hkeeps hplans hplan
    obtain ⟨text, htext, hholds⟩ := hindexes plan hplan
    exact Script.rests_ok_bind htext ((Script.rests_write hn hpieces hholds).bind fun _ _ => trivial)
  | python =>
    obtain ⟨hmarkers, modules, text, hmodules, htext, hholds⟩ := hstands
    refine (Script.rests_mapM fun dir hdir => ?_).bind fun _ _ => ?_
    · obtain ⟨names, hn, -, before, hpieces⟩ := h.aims_marker hfiles hdir
      exact (Script.rests_ensure hn hpieces (hmarkers dir hdir)).bind fun _ _ => trivial
    · obtain ⟨hn, -, before, hpieces⟩ := h.aims_aggregator rfl
      have hpackage : (Script.writePackage s (s.placement .python)).Rests b fun _ => True :=
        ⟨b, rfl, Script.rests_ok_bind hmodules (Script.rests_ok_bind htext
          ((Script.rests_write hn hpieces hholds).bind fun _ _ => trivial))⟩
      exact hpackage.bind fun _ _ => trivial

/-- After a run a target language has nothing left to do. -/
theorem Finished.resting (hf : Finished s t target jobs a R c u b) (h : Site s t target jobs a R)
    (hnames : Unmistakable s t target jobs a R) :
    Resting s t target jobs b (outcomes s t target jobs a) where
  tasks := by
    rw [outcomes, List.forall₂_map_right_iff, List.forall₂_same]
    intro job hjob
    refine (plays_generate (h.resolved job hjob) fun _ hp => hp).rests
      (fun p hp => hf.isFile_eq h hnames hjob hp) fun w hw => ?_
    have hmem : w ∈ written s t target jobs a := List.mem_flatMap.2 ⟨job, hjob, hw⟩
    obtain ⟨names, n, hn, -, before, hpieces⟩ := h.aims_written w hmem
    exact ⟨hf.holds h hnames hmem, before, n, hn, hpieces⟩
  reports arrived harrived := h.reports_eq harrived (.refl _)
  aggregate := by
    refine h.rests_aggregate hf.keeps_end (hf.stands h hnames)
      (exists_job_of_generatedOf fun outcome ho file hfile => ?_)
    obtain ⟨job, hjob, rfl⟩ := List.mem_map.1 ho
    exact ⟨job, hjob, file_of_outcome hfile⟩

namespace Interleaves

variable (hserved : Interleaves s t jobs served a reports b)
  (hsites : ∀ target ∈ served, Site s t target jobs a (place target))

include hserved hsites

theorem keeps : Keeps a b := by
  obtain ⟨work, hmoves, -⟩ := hserved
  exact ((ongoing_start hsites).steps hsites hmoves).keeps

/-- Aside from all places of target languages nothing changes. -/
theorem agree {l : Location} (haside : ∀ target ∈ served, ¬ place target <+: l ∧ ¬ l <+: place target) :
    Agree l a b := by
  obtain ⟨work, hmoves, -⟩ := hserved
  intro names
  have hoff : ∀ target ∈ served, ¬ place target <+: l ++ names := fun target mem hle =>
    (List.prefix_or_prefix_of_prefix hle (List.prefix_append l names)).elim
      (haside target mem).1 (haside target mem).2
  rcases ((ongoing_start hsites).steps hsites hmoves).beyond _ hoff with hsame | ⟨-, target, mem, hle, -⟩
  · exact hsame.symm
  · exact absurd ((List.prefix_append l names).trans hle) (haside target mem).2

/-- After all target languages are served, in whatever order, none of them has anything left to do. -/
theorem resting (hapart : Apart served place)
    (hnames : ∀ target ∈ served, Unmistakable s t target jobs a (place target)) :
    (∀ target ∈ served, Resting s t target jobs b (outcomes s t target jobs a)) ∧
      reports.map accounted = served.map fun target =>
        (target, generatedOf (outcomes s t target jobs a), skippedOf (outcomes s t target jobs a)) := by
  obtain ⟨work, hmoves, hend⟩ := hserved
  have hfinished : ∀ target ∈ served, ∀ report, work target = .ended report →
      (∃ c u, Finished s t target jobs a (place target) c u b) ∧ accounted report = (target,
        generatedOf (outcomes s t target jobs a), skippedOf (outcomes s t target jobs a)) := by
    intro target mem report hreport
    obtain ⟨d, hserves, haside⟩ := serves_of_moves hsites hapart mem (ongoing_start hsites) hmoves hreport
    exact (hsites target mem).exists_finished hserves haside
  refine ⟨fun target mem => ?_, accounted_of_ended hend fun target mem report hreport =>
    (hfinished target mem report hreport).2⟩
  obtain ⟨report, hreport⟩ := exists_report_of_ended hend target mem
  obtain ⟨⟨c, u, hf⟩, -⟩ := hfinished target mem report hreport
  exact hf.resting (hsites target mem) (hnames target mem)

end Interleaves

/-- Whether a run can be repeated, as told by the tree that it begins with: each target language has a place of
its own, aside from the library, where no file that puts modules together is taken for anything else. -/
structure Repeatable (s : Settings) (t : ClassTable) (asked : List Target) (place : Target → Location)
    (units : List SourceUnit) (a : FileTree) : Prop where
  enumerated : SourceUnit.enumerate s t a = .ok units
  library : ∀ root l, s.run.sourceRoot = some root → a.locate root = .ok l →
    ∀ target ∈ targets s asked, ¬ place target <+: l ∧ ¬ l <+: place target
  apart : Apart (targets s asked) place
  sites : ∀ target ∈ targets s asked,
    Site s t target ((Plan.ofUnits t units).classes.filterMap (job? t)) a (place target)
  names : ∀ target ∈ targets s asked,
    Unmistakable s t target ((Plan.ofUnits t units).classes.filterMap (job? t)) a (place target)

/-- To run again changes nothing.

Where it can be told from the first tree that a run can be repeated, and the run has succeeded in whatever order
of its operations, every run on its result succeeds as well, in whatever order, and leaves the whole tree as it
is. Both report the same modules, skipped classes and unresolved classes. -/
theorem run_again {units : List SourceUnit} (h : Repeatable s t asked place units a) {report : Report}
    (hrun : RunsTo s t asked a (.ok report) b) :
    (∀ result c, RunsTo s t asked b result c → c = b ∧ ∃ report', result = .ok report' ∧
      report'.targets.map accounted = report.targets.map accounted ∧
      report'.unresolved = report.unresolved) ∧
    ∃ report', (run s t asked).run b = (.ok report', b) := by
  cases hrun with
  | @reported units' reports _ henumerated hserved =>
    obtain rfl := Except.ok.inj (henumerated.symm.trans h.enumerated)
    obtain ⟨hresting, haccounted⟩ := hserved.resting h.sites h.apart h.names
    have hunits := SourceUnit.enumerate_of_agree h.enumerated (hserved.keeps h.sites) fun root l hroot hl =>
      hserved.agree h.sites (h.library root l hroot hl)
    have hagain : ∀ result c, RunsTo s t asked b result c → c = b ∧ ∃ report', result = .ok report' ∧
        report'.targets.map accounted = reports.map accounted ∧
        report'.unresolved = (Plan.ofUnits t units').skipped ++
          (Plan.ofUnits t units').classes.filterMap (unresolved? t) := by
      intro result c hagain
      obtain ⟨hc, report', hresult, htargets, hunresolved⟩ := hagain.of_resting hunits hresting
      exact ⟨hc, report', hresult, htargets.trans haccounted.symm, hunresolved⟩
    refine ⟨hagain, ?_⟩
    obtain ⟨hb, report', hresult, -⟩ := hagain _ _ (runsTo_of_run (b := ((run s t asked).run b).2) rfl)
    exact ⟨report', Prod.ext hresult hb⟩

/-- Neither the overrides that are asked for nor the module have the name of an index, a marker or the
aggregator. -/
theorem getLast?_aim_lone (target : Target) :
    ∀ p ∈ loneJob.file {} target :: askedFor target, ∀ l ∈ handwritten.aim? p,
      l.getLast? ∉ [some indexFile, some packageMarker, some "_package.py"] := by
  cases target <;> decide +kernel

theorem getLast?_mem_of_place {R : Location} (h : Marks target names ∨ Lists {} target names) :
    (R ++ names).getLast? ∈ [some indexFile, some packageMarker, some "_package.py"] := by
  cases target with
  | javascript =>
    obtain ⟨above, rfl⟩ := h.resolve_left id
    simp
  | python =>
    rcases h with ⟨above, rfl⟩ | rfl
    · simp
    · rw [List.getLast?_append_of_ne_nil _ (List.cons_ne_nil _ _)]
      decide

theorem unmistakable_lone (target : Target) :
    Unmistakable {} loneTable target [loneJob] handwritten (outputPlace target) where
  overrides job hjob p hp names haim hplace := by
    rw [List.mem_singleton.1 hjob] at hp
    exact absurd (getLast?_mem_of_place hplace)
      (getLast?_aim_lone target p (List.mem_cons_of_mem _ (mem_askedFor hp)) _ haim)
  shadows names stem _ hmodule := by
    have hnone : ∀ e ∈ handwritten.below [], Text.endsWith target.generatedSuffix (e.1.getLastD "") = false := by
      cases target <;> decide +kernel
    obtain ⟨e, he⟩ := Option.isSome_iff_exists.1 (FileTree.isSome_entry?_of_file? hmodule)
    have hmem : (outputPlace target ++ names ++ [stem ++ target.generatedSuffix], e) ∈ handwritten.below [] :=
      FileTree.mem_below.2 ⟨by simp, he⟩
    have hends : Text.endsWith target.generatedSuffix (stem ++ target.generatedSuffix) = true :=
      Text.endsWith_iff.2 ⟨stem, rfl⟩
    simpa [hends] using hnone _ hmem
  modules job hjob names haim hlists := by
    rw [List.mem_singleton.1 hjob] at haim
    exact absurd (getLast?_mem_of_place (.inr hlists)) (getLast?_aim_lone target _ List.mem_cons_self _ haim)

theorem repeatable_lone :
    Repeatable {} loneTable Target.all outputPlace [⟨"Ring", "Ring"⟩] handwritten where
  enumerated := enumerate_lone handwritten
  library root l hroot := nomatch hroot
  apart := by unfold Apart; decide
  sites target _ := by rw [jobs_lone]; exact site_lone target
  names target _ := by rw [jobs_lone]; exact unmistakable_lone target

theorem run_again_ring :
    Repeatable {} loneTable Target.all outputPlace [⟨"Ring", "Ring"⟩] handwritten ∧
      ∃ report report', (run {} loneTable Target.all).run handwritten = (.ok report, packageTree) ∧
        (run {} loneTable Target.all).run packageTree = (.ok report', packageTree) ∧
        report'.targets.map accounted = report.targets.map accounted := by
  obtain ⟨report, hrun⟩ := run_lone
  obtain ⟨hagain, report', hrun'⟩ := run_again repeatable_lone (runsTo_of_run hrun)
  obtain ⟨-, report'', hreport, haccounted, -⟩ := hagain _ _ (runsTo_of_run hrun')
  obtain rfl := Except.ok.inj hreport
  exact ⟨repeatable_lone, report, report', hrun, hrun', haccounted⟩

end Generation
end WrapperGen
