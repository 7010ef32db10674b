import WrapperGen.Proofs.Aggregate.Locality
import WrapperGen.Proofs.Aggregate.MarkerDirs
import WrapperGen.Proofs.Concurrency.Confinement
import WrapperGen.Proofs.Concurrency.Orders

/-!
# Sites of target languages

The tasks of a target language are confined to the place of its output tree, if that is settled and
overrides are looked for below it only.
-/

namespace WrapperGen

open Entries (isName)
open FileTree (Keeps Agree)

namespace Aggregate

theorem mem_chain_names {start dir : Path} {names : List String}
    (h : dir ∈ chain start (names.map .name)) :
    ∃ front, front <+: names ∧ dir = front.foldl Path.child start := by
  induction names generalizing start with
  | nil => exact ⟨[], List.nil_prefix, List.mem_singleton.1 h⟩
  | cons n names ih =>
    rcases List.mem_cons.1 h with rfl | h
    · exact ⟨[], List.nil_prefix, rfl⟩
    · obtain ⟨front, hfront, rfl⟩ := ih h
      exact ⟨n :: front, List.cons_prefix_cons.2 ⟨rfl, hfront⟩, rfl⟩

/-- The markers for a file below the root lie on the way to it. -/
theorem exists_front_of_mem_markerChain {p : Placement} {file dir : Path} {names : List String}
    {n : String} (hfile : file.components = p.root.components ++ (names ++ [n]).map .name)
    (h : dir ∈ markerChain p file) : ∃ front, front <+: names ∧ dir = front.foldl Path.child p.root := by
  obtain ⟨above, hparent, habove⟩ := Placement.exists_parent_of_file hfile
  have hbelow : Path.below? p.root above = some (names.map .name) := by
    rw [Path.below?, habove]
    simp
  rw [markerChain, hparent] at h
  dsimp only at h
  rw [hbelow] at h
  exact mem_chain_names h

end Aggregate

theorem Script.OnlyAsks.confined {α : Type} {A : Path → Prop} {P : α → Prop} {m : Script α}
    {a : FileTree} {R : Location} (h : m.OnlyAsks A P)
    (hA : ∀ p, A p → ∃ names, a.aim? p = some (R ++ names)) : m.Confined a R P := by
  induction m with
  | done x => exact h
  | fail e => trivial
  | step op next ih =>
    cases op with
    | ask p => exact ⟨hA p h.1, fun x y hxy => congrArg next hxy, fun x _ => ih x (h.2 x)⟩
    | _ => exact h.elim

namespace Generation

/-- Where the output tree of a target language is, and what makes it known: its root aims somewhere, the
classes have plain names, and overrides are looked for below the root, by names, and not in the places of
generated modules. -/
structure Site (s : Settings) (t : ClassTable) (target : Target) (jobs : List Job) (a : FileTree)
    (R : Location) : Prop where
  root : a.aim? (s.placement target).root = some R
  aggregator : target = .python → isName s.python.aggregator = true
  resolved : ∀ job ∈ jobs, t.resolve job.scheduled.className = .ok job.resolved
  distinct : (jobs.map (·.scheduled.className)).Nodup
  plain : ∀ job ∈ jobs, '/' ∉ job.scheduled.className.toList
  below : ∀ job ∈ jobs, ∀ p, (⟨s, t, target, fun _ => false⟩ : Generator).Consults job.resolved p →
    ∃ names : List String, p.components = (s.placement target).root.components ++ names.map .name
  unasked : ∀ job ∈ jobs, ∀ p, (⟨s, t, target, fun _ => false⟩ : Generator).Consults job.resolved p →
    ∀ other ∈ jobs, p.same (other.file s target) = false

variable {s : Settings} {t : ClassTable} {target : Target} {jobs : List Job} {a : FileTree} {R : Location}

theorem aim?_foldl_child {root : Path} (h : a.aim? root = some R) {names : List String}
    (hnames : ∀ n ∈ names, isName n = true) :
    a.aim? (names.foldl Path.child root) = some (R ++ names) :=
  FileTree.aim?_of_components h (Path.components_foldl_child root hnames)

namespace Site

variable (h : Site s t target jobs a R)

include h

theorem className_eq {job : Job} (hjob : job ∈ jobs) :
    job.resolved.className = job.scheduled.className :=
  ClassTable.className_of_resolve (h.resolved job hjob)

theorem slash_not_mem {job : Job} (hjob : job ∈ jobs) : '/' ∉ job.resolved.className.toList :=
  h.className_eq hjob ▸ h.plain job hjob

/-- The module of a job goes to a place of its own below the root. -/
theorem aims_file {job : Job} (hjob : job ∈ jobs) :
    a.Aims (job.file s target) (R ++ UnitPath.dirs job.resolved.unitPath)
      (job.resolved.className ++ target.generatedSuffix) := by
  have hname : isName (job.resolved.className ++ target.generatedSuffix) = true := by
    cases target <;> exact Entries.isName_append (h.slash_not_mem hjob) (by decide) ⟨'a', by decide⟩
  have hdir : a.aim? ((s.placement target).classDir job.resolved.unitPath) =
      some (R ++ UnitPath.dirs job.resolved.unitPath) :=
    aim?_foldl_child h.root fun _ hn => UnitPath.isName_of_mem_dirs hn
  rw [Job.file, Placement.generatedPath, Settings.placement_target]
  exact FileTree.aims_child hdir hname

theorem components_file {job : Job} (hjob : job ∈ jobs) : (job.file s target).components =
    (s.placement target).root.components ++ (UnitPath.dirs job.resolved.unitPath ++
      [job.resolved.className ++ target.generatedSuffix]).map .name := by
  have hfile := (s.placement target).components_generatedPath (h.slash_not_mem hjob) job.resolved.unitPath
  rwa [Settings.placement_target] at hfile

/-- Modules of different jobs aim at different places. -/
theorem eq_of_aim?_file {job other : Job} (hjob : job ∈ jobs) (hother : other ∈ jobs)
    (heq : a.aim? (job.file s target) = a.aim? (other.file s target)) : job = other := by
  rw [FileTree.aim?_of_components h.root (h.components_file hjob),
    FileTree.aim?_of_components h.root (h.components_file hother), Option.some.injEq,
    List.append_cancel_left_eq] at heq
  have hlast : job.resolved.className ++ target.generatedSuffix =
      other.resolved.className ++ target.generatedSuffix := by
    simpa using congrArg List.getLast? heq
  refine List.inj_on_of_nodup_map h.distinct hjob hother ?_
  rw [← h.className_eq hjob, ← h.className_eq hother]
  exact (String.append_left_inj _).1 hlast

theorem confined_generate {job : Job} (hjob : job ∈ jobs) :
    (Script.generate s t target job).Confined a R fun outcome =>
      ∀ file, outcome.file? = some file → ∃ job ∈ jobs, file = job.file s target := by
  have hrender := (Script.onlyAsks_render ⟨s, t, target, fun _ => false⟩ job.resolved).confined fun p hp => by
    obtain ⟨names, hnames⟩ := h.below job hjob p hp
    exact ⟨names, FileTree.aim?_of_components h.root hnames⟩
  refine hrender.attempt.bind fun y hy => ?_
  cases y with
  | ok out =>
    obtain ⟨file, text⟩ := out
    obtain rfl : file = job.file s target := hy _ rfl
    exact (Script.confined_write (h.aims_file hjob) text).bind fun _ _ => fun _ hfile =>
      ⟨job, hjob, (Option.some.inj hfile).symm⟩
  | error e =>
    dsimp only
    split
    · exact fun _ hfile => nomatch hfile
    · trivial

/-- Every index is planned for a directory that stands at the place, and goes into it. -/
theorem aims_index {r : Aggregate.IndexRules} {b : FileTree} (hb : Keeps a b) {plans : List Aggregate.IndexPlan}
    (hplans : Aggregate.planIndexes r (s.placement target) b = .ok plans) {plan : Aggregate.IndexPlan}
    (hplan : plan ∈ plans) : ∃ names, b.entry? (R ++ names) = some .dir ∧
      plan = Aggregate.indexOf r (s.placement target) b R
        ⟨names, names.foldl Path.child (s.placement target).root, .dir⟩ ∧
      a.Aims plan.path (R ++ names) Aggregate.indexFile := by
  obtain ⟨root, names, hroot, hdir, rfl⟩ := Aggregate.exists_dir_of_mem_planIndexes hplans hplan
  obtain rfl := FileTree.eq_of_locate hb.home h.root hroot
  have hnames := (FileTree.dirs_above (by simp [hdir] : (b.entry? (root ++ names)).isSome)).2
  exact ⟨names, hdir, rfl, FileTree.aims_child (aim?_foldl_child h.root hnames) (by decide)⟩

theorem aims_marker {files : List Path}
    (hfiles : ∀ file ∈ files, ∃ job ∈ jobs, file = job.file s target) {dir : Path}
    (hdir : dir ∈ Aggregate.markerDirs (s.placement target) files) :
    ∃ names, a.Aims (dir.child Aggregate.packageMarker) (R ++ names) Aggregate.packageMarker := by
  obtain ⟨file, hfile, hdir⟩ := Aggregate.exists_file_of_mem_markerDirs hdir
  obtain ⟨job, hjob, rfl⟩ := hfiles file hfile
  obtain ⟨front, hfront, rfl⟩ :=
    Aggregate.exists_front_of_mem_markerChain (h.components_file hjob) hdir
  have hnames : ∀ n ∈ front, isName n = true := fun n hn =>
    UnitPath.isName_of_mem_dirs (hfront.subset hn)
  exact ⟨front, FileTree.aims_child (aim?_foldl_child h.root hnames) (by decide)⟩

theorem aims_aggregator (hserved : target = .python) :
    a.Aims ((s.placement target).root.child s.python.aggregator) (R ++ []) s.python.aggregator := by
  rw [List.append_nil]
  exact FileTree.aims_child h.root (h.aggregator hserved)

theorem confined_writeIndexes :
    (Script.writeIndexes s (s.placement target)).Confined a R fun _ => True := by
  refine Script.confined_look_bind (fun b c hb hc hagree => ?_) fun b hb => ?_
  · rw [Aggregate.planIndexes_congr h.root hb hc hagree]
  refine Script.confined_lift_bind fun plans hplans => Script.confined_mapM fun plan hplan => ?_
  obtain ⟨names, -, -, hindex⟩ := h.aims_index hb hplans hplan
  refine Script.confined_lift_bind fun text _ => ?_
  exact (Script.confined_write hindex text).bind fun _ _ => trivial

theorem confined_ensureMarker {files : List Path}
    (hfiles : ∀ file ∈ files, ∃ job ∈ jobs, file = job.file s target) {dir : Path}
    (hdir : dir ∈ Aggregate.markerDirs (s.placement target) files) :
    (Script.ensureMarker dir).Confined a R fun _ => True := by
  obtain ⟨names, hmarker⟩ := h.aims_marker hfiles hdir
  exact (Script.confined_ensure hmarker).bind fun _ _ => trivial

theorem confined_writePackage (hserved : target = .python) :
    (Script.writePackage s (s.placement target)).Confined a R fun _ => True := by
  refine Script.confined_look_bind (fun b c hb hc hagree => ?_) fun b hb => ?_
  · rw [Aggregate.planPackage_congr h.root hb hc hagree]
  refine Script.confined_lift_bind fun modules _ => Script.confined_lift_bind fun text _ => ?_
  exact (Script.confined_write (h.aims_aggregator hserved) text).bind fun _ _ => trivial

theorem confined_aggregate {files : List Path}
    (hfiles : ∀ file ∈ files, ∃ job ∈ jobs, file = job.file s target) :
    (Script.aggregate s target files).Confined a R fun _ => True := by
  cases target with
  | javascript => exact h.confined_writeIndexes
  | python =>
    refine (Script.confined_mapM fun dir hdir => h.confined_ensureMarker hfiles hdir).bind fun _ _ => ?_
    exact (h.confined_writePackage rfl).bind fun _ _ => trivial

end Site

/-- The overrides that are asked for: of the class, and of the base class. -/
def askedFor : Target → List Path
  | .javascript => [⟨"js/src/Ring.js"⟩, ⟨"js/src/_base/Three.js"⟩]
  | .python => [⟨"python/Ring.py"⟩, ⟨"python/_base/Three.py"⟩]

theorem mem_askedFor {p : Path} (h : (⟨{}, loneTable, target, fun _ => false⟩ : Generator).Consults
    loneJob.resolved p) : p ∈ askedFor target := by
  let g : Generator := ⟨{}, loneTable, target, fun _ => false⟩
  have hasked : [g.overrideFile loneJob.resolved, g.placement.overridePath "Three" "_base/Three"] =
      askedFor target := by cases target <;> decide +kernel
  have hbase : g.linker.base = ⟨"Three", "Three", "_base/Three"⟩ := by cases target <;> decide +kernel
  have hparent : g.linker.parent loneJob.resolved = .ok ⟨"Three", "Three", "_base/Three"⟩ := by
    cases target <;> decide +kernel
  have hnamed : g.linker.named loneJob.resolved = .ok [] := by cases target <;> decide +kernel
  rw [← hasked]
  rcases h with h | ⟨x, h, hp⟩
  · exact h ▸ List.mem_cons_self
  have hx : x = ⟨"Three", "Three", "_base/Three"⟩ := by
    rcases h with h | h | ⟨others, h, hmem⟩
    · exact h.trans hbase
    · exact (Except.ok.inj (hparent.symm.trans h)).symm
    · rw [← Except.ok.inj (hnamed.symm.trans h)] at hmem
      cases hmem
  rw [hp, hx]
  exact List.mem_cons_of_mem _ List.mem_cons_self

/-- Where a run for both target languages puts its modules. -/
def outputPlace : Target → Location
  | .javascript => ["js", "src"]
  | .python => ["python"]

theorem site_lone (target : Target) :
    Site {} loneTable target [loneJob] handwritten (outputPlace target) where
  root := by cases target <;> decide +kernel
  aggregator _ := by decide
  resolved job hjob := by
    rw [List.mem_singleton.1 hjob]
    cbv
  distinct := List.nodup_singleton _
  plain job hjob := by
    rw [List.mem_singleton.1 hjob]
    decide
  below job hjob p hp := by
    rw [List.mem_singleton.1 hjob] at hp
    refine hp.below_root (fun c hc => ?_) (by decide)
    have hnames : loneTable.names = ["Ring"] := by cbv
    have hc : c ∈ loneTable.names := hc
    rw [hnames, List.mem_singleton] at hc
    rw [hc]
    decide
  unasked job hjob p hp other hother := by
    rw [List.mem_singleton.1 hjob] at hp
    rw [List.mem_singleton.1 hother]
    have hasked : ∀ p ∈ askedFor target, p.same (loneJob.file {} target) = false := by
      cases target <;> decide +kernel
    exact hasked p (mem_askedFor hp)

end Generation
end WrapperGen
