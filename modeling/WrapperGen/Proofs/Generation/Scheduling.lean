import WrapperGen.Generation.Run
import WrapperGen.Proofs.ClassTable.UnitIndex
import WrapperGen.Proofs.Host.Effects
import WrapperGen.Proofs.Inheritance.Outcome
import WrapperGen.Proofs.Path.Components

/-!
# Scheduled classes

Every scheduled class is a class of the table. It becomes a job exactly if it resolves, and nothing
that is remembered from one class to the next makes a difference.
-/

namespace WrapperGen

namespace Plan

variable {t : ClassTable}

theorem mem_schedule {path : String} {done : List Scheduled} {names : List String} {job : Scheduled}
    (h : job ∈ schedule path done names) : job ∈ done ∨ job.className ∈ names := by
  induction names generalizing done with
  | nil => exact .inl h
  | cons name rest ih =>
    rcases ih h with hdone | hrest
    · dsimp only at hdone
      split at hdone
      · exact .inl hdone
      · rcases List.mem_append.1 hdone with hold | hnew
        · exact .inl hold
        · rw [List.mem_singleton.1 hnew]
          exact .inr List.mem_cons_self
    · exact .inr (List.mem_cons_of_mem name hrest)

theorem has_of_mem_add {plan : Plan} (h : ∀ job ∈ plan.classes, t.has job.className = true)
    (u : SourceUnit) : ∀ job ∈ (plan.add t u).classes, t.has job.className = true := by
  unfold add
  split
  · next others hothers =>
    obtain ⟨hprimary, hextra⟩ := ClassTable.has_of_extras hothers
    intro job hjob
    rcases mem_schedule hjob with hdone | hname
    · exact h job hdone
    · rcases List.mem_cons.1 hname with heq | hother
      · rwa [heq]
      · exact hextra _ hother
  · exact h

/-- Every scheduled class is a class of the table. -/
theorem has_of_mem_classes (t : ClassTable) (units : List SourceUnit) :
    ∀ job ∈ (ofUnits t units).classes, t.has job.className = true := by
  have hfold : ∀ plan : Plan, (∀ job ∈ plan.classes, t.has job.className = true) →
      ∀ job ∈ (units.foldl (add t) plan).classes, t.has job.className = true := by
    induction units with
    | nil => exact fun _ h => h
    | cons u rest ih => exact fun plan h => ih (plan.add t u) (has_of_mem_add h u)
  exact hfold ⟨[], []⟩ (by simp)

end Plan

/-- The file that the module of a job goes to. -/
def Job.file (s : Settings) (target : Target) (job : Job) : Path :=
  (s.placement target).generatedPath job.resolved.className job.resolved.unitPath

/-- Classes whose names are plain have files of different names. -/
theorem Job.className_eq_of_file_eq {s : Settings} {target : Target} {job other : Job}
    (hjob : '/' ∉ job.resolved.className.toList) (hother : '/' ∉ other.resolved.className.toList)
    (h : job.file s target = other.file s target) :
    job.resolved.className = other.resolved.className := by
  have hsuffix : '/' ∉ target.generatedSuffix.toList := by cases target <;> decide
  have hlast : ∀ j : Job, '/' ∉ j.resolved.className.toList →
      (j.file s target).pieces.getLast? = some (j.resolved.className ++ target.generatedSuffix) := by
    intro j hj
    obtain ⟨before, hpieces⟩ := Path.exists_pieces_child
      ((s.placement target).classDir j.resolved.unitPath) (j.resolved.className ++ target.generatedSuffix)
    have hplain : '/' ∉ (j.resolved.className ++ target.generatedSuffix).toList := by
      simp [hj, hsuffix]
    rw [Text.pieces_eq_singleton hplain] at hpieces
    rw [file, Placement.generatedPath, Settings.placement_target, hpieces]
    simp
  have hnames := (hlast job hjob).symm.trans ((congrArg (·.pieces.getLast?) h).trans (hlast other hother))
  exact (String.append_left_inj _).1 (Option.some.inj hnames)

namespace Generation

/-- The classes that a run on a tree schedules. -/
def scheduled (s : Settings) (t : ClassTable) (tree : FileTree) : Except Error (List Scheduled) :=
  (SourceUnit.enumerate s t tree).map fun units => (Plan.ofUnits t units).classes

variable {t : ClassTable}

/-- The job of a scheduled class that resolves. -/
def job? (t : ClassTable) (c : Scheduled) : Option Job :=
  match t.resolve c.className with
  | .ok r => some ⟨c, r⟩
  | .error _ => none

/-- The report of a scheduled class that does not resolve. -/
def unresolved? (t : ClassTable) (c : Scheduled) : Option Skipped :=
  match t.resolve c.className with
  | .ok _ => none
  | .error e => some ⟨c.className, c.unitPath, e⟩

/-- Jobs and failures are those of the classes one by one, whatever is remembered between them. -/
theorem resolveAll_eq {memo : ClassTable.Memo} (h : t.Faithful memo) (classes : List Scheduled) :
    resolveAll t memo classes = (classes.filterMap (job? t), classes.filterMap (unresolved? t)) := by
  induction classes generalizing memo with
  | nil => rfl
  | cons c rest ih =>
    have hresolve := h.resolveWith_eq c.className
    have hrest := ih (h.resolveWith c.className).2
    rw [List.filterMap_cons, List.filterMap_cons, resolveAll, job?, unresolved?, ← hresolve]
    generalize t.resolveWith memo c.className = called at hrest ⊢
    obtain ⟨_ | r, memo'⟩ := called <;> simp [hrest]

/-- The jobs are the scheduled classes that resolve. -/
theorem mem_jobs_iff {classes : List Scheduled} {job : Job} :
    job ∈ classes.filterMap (job? t) ↔ job.scheduled ∈ classes ∧
      t.resolve job.scheduled.className = .ok job.resolved := by
  have hjob : ∀ c, job? t c = some job ↔ c = job.scheduled ∧ t.resolve c.className = .ok job.resolved := by
    intro c
    rcases job with ⟨c', r'⟩
    unfold job?
    cases t.resolve c.className <;> simp
  simp only [List.mem_filterMap, hjob]
  exact ⟨fun ⟨_, hc, heq, hr⟩ => heq ▸ ⟨hc, hr⟩, fun ⟨hc, hr⟩ => ⟨_, hc, rfl, hr⟩⟩

variable {σ : Type} [Host σ] {s : Settings}

theorem run_of_enumerate {a : σ} {units : List SourceUnit}
    (h : SourceUnit.enumerate s t (Host.disk a) = .ok units) (asked : List Target) :
    let plan := Plan.ofUnits t units
    (run s t asked : Step σ Report).run a =
      (serve s t (targets s asked) (plan.classes.filterMap (job? t)) >>= fun reports =>
        pure ⟨reports, plan.skipped ++ plan.classes.filterMap (unresolved? t)⟩ : Step σ Report).run a := by
  intro plan
  show ((liftM (SourceUnit.enumerate s t (Host.disk a)) >>= _ : Step σ Report).run a) = _
  rw [h]
  show (serve s t (targets s asked) (resolveAll t {} plan.classes).1 >>= fun reports =>
    pure ⟨reports, plan.skipped ++ (resolveAll t {} plan.classes).2⟩ : Step σ Report).run a = _
  rw [resolveAll_eq t.faithful_empty]

theorem run_of_enumerate_error {a : σ} {e : Error}
    (h : SourceUnit.enumerate s t (Host.disk a) = .error e) (asked : List Target) :
    (run s t asked : Step σ Report).run a = (.error e, a) := by
  show (liftM (SourceUnit.enumerate s t (Host.disk a)) >>= _ : Step σ Report).run a = _
  rw [h]
  rfl

end Generation
end WrapperGen
