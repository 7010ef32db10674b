import WrapperGen.Proofs.Generation.Scheduling
import WrapperGen.Proofs.Inheritance.Properties
import WrapperGen.Proofs.Wrapper.Refusals

/-!
# Inspection

The references of a class can be asked for without a run. A run that comes to the class works with the same
references, or skips it for the same error, as long as the same overrides stand: what it has resolved
before, and in which order, makes no difference.
-/

namespace WrapperGen

namespace Generator

variable {g : Generator} {c : String} {r : Resolved}

theorem referencesOf_of_resolve (h : g.table.resolve c = .ok r) : g.referencesOf c = g.references r := by
  rw [referencesOf, h]
  rfl

theorem referencesOf_eq_error {e : Error} (h : g.table.resolve c = .error e) :
    g.referencesOf c = .error e := by
  rw [referencesOf, h]
  rfl

/-- The superclass of a class that resolves is always found, so its wrapper has a subject where it has
references. -/
theorem exists_subject_of_references {refs : References} (h : g.table.resolve c = .ok r)
    (hrefs : g.references r = .ok refs) : ∃ x, g.subject r = .ok x ∧ x.references = refs := by
  obtain ⟨superclass, hsuper⟩ := Linker.exists_superclass (l := g.linker) h (g.file r)
  exact ⟨_, bind_eq_ok_iff.2 ⟨refs, hrefs, bind_eq_ok_iff.2 ⟨superclass, hsuper, rfl⟩⟩, rfl⟩

/-- The module of a class is built from its subject. -/
theorem render_of_subject {x : Subject} (h : g.subject r = .ok x) : g.render r =
    (Wrapper.build g.settings g.target x >>= fun w => w.text g.target).map fun text => (x.file, text) := by
  obtain ⟨_, _, -, -, rfl⟩ := subject_eq_ok h
  rw [render, wrapper, h]
  dsimp only [bind, Except.bind]
  cases Wrapper.build g.settings g.target _ with
  | error e => rfl
  | ok w =>
    dsimp only
    cases w.text g.target <;> rfl

theorem render_of_references_error {e : Error} (h : g.references r = .error e) :
    g.render r = .error e := by
  rw [render, wrapper, subject, h]
  rfl

end Generator

namespace Generation

variable {σ : Type} [Host σ] {s : Settings} {t : ClassTable} {target : Target}

/-- What becomes of a class whose module has a text, or fails for an error. -/
def deliver (c : Scheduled) (file : Path) : Except Error String → Step σ Outcome
  | .ok text => do
    Host.write file text
    return .generated file
  | .error e =>
    if e.isClassScoped then return .skipped ⟨c.className, c.unitPath, e⟩ else throw e

theorem generate_of_subject {b : σ} {job : Job} {x : Subject}
    (h : (⟨s, t, target, Host.overridden b⟩ : Generator).subject job.resolved = .ok x) :
    (generate s t target job : Step σ Outcome).run b = (deliver job.scheduled x.file
      (Wrapper.build s target x >>= fun w => w.text target) : Step σ Outcome).run b := by
  have hrender := Generator.render_of_subject h
  rw [generate, Step.run_get_bind]
  dsimp only at hrender ⊢
  rw [hrender]
  cases Wrapper.build s target x >>= fun w => w.text target <;> rfl

theorem generate_of_render_error {b : σ} {job : Job} {e : Error}
    (h : (⟨s, t, target, Host.overridden b⟩ : Generator).render job.resolved = .error e)
    (hscoped : e.isClassScoped = true) :
    (generate s t target job : Step σ Outcome).run b =
      (.ok (.skipped ⟨job.scheduled.className, job.scheduled.unitPath, e⟩), b) := by
  rw [generate, Step.run_get_bind]
  dsimp only
  rw [h]
  dsimp only
  rw [if_pos hscoped]
  rfl

/-- What a run works with for a scheduled class that it comes to in the state `b`: the references of the subject
that its module is built from, or the error for which the class is skipped. -/
inductive WorksWith (s : Settings) (t : ClassTable) (target : Target) (classes : List Scheduled) (b : σ)
    (c : Scheduled) : Except Error References → Prop
  | built {r : Resolved} {x : Subject} (job : ⟨c, r⟩ ∈ (resolveAll t {} classes).1)
      (subject : (⟨s, t, target, Host.overridden b⟩ : Generator).subject r = .ok x)
      (outcome : (generate s t target ⟨c, r⟩ : Step σ Outcome).run b =
        (deliver c x.file (Wrapper.build s target x >>= fun w => w.text target) : Step σ Outcome).run b) :
      WorksWith s t target classes b c (.ok x.references)
  | skipped {r : Resolved} {e : Error} (job : ⟨c, r⟩ ∈ (resolveAll t {} classes).1)
      (references : (⟨s, t, target, Host.overridden b⟩ : Generator).references r = .error e)
      (outcome : (generate s t target ⟨c, r⟩ : Step σ Outcome).run b =
        (.ok (.skipped ⟨c.className, c.unitPath, e⟩), b)) :
      WorksWith s t target classes b c (.error e)
  | unresolved {e : Error} (failed : ⟨c.className, c.unitPath, e⟩ ∈ (resolveAll t {} classes).2) :
      WorksWith s t target classes b c (.error e)

/-- The failures are the scheduled classes that do not resolve. -/
theorem mem_unresolved_iff {classes : List Scheduled} {c : Scheduled} {e : Error} :
    ⟨c.className, c.unitPath, e⟩ ∈ classes.filterMap (unresolved? t) ↔
      c ∈ classes ∧ t.resolve c.className = .error e := by
  have hfailed : ∀ d, unresolved? t d = some ⟨c.className, c.unitPath, e⟩ ↔
      d = c ∧ t.resolve d.className = .error e := by
    intro d
    rcases c with ⟨name, path⟩
    rcases d with ⟨name', path'⟩
    unfold unresolved?
    cases t.resolve name' <;> simp [and_assoc]
  simp only [List.mem_filterMap, hfailed]
  constructor
  · rintro ⟨_, hd, rfl, he⟩
    exact ⟨hd, he⟩
  · rintro ⟨hc, he⟩
    exact ⟨_, hc, rfl, he⟩

variable {classes : List Scheduled} {b : σ} {c : Scheduled} {answer : Except Error References}

theorem WorksWith.eq_referencesOf (h : WorksWith s t target classes b c answer) :
    answer = (⟨s, t, target, Host.overridden b⟩ : Generator).referencesOf c.className := by
  have hall := resolveAll_eq t.faithful_empty classes
  cases h with
  | built job subject _ =>
    rw [hall] at job
    obtain ⟨refs, _, hrefs, -, rfl⟩ := Generator.subject_eq_ok subject
    rw [Generator.referencesOf_of_resolve (mem_jobs_iff.1 job).2, hrefs]
  | skipped job references _ =>
    rw [hall] at job
    rw [Generator.referencesOf_of_resolve (mem_jobs_iff.1 job).2, references]
  | unresolved failed =>
    rw [hall] at failed
    rw [Generator.referencesOf_eq_error (mem_unresolved_iff.1 failed).2]

theorem worksWith_referencesOf (hc : c ∈ classes) : WorksWith s t target classes b c
    ((⟨s, t, target, Host.overridden b⟩ : Generator).referencesOf c.className) := by
  have hall := resolveAll_eq t.faithful_empty classes
  cases hresolve : t.resolve c.className with
  | error e =>
    rw [Generator.referencesOf_eq_error (g := ⟨s, t, target, Host.overridden b⟩) hresolve]
    refine .unresolved ?_
    rw [hall]
    exact mem_unresolved_iff.2 ⟨hc, hresolve⟩
  | ok r =>
    have hjob : (⟨c, r⟩ : Job) ∈ (resolveAll t {} classes).1 := by
      rw [hall]
      exact mem_jobs_iff.2 ⟨hc, hresolve⟩
    rw [Generator.referencesOf_of_resolve (g := ⟨s, t, target, Host.overridden b⟩) hresolve]
    cases hrefs : (⟨s, t, target, Host.overridden b⟩ : Generator).references r with
    | ok refs =>
      obtain ⟨x, hx, rfl⟩ := Generator.exists_subject_of_references
        (g := ⟨s, t, target, Host.overridden b⟩) hresolve hrefs
      exact .built hjob hx (generate_of_subject hx)
    | error e =>
      obtain ⟨m, -, rfl⟩ := Generator.references_eq_error
        (g := ⟨s, t, target, Host.overridden b⟩) hresolve hrefs
      exact .skipped hjob hrefs (generate_of_render_error (Generator.render_of_references_error hrefs) rfl)

/-- Whatever a run has resolved before, for each class of its plan it works with exactly what inspection
shows in any state in which the same overrides stand: the same references, or the same error. -/
theorem inspection_shows_references (s : Settings) (t : ClassTable) (target : Target)
    (units : List SourceUnit) {a b : σ} (h : Host.overridden b = Host.overridden a) {c : Scheduled}
    (hc : c ∈ (Plan.ofUnits t units).classes) (answer : Except Error References) :
    WorksWith s t target (Plan.ofUnits t units).classes b c answer ↔
      answer = (⟨s, t, target, Host.overridden a⟩ : Generator).referencesOf c.className := by
  rw [← h]
  exact ⟨WorksWith.eq_referencesOf, fun heq => heq ▸ worksWith_referencesOf hc⟩

/-- A shelf on which the override of the class at the top lies. -/
def baseShelf : Shelf := ⟨[⟨"js/src/core/Base.js"⟩], []⟩

theorem inspection_shows_references_shape :
    let t := ClassTable.ringTable
    let shown := (⟨{}, t, .javascript, Host.overridden baseShelf⟩ : Generator).referencesOf "Shape"
    (shown.map fun refs => refs["Base"]?.map (·.file)) = .ok (some ⟨"js/src/core/Base.js"⟩) ∧
      ∀ b : Shelf, b.overrides = baseShelf.overrides →
        WorksWith {} t .javascript (Plan.ofUnits t (SourceUnit.ofTable t)).classes b ⟨"Shape", "Shape"⟩
          shown := by
  have hplanned : ⟨"Shape", "Shape"⟩ ∈
      (Plan.ofUnits ClassTable.ringTable (SourceUnit.ofTable ClassTable.ringTable)).classes := by
    have hplan : (Plan.ofUnits ClassTable.ringTable (SourceUnit.ofTable ClassTable.ringTable)).classes =
        [⟨"Base", "core/Base"⟩, ⟨"Shape", "Shape"⟩, ⟨"Ring", "Ring"⟩] := by cbv
    simp [hplan]
  have hshape : ClassTable.ringTable.resolve "Shape" = .ok (ClassTable.ringTable.merge "Shape"
      ((ClassRecord.empty.extending "Base").withProperty "radius" (.float none false))
      (some (ClassTable.ringTable.merge "Base" ClassTable.baseRecord none))) := by cbv
  intro t shown
  refine ⟨?_, fun b hb => ?_⟩
  · show ((Generator.referencesOf _ "Shape").map _) = _
    rw [Generator.referencesOf_of_resolve hshape]
    decide +kernel
  · have hsame : (Host.overridden b : Path → Bool) = Host.overridden baseShelf := by
      funext p
      exact congrArg (fun paths : List Path => paths.any p.same) hb
    exact (inspection_shows_references {} t .javascript _ hsame hplanned _).2 rfl

end Generation
end WrapperGen
