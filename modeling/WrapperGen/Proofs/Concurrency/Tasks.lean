import WrapperGen.Proofs.Concurrency.Script
import WrapperGen.Proofs.Generation.Scheduling
import WrapperGen.Proofs.Wrapper.Consulted

/-!
# The tasks of a run

The steps of a run as scripts. A module is rendered from one answer after the other about overrides, and
then written; the files for the modules together are planned from one listing of the tree. Performed in one
go, the scripts are the steps.
-/

namespace WrapperGen.Script

variable {α β : Type}

def describe (l : Linker) (file : Path) (a : Artifact) : Script Reference := do
  let stands ← perform (.ask (l.placement.overridePath a.stem a.unitPath))
  return ({ l with overridden := fun _ => stands } : Linker).describe file a

def superclass (l : Linker) (r : Resolved) (file : Path) : Script Reference := do
  describe l file (← lift (l.parent r))

def references (l : Linker) (r : Resolved) (file : Path) : Script References := do
  let parent ← superclass l r file
  let others := (← lift (l.named r)).filter (·.name ≠ r.className)
  return (← others.mapM (describe l file)).foldl (fun refs d => refs.insert d.className d)
    (Std.ExtTreeMap.empty.insert parent.className parent)

def subject (g : Generator) (r : Resolved) : Script Subject := do
  let references ← references g.linker r (g.file r)
  let superclass ← superclass g.linker r (g.file r)
  let base ← describe g.linker (g.file r) g.linker.base
  let stands ← perform (.ask (g.overrideFile r))
  return {
    resolved := r
    references
    superclass
    base
    file := g.file r
    overrideImport := ({ g with overridden := fun _ => stands } : Generator).overrideImport? r }

def render (g : Generator) (r : Resolved) : Script (Path × String) := do
  let w ← lift (Wrapper.build g.settings g.target (← subject g r))
  let text ← lift (w.text g.target)
  return (g.file r, text)

open Generation (Outcome)

def generate (s : Settings) (t : ClassTable) (target : Target) (job : Job) : Script Outcome := do
  match ← (render ⟨s, t, target, fun _ => false⟩ job.resolved).attempt with
  | .ok (file, text) =>
    write file text
    return .generated file
  | .error e =>
    if e.isClassScoped then
      return .skipped ⟨job.scheduled.className, job.scheduled.unitPath, e⟩
    else fail e

def writeIndex (library : Library) (plan : Aggregate.IndexPlan) : Script Path := do
  let text ← lift (Aggregate.indexText library plan)
  write plan.path text
  return plan.path

def writeIndexes (s : Settings) (p : Placement) : Script (List Path) := do
  let plans ← lift (Aggregate.planIndexes (.ofSettings s) p (← perform .look))
  plans.mapM (writeIndex s.library)

def ensureMarker (dir : Path) : Script (Option Path) := do
  let marker := dir.child Aggregate.packageMarker
  return if ← ensure marker then some marker else none

def writePackage (s : Settings) (p : Placement) : Script Path := do
  let modules ← lift (Aggregate.planPackage (.ofSettings s) p (← perform .look))
  let path := p.root.child s.python.aggregator
  let text ← lift (Aggregate.packageText s.python.aggregator modules)
  write path text
  return path

def aggregate (s : Settings) (target : Target) (generated : List Path) : Script (List Path) := do
  let p := s.placement target
  match target with
  | .javascript => writeIndexes s p
  | .python =>
    let markers ← (Aggregate.markerDirs p generated).mapM ensureMarker
    return markers.filterMap id ++ [← writePackage s p]

section Answers

variable {A : Path → Prop} {P : α → Prop} {Q : β → Prop} {o : Path → Bool}

/-- `OnlyAsks A P m`: the script `m` asks about paths of `A` and does nothing else, and its result is in
`P`. -/
def OnlyAsks (A : Path → Prop) (P : α → Prop) : Script α → Prop
  | done x => P x
  | fail _ => True
  | step (.ask p) next => A p ∧ ∀ answer, (next answer).OnlyAsks A P
  | step _ _ => False

/-- What a script that only asks ends with when it is answered. -/
def answered (o : Path → Bool) : Script α → Except Error α
  | done x => .ok x
  | fail e => .error e
  | step (.ask p) next => (next (o p)).answered o
  | step _ _ => .error (.settings (.other ""))

theorem OnlyAsks.bind {m : Script α} {f : α → Script β} (hm : m.OnlyAsks A P)
    (hf : ∀ x, P x → (f x).OnlyAsks A Q) : (m >>= f).OnlyAsks A Q := by
  show (m.bind f).OnlyAsks A Q
  induction m with
  | done x => exact hf x hm
  | fail e => trivial
  | step op next ih =>
    cases op with
    | ask p => exact ⟨hm.1, fun answer => ih answer (hm.2 answer)⟩
    | _ => exact hm.elim

theorem onlyAsks_lift (x : Except Error α) : (lift x).OnlyAsks A fun y => x = .ok y := by
  cases x with
  | ok y => rfl
  | error e => trivial

theorem onlyAsks_mapM {f : β → Script α} {xs : List β}
    (h : ∀ x ∈ xs, (f x).OnlyAsks A fun _ => True) : (xs.mapM f).OnlyAsks A fun _ => True := by
  induction xs with
  | nil => trivial
  | cons x xs ih =>
    rw [List.mapM_cons]
    have hrest := ih fun y hy => h y (List.mem_cons_of_mem x hy)
    exact (h x List.mem_cons_self).bind fun _ _ => hrest.bind fun _ _ => trivial

theorem answered_bind (m : Script α) (f : α → Script β) :
    (m >>= f).answered o = m.answered o >>= fun x => (f x).answered o := by
  show (m.bind f).answered o = _
  induction m with
  | done x => rfl
  | fail e => rfl
  | step op next ih =>
    cases op with
    | ask p => exact ih (o p)
    | _ => rfl

theorem answered_lift (x : Except Error α) : (lift x).answered o = x := by
  cases x <;> rfl

theorem answered_mapM {f : β → Script α} {g : β → α} (h : ∀ x, (f x).answered o = .ok (g x))
    (xs : List β) : (xs.mapM f).answered o = .ok (xs.map g) := by
  induction xs with
  | nil => rfl
  | cons x xs ih =>
    rw [List.mapM_cons, answered_bind, h]
    show (xs.mapM f >>= fun ys => pure (g x :: ys)).answered o = _
    rw [answered_bind, ih]
    rfl

theorem run_attempt {b : FileTree} {m : Script α} (h : m.OnlyAsks A P) :
    m.attempt.run.run b = (.ok (m.answered b.isFile), b) := by
  induction m with
  | done x => rfl
  | fail e => rfl
  | step op next ih =>
    cases op with
    | ask p => exact ih (b.isFile p) (h.2 _)
    | _ => exact h.elim

theorem answered_describe (l : Linker) (file : Path) (a : Artifact) :
    (describe l file a).answered o = .ok (({ l with overridden := o } : Linker).describe file a) := rfl

theorem answered_superclass (l : Linker) (r : Resolved) (file : Path) :
    (superclass l r file).answered o = ({ l with overridden := o } : Linker).superclass r file := by
  rw [superclass, answered_bind, answered_lift]
  show _ = (l.parent r).map _
  cases l.parent r <;> rfl

theorem answered_references (l : Linker) (r : Resolved) (file : Path) :
    (references l r file).answered o = ({ l with overridden := o } : Linker).references r file := by
  rw [references, Linker.references, answered_bind, answered_superclass]
  refine bind_congr fun parent => ?_
  show _ = l.named r >>= _
  rw [answered_bind, answered_lift]
  refine bind_congr fun others => ?_
  rw [answered_bind, answered_mapM (answered_describe l file)]
  rfl

theorem answered_subject (g : Generator) (r : Resolved) :
    (subject g r).answered o = ({ g with overridden := o } : Generator).subject r := by
  rw [subject, Generator.subject, answered_bind, answered_references]
  refine bind_congr fun references => ?_
  rw [answered_bind, answered_superclass]
  refine bind_congr fun superclass => ?_
  rw [answered_bind, answered_describe]
  rfl

theorem answered_render (g : Generator) (r : Resolved) :
    (render g r).answered o = ({ g with overridden := o } : Generator).render r := by
  rw [render, Generator.render, Generator.wrapper, answered_bind, answered_subject, bind_assoc]
  refine bind_congr fun subject => ?_
  rw [answered_bind, answered_lift]
  refine bind_congr fun w => ?_
  rw [answered_bind, answered_lift]
  rfl

theorem onlyAsks_describe {l : Linker} {file : Path} {a : Artifact}
    (h : A (l.placement.overridePath a.stem a.unitPath)) :
    (describe l file a).OnlyAsks A fun _ => True := ⟨h, fun _ => trivial⟩

theorem onlyAsks_render (g : Generator) (r : Resolved) :
    (render g r).OnlyAsks (g.Consults r) fun out => out.1 = g.file r := by
  have hdescribe : ∀ a, g.linker.Involves r a →
      (describe g.linker (g.file r) a).OnlyAsks (g.Consults r) fun _ => True :=
    fun a ha => onlyAsks_describe (.inr ⟨a, ha, rfl⟩)
  have hsuperclass : (superclass g.linker r (g.file r)).OnlyAsks (g.Consults r) fun _ => True :=
    (onlyAsks_lift _).bind fun a ha => hdescribe a (.inr (.inl ha))
  have hreferences : (references g.linker r (g.file r)).OnlyAsks (g.Consults r) fun _ => True :=
    hsuperclass.bind fun _ _ => (onlyAsks_lift _).bind fun others hothers =>
      (onlyAsks_mapM fun a ha => hdescribe a
        (.inr (.inr ⟨others, hothers, (List.mem_filter.1 ha).1⟩))).bind fun _ _ => trivial
  have hsubject : (subject g r).OnlyAsks (g.Consults r) fun _ => True :=
    hreferences.bind fun _ _ => hsuperclass.bind fun _ _ =>
      (hdescribe _ (.inl rfl)).bind fun _ _ => ⟨.inl rfl, fun _ => trivial⟩
  exact hsubject.bind fun _ _ => (onlyAsks_lift _).bind fun _ _ =>
    (onlyAsks_lift _).bind fun _ _ => rfl

end Answers

variable {s : Settings} {t : ClassTable} {target : Target}

theorem run_generate (job : Job) :
    (generate s t target job).run = Generation.generate s t target job := by
  refine ExceptT.ext (funext fun b => ?_)
  show (generate s t target job).run.run b = (Generation.generate s t target job).run b
  rw [generate, run_bind, Step.run_bind, run_attempt (onlyAsks_render _ _), answered_render,
    Generation.generate, Step.run_get_bind]
  dsimp only
  have hoverridden : (Host.overridden b : Path → Bool) = b.isFile := rfl
  rw [hoverridden]
  cases (⟨s, t, target, b.isFile⟩ : Generator).render job.resolved with
  | ok out =>
    obtain ⟨file, text⟩ := out
    dsimp only
    rw [run_bind, run_write]
    rfl
  | error e =>
    dsimp only
    split <;> rfl

theorem run_writeIndex (library : Library) (plan : Aggregate.IndexPlan) :
    (writeIndex library plan).run = Aggregate.writeIndex library plan := by
  rw [writeIndex, run_bind, run_lift]
  refine bind_congr fun text => ?_
  rw [run_bind, run_write]
  rfl

theorem run_writeIndexes (p : Placement) :
    (writeIndexes s p).run = Aggregate.writeIndexes s p := by
  rw [writeIndexes, run_bind, run_perform]
  refine bind_congr fun (b : FileTree) => ?_
  rw [run_bind, run_lift]
  refine bind_congr fun plans => ?_
  rw [run_mapM, funext (run_writeIndex s.library)]

theorem run_ensureMarker (dir : Path) : (ensureMarker dir).run = Aggregate.ensureMarker dir := by
  rw [ensureMarker, run_bind, run_ensure]
  rfl

theorem run_writePackage (p : Placement) :
    (writePackage s p).run = Aggregate.writePackage s p := by
  rw [writePackage, run_bind, run_perform]
  refine bind_congr fun (b : FileTree) => ?_
  rw [run_bind, run_lift]
  refine bind_congr fun modules => ?_
  rw [run_bind, run_lift]
  refine bind_congr fun text => ?_
  rw [run_bind, run_write]
  rfl

theorem run_aggregate (generated : List Path) :
    (aggregate s target generated).run = Aggregate.write s target generated := by
  cases target with
  | javascript => exact run_writeIndexes _
  | python =>
    show (_ >>= _ : Script (List Path)).run = (_ >>= _ : Step FileTree (List Path))
    rw [run_bind, run_mapM, funext run_ensureMarker, Aggregate.ensureMarkers, bind_assoc]
    refine bind_congr fun markers => ?_
    rw [run_bind, run_writePackage]
    rfl

end WrapperGen.Script
