import Mathlib.Data.List.Forall2
import WrapperGen.Proofs.Concurrency.Confluence

/-!
# Orders with nothing left to do

A script rests on a tree if each of its operations succeeds there and changes nothing. Where all scripts of a
run rest, the tree stays as it is in whatever order they go on, and no order fails.
-/

namespace WrapperGen

open Relation (ReflTransGen)

theorem forall₂_append_cases {α β : Type} {R : α → β → Prop} {xs ys : List α} {zs : List β}
    (h : List.Forall₂ R (xs ++ ys) zs) :
    ∃ us vs, zs = us ++ vs ∧ List.Forall₂ R xs us ∧ List.Forall₂ R ys vs := by
  induction xs generalizing zs with
  | nil => exact ⟨[], zs, rfl, .nil, h⟩
  | cons x xs ih =>
    rw [List.cons_append] at h
    cases h with
    | @cons _ z _ _ hx hrest =>
      obtain ⟨us, vs, rfl, hus, hvs⟩ := ih hrest
      exact ⟨z :: us, vs, rfl, .cons hx hus, hvs⟩

namespace Script

variable {α β : Type} {b c : FileTree} {P : α → Prop} {Q : β → Prop}

/-- `m.Rests b P`: what the script `m` does on the tree `b` succeeds and leaves the tree as it is, and its
result is in `P`. -/
def Rests (b : FileTree) (P : α → Prop) : Script α → Prop
  | done x => P x
  | fail _ => False
  | step op next => ∃ answer, op.perform.run b = (.ok answer, b) ∧ (next answer).Rests b P

theorem Rests.bind {m : Script α} {f : α → Script β} (hm : m.Rests b P)
    (hf : ∀ x, P x → (f x).Rests b Q) : (m >>= f).Rests b Q := by
  show (m.bind f).Rests b Q
  induction m with
  | done x => exact hf x hm
  | fail e => exact hm.elim
  | step op next ih =>
    obtain ⟨answer, hrun, hrest⟩ := hm
    exact ⟨answer, hrun, ih answer hrest⟩

theorem rests_ok_bind {x : Except Error α} {f : α → Script β} {y : α} (hx : x = .ok y)
    (hf : (f y).Rests b Q) : (lift x >>= f).Rests b Q := by
  subst hx
  exact hf

theorem rests_mapM {f : β → Script α} {xs : List β} (h : ∀ x ∈ xs, (f x).Rests b fun _ => True) :
    (xs.mapM f).Rests b fun _ => True := by
  induction xs with
  | nil => trivial
  | cons x xs ih =>
    rw [List.mapM_cons]
    have hrest := ih fun y hy => h y (List.mem_cons_of_mem x hy)
    exact (h x List.mem_cons_self).bind fun _ _ => hrest.bind fun _ _ => trivial

section

variable {p : Path} {before : List String} {n : String} (hn : Entries.isName n = true)
  (hpieces : p.pieces = before ++ [n])

include hn hpieces

/-- To write a file again with the text that it holds changes nothing. -/
theorem rests_write {text : String} (h : b.Holds p text) : (write p text).Rests b fun _ => True := by
  obtain ⟨l, hl, -⟩ := id h
  exact ⟨(), FileTree.run_ensureParent_of_locate hn hpieces hl, (),
    FileTree.run_commit_eq_ok_iff.2 (h.write_eq hn hpieces), trivial⟩

theorem rests_ensure (h : b.present p = true) : (ensure p).Rests b fun made => made = false := by
  obtain ⟨l, hl, -⟩ := FileTree.present_iff.1 h
  refine ⟨(), FileTree.run_ensureParent_of_locate hn hpieces hl, false, ?_, rfl⟩
  show (Op.create p).perform.run b = _
  unfold Op.perform
  rw [Step.run_get_bind, FileTree.create_eq_exists hn hpieces h]
  rfl

end

/-- A task that is answered as the tree answers, and whose files hold what it writes, changes nothing. -/
theorem Plays.rests {o : Path → Bool} {A : Path → Prop} {m : Script α} {ws : List (Path × String)} {x : α}
    (h : Plays o A m ws x) (hasked : ∀ p, A p → b.isFile p = o p)
    (hfiles : ∀ w ∈ ws, b.Holds w.1 w.2 ∧ ∃ before n, Entries.isName n = true ∧ w.1.pieces = before ++ [n]) :
    m.Rests b (· = x) := by
  induction h with
  | done x => rfl
  | ask asked _ ih => exact ⟨_, Op.run_ask_eq_ok_iff.2 ⟨(hasked _ asked).symm, rfl⟩, ih hfiles⟩
  | raise written _ ih =>
    obtain ⟨w, hw, rfl⟩ := List.mem_map.1 written
    obtain ⟨⟨l, hl, -⟩, before, n, hn, hpieces⟩ := hfiles w hw
    exact ⟨(), FileTree.run_ensureParent_of_locate hn hpieces hl, ih hfiles⟩
  | put _ ih =>
    obtain ⟨hholds, before, n, hn, hpieces⟩ := hfiles _ List.mem_cons_self
    exact ⟨(), Op.run_put_eq_ok_iff.2 (hholds.write_eq hn hpieces),
      ih fun w hw => hfiles w (List.mem_cons_of_mem _ hw)⟩

/-- What a script that rests does next leaves the tree, and it goes on resting. -/
theorem Rests.next {op : Op} {next : op.Answer → Script α} {answer : op.Answer}
    (h : (step op next).Rests b P) (hrun : op.perform.run b = (.ok answer, c)) :
    c = b ∧ (next answer).Rests b P := by
  obtain ⟨answer', hrun', hrest⟩ := h
  obtain ⟨hanswer, rfl⟩ := Prod.mk.inj (hrun.symm.trans hrun')
  obtain rfl := Except.ok.inj hanswer
  exact ⟨rfl, hrest⟩

theorem Rests.not_fails {m : Script α} {e : Error} (h : m.Rests b P) : ¬ m.Fails b e c := by
  intro hfails
  cases hfails with
  | fail => exact h
  | step hrun =>
    obtain ⟨answer, hrun', -⟩ := h
    cases (Prod.mk.inj (hrun.symm.trans hrun')).1

end Script

namespace Generation

/-- What two reports on a target language have in common: all but which files for the modules together
were written, as a marker that is there is not reported. -/
def accounted (report : TargetReport) : Target × List Path × List Skipped :=
  (report.target, report.generated, report.skipped)

variable {s : Settings} {t : ClassTable} {target : Target} {jobs : List Job} {served asked : List Target}
  {b c : FileTree} {w w' : Work} {e : Error} {outcomes : List Outcome} {O : Target → List Outcome}

theorem accounted_of_ended {reports : List TargetReport} {work : Target → Work}
    {f : Target → Target × List Path × List Skipped} (hend : served.map work = reports.map .ended)
    (h : ∀ target ∈ served, ∀ report, work target = .ended report → accounted report = f target) :
    reports.map accounted = served.map f := by
  induction served generalizing reports with
  | nil => rw [List.map_eq_nil_iff.1 hend.symm]; rfl
  | cons target served ih =>
    obtain ⟨report, others, rfl, hreport, hothers⟩ := List.map_eq_cons_iff.1 hend.symm
    rw [List.map_cons, List.map_cons, h target List.mem_cons_self report hreport.symm,
      ih hothers.symm fun other hother => h other (List.mem_cons_of_mem target hother)]

/-- A target language has nothing left to do on a tree: its tasks end with these outcomes, and in whatever
order they come, the modules are put together already. -/
structure Resting (s : Settings) (t : ClassTable) (target : Target) (jobs : List Job) (b : FileTree)
    (outcomes : List Outcome) : Prop where
  tasks : List.Forall₂ (fun job outcome => (Script.generate s t target job).Rests b (· = outcome))
    jobs outcomes
  reports : ∀ arrived : List Outcome, arrived.Perm outcomes →
    generatedOf arrived = generatedOf outcomes ∧ skippedOf arrived = skippedOf outcomes
  aggregate : (Script.aggregate s target (generatedOf outcomes)).Rests b fun _ => True

def Work.Rests (b : FileTree) (target : Target) (outcomes : List Outcome) : Work → Prop
  | modules tasks => List.Forall₂ (fun m outcome => m.Rests b (· = outcome)) tasks outcomes
  | together generated skipped rest =>
    generated = generatedOf outcomes ∧ skipped = skippedOf outcomes ∧ rest.Rests b fun _ => True
  | ended report => accounted report = (target, generatedOf outcomes, skippedOf outcomes)

theorem Resting.start (h : Resting s t target jobs b outcomes) :
    (start s t jobs target).Rests b target outcomes := by
  show List.Forall₂ _ (jobs.map _) _
  rw [List.forall₂_map_left_iff]
  exact h.tasks

theorem eq_of_rests_done {ended : List Outcome}
    (h : List.Forall₂ (fun m outcome => m.Rests b (· = outcome)) (ended.map Script.done) outcomes) :
    ended = outcomes := by
  rw [List.forall₂_map_left_iff] at h
  exact List.forall₂_eq_eq_eq ▸ h

theorem Resting.advances (h : Resting s t target jobs b outcomes) (hw : w.Rests b target outcomes)
    (hadv : Advances s target b w c w') : c = b ∧ w'.Rests b target outcomes := by
  cases hadv with
  | @task _ before after op next answer hrun =>
    obtain ⟨first, others, rfl, hfirst, hothers⟩ := forall₂_append_cases hw
    cases hothers with
    | cons hm hlast =>
      obtain ⟨rfl, hnext⟩ := hm.next hrun
      exact ⟨rfl, List.rel_append hfirst (.cons hnext hlast)⟩
  | join harrive =>
    obtain rfl := eq_of_rests_done hw
    obtain ⟨hgenerated, hskipped⟩ := h.reports _ harrive
    exact ⟨rfl, hgenerated, hskipped, hgenerated ▸ h.aggregate⟩
  | aggregate hrun =>
    obtain ⟨hgenerated, hskipped, hrest⟩ := hw
    obtain ⟨rfl, hnext⟩ := hrest.next hrun
    exact ⟨rfl, hgenerated, hskipped, hnext⟩
  | close =>
    obtain ⟨rfl, rfl, -⟩ := hw
    exact ⟨rfl, rfl⟩

theorem Work.Rests.not_fails (h : w.Rests b target outcomes) : ¬ w.Fails b e c w' := by
  intro hfails
  cases hfails with
  | task hm =>
    obtain ⟨first, others, rfl, -, hothers⟩ := forall₂_append_cases h
    cases hothers with
    | cons hrests _ => exact hrests.not_fails hm
  | aggregate hm => exact h.2.2.not_fails hm

section

variable (h : ∀ target ∈ served, Resting s t target jobs b (O target))

include h

theorem resting_of_moves {S : State} (hmoves : ReflTransGen (Moves s served) (b, start s t jobs) S) :
    S.1 = b ∧ ∀ target ∈ served, (S.2 target).Rests b target (O target) := by
  induction hmoves with
  | refl => exact ⟨rfl, fun target mem => (h target mem).start⟩
  | @tail S S' _ hmove ih =>
    obtain @⟨b', c, work, target, w, mem, hadv⟩ := hmove
    obtain ⟨rfl, hwork⟩ := ih
    obtain ⟨rfl, hw⟩ := (h target mem).advances (hwork target mem) hadv
    refine ⟨rfl, fun other hother => ?_⟩
    by_cases heq : other = target
    · subst heq
      simpa using hw
    · simpa [heq] using hwork other hother

theorem not_breaks_of_resting : ¬ Breaks s served (b, start s t jobs) e c := by
  rintro ⟨S, hmoves, target, mem, d, w, hfails, -⟩
  obtain ⟨hb, hwork⟩ := resting_of_moves h hmoves
  exact (hwork target mem).not_fails (hb ▸ hfails)

theorem accounted_of_resting {reports : List TargetReport}
    (hserves : Interleaves s t jobs served b reports c) : c = b ∧ reports.map accounted =
      served.map fun target => (target, generatedOf (O target), skippedOf (O target)) := by
  obtain ⟨work, hmoves, hend⟩ := hserves
  obtain ⟨hc, hwork⟩ := resting_of_moves h hmoves
  refine ⟨hc, accounted_of_ended hend fun target mem report hreport => ?_⟩
  have haccounted := hwork target mem
  dsimp only at haccounted
  rwa [hreport] at haccounted

end

/-- A run on a tree where nothing is left to do succeeds in every order, and leaves the tree. -/
theorem RunsTo.of_resting {units : List SourceUnit} (hunits : SourceUnit.enumerate s t b = .ok units)
    (h : ∀ target ∈ targets s asked,
      Resting s t target ((Plan.ofUnits t units).classes.filterMap (job? t)) b (O target))
    {result : Except Error Report} (hrun : RunsTo s t asked b result c) :
    c = b ∧ ∃ report, result = .ok report ∧ report.targets.map accounted =
      ((targets s asked).map fun target => (target, generatedOf (O target), skippedOf (O target))) ∧
      report.unresolved = (Plan.ofUnits t units).skipped ++
        (Plan.ofUnits t units).classes.filterMap (unresolved? t) := by
  cases hrun with
  | unlisted henumerated => exact nomatch hunits.symm.trans henumerated
  | @reported units' reports _ henumerated hserves =>
    obtain rfl := Except.ok.inj (hunits.symm.trans henumerated)
    obtain ⟨rfl, haccounted⟩ := accounted_of_resting h hserves
    exact ⟨rfl, _, rfl, haccounted, rfl⟩
  | @failed units' _ _ henumerated hserves =>
    obtain rfl := Except.ok.inj (hunits.symm.trans henumerated)
    exact absurd hserves (not_breaks_of_resting h)

end Generation
end WrapperGen
