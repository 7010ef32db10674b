import WrapperGen.Proofs.Aggregate.IndexTree
import WrapperGen.Proofs.Concurrency.Orders
import WrapperGen.Proofs.Concurrency.Telling
import WrapperGen.Proofs.Path.Order

/-!
# What runs tell

In whatever order the operations of a run come, what is written at any time is what the target languages will
tell of, and where they have ended it is what their reports list. Each job has one outcome. Where a run fails
it is storage that fails, and nothing but products of the run is written until then.
-/

namespace WrapperGen

open Error (IsStorage)
open FileTree (Footprint Grows)
open Relation (ReflTransGen)

theorem Script.Fails.tells {α : Type} {L : Op → Prop} {E : Error → (Path → Prop) → Prop}
    {P : α → (Path → Prop) → Prop} {W : Path → Prop} {m : Script α} {b c : FileTree} {e : Error}
    (h : m.Fails b e c) (hm : m.Tells L E P W) :
    Grows (fun _ => False) b c ∧ (IsStorage e ∨ E e W) := by
  cases h with
  | fail => exact ⟨.refl _ b, .inr hm⟩
  | step performed =>
    obtain ⟨hgrows, hstorage⟩ := Op.grows_of_error performed
    exact ⟨hgrows, .inl hstorage⟩

/-- Whether a report names a path as written. -/
def Report.Lists (r : Report) (p : Path) : Prop :=
  ∃ target ∈ r.targets, p ∈ target.generated ∨ p ∈ target.aggregates

namespace Generation

/-- What has become of jobs, in the order in which it came. -/
def Arrived (s : Settings) (t : ClassTable) (target : Target) (jobs : List Job) (arrived : List Outcome) :
    Prop := ∃ outcomes, List.Forall₂ (Becomes s t target) jobs outcomes ∧ arrived.Perm outcomes

/-- What a target language reports on jobs: what has become of each of them. -/
structure Accounts (s : Settings) (t : ClassTable) (jobs : List Job) (target : Target)
    (report : TargetReport) : Prop where
  served : report.target = target
  outcomes : ∃ arrived, Arrived s t target jobs arrived ∧ report.generated = generatedOf arrived ∧
    report.skipped = skippedOf arrived

/-- `w.Tells s t served jobs E target W`: the work `w` of a target language has written the files of `W` and
will tell of them and of what it writes yet. Its scripts fail by themselves only with errors of `E`. -/
def Work.Tells (s : Settings) (t : ClassTable) (served : List Target) (jobs : List Job) (E : Error → Prop)
    (target : Target) : Work → (Path → Prop) → Prop
  | modules tasks, W => ∃ todo : List (Job × Script Outcome × (Path → Prop)), todo.map (·.1) = jobs ∧
      todo.map (·.2.1) = tasks ∧ (∀ p, W p ↔ ∃ x ∈ todo, x.2.2 p) ∧
      ∀ x ∈ todo, x.2.1.Tells (Serving s t served target) (fun e _ => E e)
        (fun outcome W' => Becomes s t target x.1 outcome ∧ ∀ p, W' p ↔ outcome.file? = some p) x.2.2
  | together generated skipped rest, W =>
      (∃ arrived, Arrived s t target jobs arrived ∧ generated = generatedOf arrived ∧
        skipped = skippedOf arrived) ∧
      rest.Tells (Serving s t served target) (fun e _ => E e)
        (fun paths W' => ∀ p, W' p ↔ p ∈ generated ∨ p ∈ paths) W
  | ended report, W => Accounts s t jobs target report ∧
      ∀ p, W p ↔ p ∈ report.generated ∨ p ∈ report.aggregates

/-- `Told s t served jobs E a W S`: since the tree `a` each target language has written the files of `W`, which
are its products, and will tell of them. -/
structure Told (s : Settings) (t : ClassTable) (served : List Target) (jobs : List Job) (E : Error → Prop)
    (a : FileTree) (W : Target → Path → Prop) (S : State) : Prop where
  works : ∀ target ∈ served, (S.2 target).Tells s t served jobs E target (W target)
  products : ∀ target ∈ served, ∀ p, W target p → Product s t target p
  footprint : Footprint (Rewritten s served) (fun p => ∃ target ∈ served, W target p) a S.1

variable {s : Settings} {t : ClassTable} {target : Target} {jobs : List Job} {served : List Target}
  {a b c : FileTree} {w w' : Work} {E : Error → Prop} {e : Error} {W : Target → Path → Prop}
  {S S' : State} {reports : List TargetReport}

theorem told_start (hjobs : ∀ job ∈ jobs, t.resolve job.scheduled.className = .ok job.resolved)
    (E : Error → Prop) (a : FileTree) :
    Told s t served jobs E a (fun _ _ => False) (a, start s t jobs) := by
  refine ⟨fun target _ => ?_, nofun, (Footprint.refl _ a).congr (by simp)⟩
  refine ⟨jobs.map fun job => (job, Script.generate s t target job, fun _ => False),
    by simp [Function.comp_def], by simp [Function.comp_def], by simp, fun x hx => ?_⟩
  obtain ⟨job, hjob, rfl⟩ := List.mem_map.1 hx
  exact (Script.tells_generate (hjobs job hjob)).mono (fun _ _ => id) fun outcome W' h => by simpa using h

theorem pairwise_sortedPaths (paths : List Path) :
    (sortedPaths paths).Pairwise fun p q => p.le q = true := by
  unfold sortedPaths
  refine List.pairwise_mergeSort (fun p q r hpq hqr => ?_) (fun p q => ?_) paths
  · exact Path.le_trans hpq hqr
  · exact Path.le_total p q

theorem pairwise_sortedSkipped (skipped : List Skipped) :
    (sortedSkipped skipped).Pairwise fun j k => j.className ≤ k.className := by
  have hsorted : (sortedSkipped skipped).Pairwise fun j k => decide (j.className ≤ k.className) = true := by
    unfold sortedSkipped
    refine List.pairwise_mergeSort (fun i j k hij hjk => ?_) (fun j k => ?_) skipped
    · exact decide_eq_true (String.le_trans (of_decide_eq_true hij) (of_decide_eq_true hjk))
    · simpa using String.le_total j.className k.className
  exact hsorted.imp of_decide_eq_true

theorem mem_generatedOf_iff {outcomes : List Outcome} {p : Path} :
    p ∈ generatedOf outcomes ↔ ∃ outcome ∈ outcomes, outcome.file? = some p := by
  rw [generatedOf, sortedPaths, List.mem_mergeSort, List.mem_filterMap]

/-- Tasks that have ended have told what became of their jobs. -/
theorem Work.Tells.arrived {outcomes arrived : List Outcome} {W : Path → Prop}
    (h : (Work.modules (outcomes.map .done)).Tells s t served jobs E target W)
    (harrive : arrived.Perm outcomes) :
    Arrived s t target jobs arrived ∧ ∀ p, W p ↔ p ∈ generatedOf arrived := by
  obtain ⟨todo, hjobs, htasks, hW, htold⟩ := h
  obtain ⟨ended, rfl, htodo⟩ : ∃ ended : List (Job × Outcome × (Path → Prop)),
      todo = ended.map (fun x => (x.1, .done x.2.1, x.2.2)) ∧ ended.map (·.2.1) = outcomes := by
    clear hjobs hW htold harrive
    induction todo generalizing outcomes with
    | nil => exact ⟨[], rfl, by simpa using htasks⟩
    | cons x todo ih =>
      obtain ⟨outcome, rest, rfl, hx, hrest⟩ := List.map_eq_cons_iff.1 htasks.symm
      obtain ⟨ended, rfl, rfl⟩ := ih hrest.symm
      exact ⟨(x.1, outcome, x.2.2) :: ended, by simp [hx], rfl⟩
  have hended : ∀ x ∈ ended, Becomes s t target x.1 x.2.1 ∧ ∀ p, x.2.2 p ↔ x.2.1.file? = some p :=
    fun x hx => htold _ (List.mem_map_of_mem hx)
  refine ⟨⟨outcomes, ?_, harrive⟩, fun p => ?_⟩
  · rw [← hjobs, ← htodo, List.map_map, List.forall₂_map_left_iff, List.forall₂_map_right_iff,
      List.forall₂_same]
    exact fun x hx => (hended x hx).1
  · rw [hW, mem_generatedOf_iff]
    simp only [harrive.mem_iff, ← htodo, List.mem_map, exists_exists_and_eq_and]
    exact exists_congr fun x => and_congr_right fun hx => (hended x hx).2 p

/-- What a step of a target language writes is what it will tell of in addition. -/
theorem Advances.tells (mem : target ∈ served) {W : Path → Prop}
    (hw : w.Tells s t served jobs E target W) (h : Advances s target b w c w') :
    ∃ new, w'.Tells s t served jobs E target (fun p => W p ∨ new p) ∧
      Footprint (Rewritten s served) new b c ∧ ∀ p, new p → Product s t target p := by
  cases h with
  | @task _ before after op next answer hrun =>
    obtain ⟨todo, hjobs, htasks, hW, htold⟩ := hw
    obtain ⟨first, others, rfl, hfirst, hothers⟩ := List.map_eq_append_iff.1 htasks
    obtain ⟨⟨job, m, V⟩, last, rfl, hm, hlast⟩ := List.map_eq_cons_iff.1 hothers
    obtain rfl : m = .step op next := hm
    obtain ⟨hop, hnext⟩ := htold _ (List.mem_append_right first List.mem_cons_self)
    refine ⟨op.wrote (fun _ => False) answer, ⟨first ++ (job, next answer, op.wrote V answer) :: last,
      by simpa using hjobs, by simp [hfirst, hlast], fun p => ?_, fun x hx => ?_⟩, hop.footprint hrun,
      fun p => hop.product⟩
    · simp only [List.mem_append, List.mem_cons, or_and_right, exists_or, exists_eq_left] at hW ⊢
      rw [hW, Op.wrote_iff (W := V)]
      simp only [or_assoc, or_comm, or_left_comm]
    · rw [List.mem_append, List.mem_cons] at hx
      rcases hx with hx | rfl | hx
      · exact htold x (List.mem_append_left _ hx)
      · exact hnext answer
      · exact htold x (List.mem_append_right first (List.mem_cons_of_mem _ hx))
  | @join outcomes arrived harrive =>
    obtain ⟨harrived, hW⟩ := hw.arrived harrive
    refine ⟨fun _ => False, ⟨⟨arrived, harrived, rfl, rfl⟩, ?_⟩, .refl _ _, nofun⟩
    exact (Script.tells_aggregate mem _).mono (fun _ _ => id) fun paths W' h p => by rw [h, or_false, hW]
  | @aggregate _ generated skipped op next answer hrun =>
    obtain ⟨harrived, hop, hnext⟩ := hw
    have hwrote : op.wrote W answer = fun p => W p ∨ op.wrote (fun _ => False) answer p :=
      funext fun p => propext Op.wrote_iff
    exact ⟨op.wrote (fun _ => False) answer, ⟨harrived, hwrote ▸ hnext answer⟩, hop.footprint hrun,
      fun p => hop.product⟩
  | @close generated skipped aggregates =>
    obtain ⟨⟨arrived, harrived, hgenerated, hskipped⟩, hW⟩ := hw
    exact ⟨fun _ => False, ⟨⟨rfl, arrived, harrived, hgenerated, hskipped⟩, fun p => by simp [hW p]⟩,
      .refl _ _, nofun⟩

namespace Told

/-- A step of a run writes products of the target language that takes it. -/
theorem step (h : Told s t served jobs E a W S) (hmove : Moves s served S S') :
    ∃ W', Told s t served jobs E a W' S' := by
  obtain @⟨b, c, work, target, w, mem, hadv⟩ := hmove
  obtain ⟨new, hw, hfootprint, hproducts⟩ := hadv.tells mem (h.works target mem)
  refine ⟨Function.update W target fun p => W target p ∨ new p, fun other hother => ?_,
    fun other hother p hp => ?_, (h.footprint.trans hfootprint).congr fun p => ⟨?_, ?_⟩⟩
  · by_cases heq : other = target
    · subst heq
      simpa using hw
    · simpa [heq] using h.works other hother
  · by_cases heq : other = target
    · subst heq
      rw [Function.update_self] at hp
      exact hp.elim (h.products other hother p) (hproducts p)
    · rw [Function.update_of_ne heq] at hp
      exact h.products other hother p hp
  · rintro ⟨other, hother, hp⟩
    by_cases heq : other = target
    · subst heq
      rw [Function.update_self] at hp
      exact hp.imp_left fun hp => ⟨other, hother, hp⟩
    · rw [Function.update_of_ne heq] at hp
      exact .inl ⟨other, hother, hp⟩
  · rintro (⟨other, hother, hp⟩ | hp)
    · refine ⟨other, hother, ?_⟩
      by_cases heq : other = target
      · subst heq
        rw [Function.update_self]
        exact .inl hp
      · rwa [Function.update_of_ne heq]
    · refine ⟨target, mem, ?_⟩
      rw [Function.update_self]
      exact .inr hp

theorem steps (h : Told s t served jobs E a W S) (hmoves : ReflTransGen (Moves s served) S S') :
    ∃ W', Told s t served jobs E a W' S' := by
  induction hmoves with
  | refl => exact ⟨W, h⟩
  | tail _ hmove ih =>
    obtain ⟨W', hW'⟩ := ih
    exact hW'.step hmove

/-- Where a target language fails it is storage that fails, and no file is written. -/
theorem fails (h : Told s t served jobs IsStorage a W S) (mem : target ∈ served)
    (hfails : (S.2 target).Fails S.1 e c w) :
    e.IsStorage ∧ Told s t served jobs IsStorage a W (c, Function.update S.2 target w) := by
  obtain ⟨hgrows, hstorage, hw⟩ : Grows (fun _ => False) S.1 c ∧ e.IsStorage ∧
      w.Tells s t served jobs IsStorage target (W target) := by
    have htold := h.works target mem
    generalize S.2 target = now at hfails htold
    cases hfails with
    | @task before after m hm =>
      obtain ⟨todo, hjobs, htasks, hW, htold⟩ := htold
      obtain ⟨first, others, rfl, hfirst, hothers⟩ := List.map_eq_append_iff.1 htasks
      obtain ⟨⟨job, m', V⟩, last, rfl, hm', hlast⟩ := List.map_eq_cons_iff.1 hothers
      obtain rfl : m' = m := hm'
      have hone := htold _ (List.mem_append_right first List.mem_cons_self)
      obtain ⟨hgrows, hstorage⟩ := hm.tells hone
      have hstorage : e.IsStorage := hstorage.elim id id
      refine ⟨hgrows, hstorage, first ++ (job, .fail e, V) :: last, by simpa using hjobs,
        by simp [hfirst, hlast], fun p => ?_, fun x hx => ?_⟩
      · simp only [List.mem_append, List.mem_cons, or_and_right, exists_or, exists_eq_left] at hW ⊢
        exact hW p
      rw [List.mem_append, List.mem_cons] at hx
      rcases hx with hx | rfl | hx
      · exact htold x (List.mem_append_left _ hx)
      · exact hstorage
      · exact htold x (List.mem_append_right first (List.mem_cons_of_mem _ hx))
    | aggregate hm =>
      obtain ⟨harrived, hrest⟩ := htold
      obtain ⟨hgrows, hstorage⟩ := hm.tells hrest
      have hstorage : e.IsStorage := hstorage.elim id id
      exact ⟨hgrows, hstorage, harrived, hstorage⟩
  refine ⟨hstorage, fun other hother => ?_, h.products, ?_⟩
  · by_cases heq : other = target
    · subst heq
      simpa using hw
    · simpa [heq] using h.works other hother
  · exact (h.footprint.trans (.of_grows hgrows)).congr (by simp)

theorem grows (h : Told s t served jobs E a W S) :
    Grows (fun p => ∃ target ∈ served, Product s t target p) a S.1 :=
  h.footprint.toGrows.mono fun p ⟨target, mem, hp⟩ => ⟨target, mem, h.products target mem p hp⟩

/-- Where all target languages have ended, their reports list what is written. -/
theorem listed (h : Told s t served jobs E a W S) (hend : served.map S.2 = reports.map .ended) :
    List.Forall₂ (Accounts s t jobs) served reports ∧
      Footprint (Rewritten s served) (fun p => ∃ r ∈ reports, p ∈ r.generated ∨ p ∈ r.aggregates) a S.1 := by
  have hreports : List.Forall₂ (fun target r => S.2 target = .ended r) served reports := by
    rw [← List.forall₂_map_right_iff (f := Work.ended) (R := fun target w => S.2 target = w), ← hend,
      List.forall₂_map_right_iff, List.forall₂_same]
    exact fun _ _ => rfl
  have hlisted : List.Forall₂ (fun target r => Accounts s t jobs target r ∧
      ∀ p, W target p ↔ p ∈ r.generated ∨ p ∈ r.aggregates) served reports := by
    refine (List.forall₂_iff_get.1 hreports).elim fun hlength hget => List.forall₂_iff_get.2 ⟨hlength, ?_⟩
    intro i hi hi'
    have htold := h.works (served.get ⟨i, hi⟩) (List.get_mem _ _)
    rw [hget i hi hi'] at htold
    exact htold
  obtain ⟨hleft, hright⟩ := exists_of_forall₂ hlisted
  refine ⟨hlisted.imp fun _ _ => And.left, h.footprint.congr fun p => ⟨?_, ?_⟩⟩
  · rintro ⟨r, hr, hp⟩
    obtain ⟨target, mem, -, hW⟩ := hright r hr
    exact ⟨target, mem, (hW p).2 hp⟩
  · rintro ⟨target, mem, hp⟩
    obtain ⟨r, hr, -, hW⟩ := hleft target mem
    exact ⟨r, hr, (hW p).1 hp⟩

end Told

section

variable (hjobs : ∀ job ∈ jobs, t.resolve job.scheduled.className = .ok job.resolved)

include hjobs

theorem told_of_interleaves (h : Interleaves s t jobs served a reports b) :
    List.Forall₂ (Accounts s t jobs) served reports ∧
      Footprint (Rewritten s served) (fun p => ∃ r ∈ reports, p ∈ r.generated ∨ p ∈ r.aggregates) a b ∧
      Grows (fun p => ∃ target ∈ served, Product s t target p) a b := by
  obtain ⟨work, hmoves, hend⟩ := h
  obtain ⟨W, htold⟩ := (told_start hjobs (fun _ => False) a).steps hmoves
  obtain ⟨haccounts, hfootprint⟩ := htold.listed hend
  exact ⟨haccounts, hfootprint, htold.grows⟩

theorem told_of_breaks (h : Breaks s served (a, start s t jobs) e b) :
    e.IsStorage ∧ Grows (fun p => ∃ target ∈ served, Product s t target p) a b := by
  obtain ⟨S, hmoves, target, mem, c, w, hfails, work, hrest⟩ := h
  obtain ⟨W, htold⟩ := (told_start hjobs IsStorage a).steps hmoves
  obtain ⟨hstorage, htold⟩ := htold.fails mem hfails
  obtain ⟨W', htold⟩ := htold.steps hrest
  exact ⟨hstorage, htold.grows⟩

end

variable {asked : List Target}

/-- Whatever a run comes to, only products of its target languages are new or changed. -/
theorem RunsTo.grows {result : Except Error Report} (h : RunsTo s t asked a result b) :
    Grows (fun p => ∃ target ∈ targets s asked, Product s t target p) a b := by
  have hjobs : ∀ units, ∀ job ∈ (Plan.ofUnits t units).classes.filterMap (job? t),
      t.resolve job.scheduled.className = .ok job.resolved := fun _ _ hjob => (mem_jobs_iff.1 hjob).2
  cases h with
  | unlisted => exact .refl _ a
  | reported _ hserved => exact (told_of_interleaves (hjobs _) hserved).2.2
  | failed _ hserved => exact (told_of_breaks (hjobs _) hserved).2

/-- What a run reports: the classes that it could not resolve, what has become of the others in each target
language, and what it has written. -/
theorem RunsTo.accounts {report : Report} (h : RunsTo s t asked a (.ok report) b) :
    ∃ units, SourceUnit.enumerate s t a = .ok units ∧
      report.unresolved = (Plan.ofUnits t units).skipped ++
        (Plan.ofUnits t units).classes.filterMap (unresolved? t) ∧
      List.Forall₂ (Accounts s t ((Plan.ofUnits t units).classes.filterMap (job? t))) (targets s asked)
        report.targets ∧
      Footprint (Rewritten s (targets s asked)) report.Lists a b := by
  cases h with
  | @reported units _ _ henumerated hserved =>
    obtain ⟨haccounts, hfootprint, -⟩ :=
      told_of_interleaves (fun _ hjob => (mem_jobs_iff.1 hjob).2) hserved
    exact ⟨units, henumerated, rfl, haccounts, hfootprint⟩

theorem RunsTo.isStorage (h : RunsTo s t asked a (.error e) b) :
    SourceUnit.enumerate s t a = .error e ∨ e.IsStorage := by
  cases h with
  | unlisted henumerated => exact .inl henumerated
  | failed _ hserved =>
    exact .inr (told_of_breaks (fun _ hjob => (mem_jobs_iff.1 hjob).2) hserved).1

end Generation
end WrapperGen
