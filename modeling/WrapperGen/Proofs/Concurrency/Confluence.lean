import WrapperGen.Proofs.Concurrency.Accounts
import WrapperGen.Proofs.Concurrency.Modules

/-!
# Confluence of runs

The order in which the tasks of a run take turns does not show: all orders in which nothing fails end with
the same tree and the same reports, those of a run that does one after the other.
-/

namespace WrapperGen

open FileTree (Keeps Agree)

namespace Generation

variable {s : Settings} {t : ClassTable} {target : Target} {jobs : List Job} {served : List Target}
  {a b c d b' d' : FileTree} {R : Location} {report report' : TargetReport}

theorem sortedPaths_eq_of_perm {xs ys : List Path} (hperm : xs.Perm ys)
    (hinj : ∀ p ∈ xs, ∀ q ∈ xs, p.components = q.components → p = q) : sortedPaths xs = sortedPaths ys := by
  have hsorted : (sortedPaths xs).Perm (sortedPaths ys) :=
    ((List.mergeSort_perm xs _).trans hperm).trans (List.mergeSort_perm ys _).symm
  refine hsorted.eq_of_pairwise (fun p q hp hq hpq hqp => ?_) (pairwise_sortedPaths xs)
    (pairwise_sortedPaths ys)
  have hq := hperm.mem_iff.2 (List.mem_mergeSort.1 hq)
  exact hinj p (List.mem_mergeSort.1 hp) q hq (Path.components_eq_of_le hpq hqp)

theorem sortedSkipped_eq_of_perm {xs ys : List Skipped} (hperm : xs.Perm ys)
    (hinj : ∀ j ∈ xs, ∀ k ∈ xs, j.className = k.className → j = k) :
    sortedSkipped xs = sortedSkipped ys := by
  have hsorted : (sortedSkipped xs).Perm (sortedSkipped ys) :=
    ((List.mergeSort_perm xs _).trans hperm).trans (List.mergeSort_perm ys _).symm
  refine hsorted.eq_of_pairwise (fun j k hj hk hjk hkj => ?_) (pairwise_sortedSkipped xs)
    (pairwise_sortedSkipped ys)
  have hk := hperm.mem_iff.2 (List.mem_mergeSort.1 hk)
  exact hinj j (List.mem_mergeSort.1 hj) k hk (String.le_antisymm hjk hkj)

/-- Putting the modules together ends in one way, whatever others do elsewhere. -/
theorem Serves.unique_of_together {generated : List Path} {skipped : List Skipped}
    {m : Script (List Path)} (hm : m.Confined a R fun _ => True) (hb : Keeps a b) (hb' : Keeps a b')
    (hagree : Agree R b b')
    (hserves : Serves s target R b (.together generated skipped m) d report)
    (hserves' : Serves s target R b' (.together generated skipped m) d' report') :
    report = report' ∧ Agree R d d' := by
  generalize hw : Work.together generated skipped m = w at hserves
  induction hserves generalizing m b' with
  | ended => exact nomatch hw
  | @step b b₁ c d w w₁ report haside hadv hrest ih =>
    subst hw
    cases hserves' with
    | @step _ b₁' c' _ _ w₁' _ haside' hadv' hrest' =>
      have hkeeps := hb.trans haside.keeps
      have hkeeps' := hb'.trans haside'.keeps
      have hagree₁ : Agree R b₁ b₁' := haside.agree.symm.trans (hagree.trans haside'.agree)
      cases hadv with
      | aggregate hrun =>
        cases hadv' with
        | aggregate hrun' =>
          -- Both do one operation on trees that agree at its place, so both learn the same.
          have hleft := (Script.Confined.perform hm hkeeps hrun).2.1
          have hc := hkeeps.trans (Op.keeps_perform hrun)
          have hc' := hkeeps'.trans (Op.keeps_perform hrun')
          obtain ⟨hin, halike, -⟩ := hm
          obtain ⟨hanswers, hagree'⟩ := hin.alike hkeeps hkeeps' hagree₁ hrun hrun'
          rw [← halike _ _ hanswers] at hrest'
          exact ih hleft hc hc' hagree' hrest' rfl
      | close =>
        cases hadv' with
        | close =>
          cases hrest with
          | ended =>
            cases hrest' with
            | ended => exact ⟨rfl, hagree₁⟩
            | step _ hadv => cases hadv
          | step _ hadv => cases hadv

theorem file_of_outcome {o : Path → Bool} {job : Job} {file : Path}
    (h : (job.played s t target o).2.file? = some file) : file = job.file s target := by
  unfold Job.played at h
  split at h
  · next made text hrender =>
    obtain rfl : made = file := Option.some.inj h
    exact (Generator.render_eq_ok_iff.1 hrender).1
  · exact nomatch h

theorem className_of_outcome {o : Path → Bool} {job : Job} {k : Skipped}
    (h : (job.played s t target o).2.skipped? = some k) : k.className = job.scheduled.className := by
  unfold Job.played at h
  split at h
  · exact nomatch h
  · exact Option.some.inj h ▸ rfl

theorem exists_job_of_arrived {α : Type} {f : Outcome → Option α} {arrived : List Outcome}
    (harrived : arrived.Perm (outcomes s t target jobs a)) :
    ∀ x ∈ arrived.filterMap f, ∃ job ∈ jobs, f (job.played s t target a.isFile).2 = some x := by
  intro x hx
  obtain ⟨outcome, houtcome, hx⟩ := List.mem_filterMap.1 hx
  obtain ⟨job, hjob, rfl⟩ := List.mem_map.1 (harrived.mem_iff.1 houtcome)
  exact ⟨job, hjob, hx⟩

namespace Site

variable (h : Site s t target jobs a R)

include h

/-- The reports on jobs do not depend on the order in which the outcomes arrive. -/
theorem reports_eq {arrived arrived' : List Outcome}
    (harrived : arrived.Perm (outcomes s t target jobs a))
    (harrived' : arrived'.Perm (outcomes s t target jobs a)) :
    generatedOf arrived = generatedOf arrived' ∧ skippedOf arrived = skippedOf arrived' := by
  have hperm := harrived.trans harrived'.symm
  constructor
  · refine sortedPaths_eq_of_perm (hperm.filterMap _) fun p hp q hq heq => ?_
    obtain ⟨job, hjob, hp⟩ := exists_job_of_arrived harrived p hp
    obtain ⟨other, hother, hq⟩ := exists_job_of_arrived harrived q hq
    rw [file_of_outcome hp, file_of_outcome hq] at heq ⊢
    rw [h.eq_of_aim?_file hjob hother (FileTree.aim?_congr heq)]
  · refine sortedSkipped_eq_of_perm (hperm.filterMap _) fun j hj k hk heq => ?_
    obtain ⟨job, hjob, hj⟩ := exists_job_of_arrived harrived j hj
    obtain ⟨other, hother, hk⟩ := exists_job_of_arrived harrived k hk
    rw [className_of_outcome hj, className_of_outcome hk] at heq
    obtain rfl := List.inj_on_of_nodup_map h.distinct hjob hother heq
    exact Option.some.inj (hj.symm.trans hk)

/-- A target language ends in one way, whatever the order of its tasks and whatever others do elsewhere. -/
theorem serves_unique (hserves : Serves s target R a (start s t jobs target) d report)
    (hserves' : Serves s target R a (start s t jobs target) d' report') :
    report = report' ∧ Agree R d d' := by
  obtain ⟨b, arrived, harrived, hb, hover, hrest⟩ := h.serves_modules (.refl a) h.midway_start hserves
  obtain ⟨b', arrived', harrived', hb', hover', hrest'⟩ := h.serves_modules (.refl a) h.midway_start hserves'
  obtain ⟨hgenerated, hskipped⟩ := h.reports_eq harrived harrived'
  rw [← hgenerated, ← hskipped] at hrest'
  have hfiles : ∀ file ∈ generatedOf arrived, ∃ job ∈ jobs, file = job.file s target :=
    exists_job_of_generatedOf fun outcome ho file hfile => by
      obtain ⟨job, hjob, rfl⟩ := List.mem_map.1 (harrived.mem_iff.1 ho)
      exact ⟨job, hjob, file_of_outcome hfile⟩
  have hagree := hover.agree hover' hb hb'
  exact Serves.unique_of_together (h.confined_aggregate hfiles) hb hb' hagree hrest hrest'

end Site

variable {place : Target → Location} {reports reports' : List TargetReport}

theorem exists_report_of_ended {work : Target → Work} (h : served.map work = reports.map .ended) :
    ∀ target ∈ served, ∃ report, work target = .ended report := by
  intro target htarget
  have hmem : work target ∈ reports.map Work.ended := h ▸ List.mem_map_of_mem htarget
  obtain ⟨report, -, hreport⟩ := List.mem_map.1 hmem
  exact ⟨report, hreport.symm⟩

/-- Outside of the places stand only directories above them, besides what stood before. -/
theorem Ongoing.entry?_eq_of_agree {S S' : State} (h : Ongoing s jobs served place a S)
    (h' : Ongoing s jobs served place a S') (hagree : ∀ target ∈ served, Agree (place target) S.1 S'.1)
    {k : Location} (hk : ∀ target ∈ served, ¬ place target <+: k) :
    FileTree.entry? S.1 k = FileTree.entry? S'.1 k := by
  have hdir : ∀ {b b' : FileTree}, (∀ target ∈ served, Agree (place target) b b') →
      (∃ target ∈ served, k <+: place target ∧ b.entry? (place target) = some .dir) →
        b'.entry? k = some .dir := by
    rintro b b' hagree ⟨target, htarget, ⟨rest, hrest⟩, hroot⟩
    rw [(hagree target htarget).entry?_eq] at hroot
    have hne : rest ≠ [] := by
      rintro rfl
      exact hk target htarget (by simp [← hrest])
    exact (FileTree.dirs_above (by rw [hrest, hroot]; rfl)).1 hne
  rcases h.beyond k hk with hsame | ⟨hb, habove⟩
  · rcases h'.beyond k hk with hsame' | ⟨hb', habove⟩
    · exact hsame.trans hsame'.symm
    · exact (hdir (fun target htarget => (hagree target htarget).symm) habove).trans hb'.symm
  · exact hb.trans (hdir hagree habove).symm

/-- All orders of the operations end with one tree and one report. -/
theorem interleaves_unique (hsites : ∀ target ∈ served, Site s t target jobs a (place target))
    (hapart : Apart served place) (h : Interleaves s t jobs served a reports b)
    (h' : Interleaves s t jobs served a reports' b') : reports = reports' ∧ b = b' := by
  obtain ⟨work, hmoves, hends⟩ := h
  obtain ⟨work', hmoves', hends'⟩ := h'
  have hstart := ongoing_start hsites
  have hserved : ∀ target ∈ served, work target = work' target ∧ Agree (place target) b b' := by
    intro target htarget
    obtain ⟨report, hreport⟩ := exists_report_of_ended hends target htarget
    obtain ⟨report', hreport'⟩ := exists_report_of_ended hends' target htarget
    obtain ⟨d, hserves, hd⟩ := serves_of_moves hsites hapart htarget hstart hmoves hreport
    obtain ⟨d', hserves', hd'⟩ := serves_of_moves hsites hapart htarget hstart hmoves' hreport'
    obtain ⟨rfl, hagree⟩ := (hsites target htarget).serves_unique hserves hserves'
    exact ⟨hreport.trans hreport'.symm, hd.agree.symm.trans (hagree.trans hd'.agree)⟩
  constructor
  · refine List.map_injective_iff.2 (fun _ _ => Work.ended.inj) ?_
    rw [← hends, ← hends']
    exact List.map_congr_left fun target htarget => (hserved target htarget).1
  · refine FileTree.ext_of_entry ?_ fun k => ?_
    · exact (hstart.steps hsites hmoves).keeps.home.trans (hstart.steps hsites hmoves').keeps.home.symm
    by_cases hplace : ∃ target ∈ served, place target <+: k
    · obtain ⟨target, htarget, names, rfl⟩ := hplace
      exact (hserved target htarget).2 names
    · exact (hstart.steps hsites hmoves).entry?_eq_of_agree (hstart.steps hsites hmoves')
        (fun target htarget => (hserved target htarget).2)
        fun target htarget hle => hplace ⟨target, htarget, hle⟩

end Generation
end WrapperGen
