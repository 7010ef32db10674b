import WrapperGen.Proofs.Concurrency.Orders
import WrapperGen.Proofs.Concurrency.Sites

/-!
# Interleavings

Where the target languages have places of their own, what one of them sees of the tree no other one changes.
So whatever the order of a run is, each of them works as if the others worked elsewhere.
-/

namespace WrapperGen.Generation

open FileTree (Keeps Agree Aside Spares)
open Relation (ReflTransGen)

/-- What a target language does from a tree to the end while others work elsewhere. -/
inductive Serves (s : Settings) (target : Target) (R : Location) :
    FileTree → Work → FileTree → TargetReport → Prop
  | ended {b : FileTree} {report : TargetReport} : Serves s target R b (.ended report) b report
  | step {b b' c d : FileTree} {w w' : Work} {report : TargetReport} (aside : Aside R b b')
      (advances : Advances s target b' w c w') (rest : Serves s target R c w' d report) :
      Serves s target R b w d report

/-- Work that is done at a place of the tree only. -/
def Work.Confined (s : Settings) (target : Target) (jobs : List Job) (a : FileTree) (R : Location) :
    Work → Prop
  | modules tasks => ∀ m ∈ tasks, m.Confined a R fun outcome =>
      ∀ file, outcome.file? = some file → ∃ job ∈ jobs, file = job.file s target
  | together _ _ rest => rest.Confined a R fun _ => True
  | ended _ => True

variable {s : Settings} {t : ClassTable} {target : Target} {jobs : List Job} {served : List Target}
  {a b c d : FileTree} {R : Location} {w w' : Work} {report : TargetReport}

theorem Site.confined_start (h : Site s t target jobs a R) :
    (start s t jobs target).Confined s target jobs a R := by
  intro m hm
  obtain ⟨job, hjob, rfl⟩ := List.mem_map.1 hm
  exact h.confined_generate hjob

theorem exists_job_of_generatedOf {outcomes : List Outcome}
    (h : ∀ outcome ∈ outcomes, ∀ file, outcome.file? = some file → ∃ job ∈ jobs, file = job.file s target) :
    ∀ file ∈ generatedOf outcomes, ∃ job ∈ jobs, file = job.file s target := by
  intro file hfile
  rw [generatedOf, sortedPaths, List.mem_mergeSort] at hfile
  obtain ⟨outcome, houtcome, hfile⟩ := List.mem_filterMap.1 hfile
  exact h outcome houtcome file hfile

/-- What holds of all tasks holds of them when one goes on, if it holds of what is left of that one. -/
theorem forall_mem_replace {α : Type} {P : α → Prop} {before after : List α} {x y : α}
    (h : ∀ m ∈ before ++ x :: after, P m) (hy : P x → P y) : ∀ m ∈ before ++ y :: after, P m := by
  rw [List.forall_mem_append, List.forall_mem_cons] at h ⊢
  exact ⟨h.1, hy h.2.1, h.2.2⟩

/-- A step of a target language stays at its place. -/
theorem Advances.confined (h : Site s t target jobs a R) (hb : Keeps a b)
    (hw : w.Confined s target jobs a R) (hstep : Advances s target b w c w') :
    Keeps b c ∧ w'.Confined s target jobs a R ∧ Spares R b c := by
  cases hstep with
  | @task _ before after op next answer hrun =>
    have hmem : Script.step op next ∈ before ++ .step op next :: after := by simp
    obtain ⟨hkeeps, hnext, hspares⟩ := (hw _ hmem).perform hb hrun
    exact ⟨hkeeps, forall_mem_replace hw fun _ => hnext, hspares⟩
  | @join outcomes arrived harrive =>
    have hfiles : ∀ file ∈ generatedOf arrived, ∃ job ∈ jobs, file = job.file s target :=
      exists_job_of_generatedOf fun outcome ho =>
        hw (.done outcome) (List.mem_map_of_mem (harrive.mem_iff.1 ho))
    exact ⟨.refl _, h.confined_aggregate hfiles, fun k _ => .inl rfl⟩
  | aggregate hrun => exact Script.Confined.perform hw hb hrun
  | close => exact ⟨.refl _, trivial, fun k _ => .inl rfl⟩

variable {place : Target → Location}

/-- The output trees of different target languages lie apart. -/
def Apart (served : List Target) (place : Target → Location) : Prop :=
  ∀ x ∈ served, ∀ y ∈ served, x ≠ y → ¬ place x <+: place y

/-- What stays true of a run: every target language works at its place, and elsewhere only directories
above the places are made. -/
structure Ongoing (s : Settings) (jobs : List Job) (served : List Target) (place : Target → Location)
    (a : FileTree) (state : State) : Prop where
  keeps : Keeps a state.1
  confined : ∀ target ∈ served, (state.2 target).Confined s target jobs a (place target)
  beyond : ∀ k, (∀ target ∈ served, ¬ place target <+: k) → FileTree.entry? state.1 k = a.entry? k ∨
    FileTree.entry? state.1 k = some .dir ∧
      ∃ target ∈ served, k <+: place target ∧ FileTree.entry? state.1 (place target) = some .dir

theorem ongoing_start (h : ∀ target ∈ served, Site s t target jobs a (place target)) :
    Ongoing s jobs served place a (a, start s t jobs) :=
  ⟨.refl a, fun target htarget => (h target htarget).confined_start, fun _ _ => .inl rfl⟩

theorem Ongoing.step (h : ∀ target ∈ served, Site s t target jobs a (place target)) {S S' : State}
    (hS : Ongoing s jobs served place a S) (hmove : Moves s served S S') :
    Ongoing s jobs served place a S' := by
  obtain @⟨b, c, work, target, w, htarget, hadv⟩ := hmove
  obtain ⟨hkeeps, hconfined, hspares⟩ :=
    hadv.confined (h target htarget) hS.keeps (hS.confined target htarget)
  refine ⟨hS.keeps.trans hkeeps, fun other hother => ?_, fun k hk => ?_⟩
  · by_cases heq : other = target
    · subst heq
      simpa using hconfined
    · simpa [heq] using hS.confined other hother
  · rcases hspares k (hk target htarget) with hsame | ⟨hdir, hle, hroot⟩
    · rcases hS.beyond k hk with hold | ⟨hdir, other, hother, hle, hroot⟩
      · exact .inl (hsame.trans hold)
      · exact .inr ⟨hsame.trans hdir, other, hother, hle, hkeeps.dirs _ hroot⟩
    · exact .inr ⟨hdir, target, htarget, hle, hroot⟩

theorem Ongoing.steps (h : ∀ target ∈ served, Site s t target jobs a (place target)) {S S' : State}
    (hS : Ongoing s jobs served place a S) (hmoves : ReflTransGen (Moves s served) S S') :
    Ongoing s jobs served place a S' := by
  induction hmoves with
  | refl => exact hS
  | tail _ hmove ih => exact ih.step h hmove

theorem Serves.of_aside (haside : Aside R b c) (hserves : Serves s target R c w d report) :
    ∃ d', Serves s target R b w d' report ∧ Aside R d' d := by
  cases hserves with
  | ended => exact ⟨b, .ended, haside⟩
  | step hothers hadv hrest => exact ⟨d, .step (haside.trans hothers) hadv hrest, .refl R d⟩

/-- Seen from one target language, a run is its own work while others work elsewhere. -/
theorem serves_of_moves (h : ∀ target ∈ served, Site s t target jobs a (place target))
    (hapart : Apart served place) (htarget : target ∈ served) {S S' : State}
    (hS : Ongoing s jobs served place a S) (hmoves : ReflTransGen (Moves s served) S S')
    (hend : S'.2 target = .ended report) :
    ∃ d, Serves s target (place target) S.1 (S.2 target) d report ∧ Aside (place target) d S'.1 := by
  induction hmoves using Relation.ReflTransGen.head_induction_on with
  | refl => exact ⟨S'.1, hend ▸ .ended, .refl _ _⟩
  | @head S T hmove _ ih =>
    obtain ⟨d, hserves, haside⟩ := ih (hS.step h hmove)
    obtain @⟨b, c, work, other, w, hother, hadv⟩ := hmove
    dsimp only at hserves ⊢
    by_cases heq : other = target
    · subst heq
      rw [Function.update_self] at hserves
      exact ⟨d, .step (.refl _ b) hadv hserves, haside⟩
    · rw [Function.update_of_ne (Ne.symm heq)] at hserves
      obtain ⟨hkeeps, -, hspares⟩ := hadv.confined (h other hother) hS.keeps (hS.confined other hother)
      -- What the other one puts lies at its own place or above it, hence not here.
      have hsame : Agree (place target) b c := by
        have hnot := hapart target htarget other hother (Ne.symm heq)
        intro names
        have hhere : ¬ place other <+: place target ++ names := fun hle =>
          (List.prefix_or_prefix_of_prefix hle (List.prefix_append _ names)).elim
            (hapart other hother target htarget heq) hnot
        rcases hspares _ hhere with hkept | ⟨-, hle, -⟩
        · exact hkept.symm
        · exact absurd ((List.prefix_append _ names).trans hle) hnot
      obtain ⟨d', hserves', haside'⟩ := hserves.of_aside ⟨hkeeps, hsame⟩
      exact ⟨d', hserves', haside'.trans haside⟩

end WrapperGen.Generation
