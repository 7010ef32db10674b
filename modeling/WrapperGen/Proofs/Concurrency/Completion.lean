import Mathlib.Data.Set.List
import Mathlib.Logic.Hydra
import WrapperGen.Proofs.Concurrency.Confluence

/-!
# Completion of runs

Every order of the operations goes on until all target languages are served or something can not be written,
and none goes on for ever. All that come to the end come to the same.
-/

namespace WrapperGen

open Relation (ReflTransGen)

variable {α : Type} {a b c : FileTree}

namespace Op

/-- Whether an operation makes directories or writes a file. -/
def writes : Op → Bool
  | ask _ | look => false
  | raise _ | put _ _ | create _ => true

theorem writes_of_error {op : Op} {e : Error} (h : op.perform.run b = (.error e, c)) :
    op.writes = true := by
  cases op with
  | ask p => cases (Prod.mk.inj h).1
  | look => cases (Prod.mk.inj h).1
  | raise p | put p text | create p => rfl

end Op

namespace Script

/-- A script comes next to an operation that writes, and that fails. -/
def Blocked (b : FileTree) : Script α → Prop
  | step op _ => op.writes = true ∧ ∃ e c, op.perform.run b = (.error e, c)
  | _ => False

/-- A script that does not fail by itself has ended, can go on or can not write. -/
theorem Tells.cases {L : Op → Prop} {P : α → (Path → Prop) → Prop} {W : Path → Prop} {m : Script α}
    (h : m.Tells L (fun _ _ => False) P W) (b : FileTree) : (∃ x, m = .done x) ∨ m.Blocked b ∨
      ∃ op next answer c, m = .step op next ∧ op.perform.run b = (.ok answer, c) := by
  cases m with
  | done x => exact .inl ⟨x, rfl⟩
  | fail e => exact h.elim
  | step op next =>
    rcases hrun : op.perform.run b with ⟨e | answer, c⟩
    · exact .inr (.inl ⟨Op.writes_of_error hrun, e, c, hrun⟩)
    · exact .inr (.inr ⟨op, next, answer, c, rfl, hrun⟩)

/-- What is left of a script after an operation. -/
inductive Rest : Script α → Script α → Prop where
  | step {op : Op} (next : op.Answer → Script α) (answer : op.Answer) : Rest (next answer) (.step op next)

theorem rest_wf : WellFounded (Rest (α := α)) := by
  refine ⟨fun m => ?_⟩
  induction m with
  | done x => exact ⟨_, fun _ h => nomatch h⟩
  | fail e => exact ⟨_, fun _ h => nomatch h⟩
  | step op next ih => exact ⟨_, fun _ h => match h with | .step _ answer => ih answer⟩

end Script

namespace Generation

variable {s : Settings} {t : ClassTable} {target : Target} {jobs : List Job} {served : List Target}
  {w w' : Work} {report : TargetReport} {reports : List TargetReport}

namespace Work

/-- What a target language comes to write next can not be written. -/
def Blocked (b : FileTree) : Work → Prop
  | modules tasks => ∃ m ∈ tasks, m.Blocked b
  | together _ _ rest => rest.Blocked b
  | ended _ => False

end Work

/-- A target language can go on unless it has ended or can not write. -/
theorem Work.Tells.advances {W : Path → Prop}
    (h : w.Tells s t served jobs (fun _ => False) target W) (b : FileTree) :
    (∃ c w', Advances s target b w c w') ∨ w.Blocked b ∨ ∃ report, w = .ended report := by
  cases w with
  | modules tasks =>
    obtain ⟨todo, -, rfl, -, htold⟩ := h
    by_cases hdone : todo.map (·.2.1) ∈ Set.range (List.map Script.done)
    · obtain ⟨outcomes, houtcomes⟩ := hdone
      rw [← houtcomes]
      exact .inl ⟨_, _, .join (.refl outcomes)⟩
    · rw [Set.range_list_map] at hdone
      obtain ⟨m, hm, hopen⟩ := not_forall₂.1 hdone
      obtain ⟨x, hx, rfl⟩ := List.mem_map.1 hm
      rcases (htold x hx).cases b with ⟨outcome, hend⟩ | hblocked | ⟨op, next, answer, c, hstep, hrun⟩
      · exact absurd ⟨outcome, hend.symm⟩ hopen
      · exact .inr (.inl ⟨_, hm, hblocked⟩)
      · obtain ⟨before, after, htasks⟩ := List.append_of_mem hm
        rw [htasks, hstep]
        exact .inl ⟨_, _, .task hrun⟩
  | together generated skipped m =>
    rcases h.2.cases b with ⟨x, rfl⟩ | hblocked | ⟨op, next, answer, c, rfl, hrun⟩
    · exact .inl ⟨_, _, .close⟩
    · exact .inr (.inl hblocked)
    · exact .inl ⟨_, _, .aggregate hrun⟩
  | ended report => exact .inr (.inr ⟨report, rfl⟩)

/-- A run that can not go on has ended or can not write. -/
theorem exists_moves_or_ended
    (hjobs : ∀ target ∈ served, ∀ job ∈ jobs, t.resolve job.scheduled.className = .ok job.resolved)
    {S : State} (h : ReflTransGen (Moves s served) (a, start s t jobs) S) :
    (∃ S', Moves s served S S') ∨ (∃ target ∈ served, (S.2 target).Blocked S.1) ∨
      ∃ reports, Interleaves s t jobs served a reports S.1 := by
  by_cases hmove : ∃ S', Moves s served S S'
  · exact .inl hmove
  by_cases hblocked : ∃ target ∈ served, (S.2 target).Blocked S.1
  · exact .inr (.inl hblocked)
  have hend : ∀ target ∈ served, ∃ report, .ended report = S.2 target := by
    intro target htarget
    obtain ⟨W, htold⟩ := (told_start (hjobs target htarget) (fun _ => False) a).steps h
    rcases (htold.works target htarget).advances S.1 with ⟨c, w, hadv⟩ | hstuck | ⟨report, hreport⟩
    · exact absurd ⟨_, Moves.step htarget hadv⟩ hmove
    · exact absurd ⟨target, htarget, hstuck⟩ hblocked
    · exact ⟨report, hreport.symm⟩
  obtain ⟨reports, hreports⟩ : served.map S.2 ∈ Set.range (List.map Work.ended) := by
    rw [Set.range_list_map]
    intro w hw
    obtain ⟨target, htarget, rfl⟩ := List.mem_map.1 hw
    exact hend target htarget
  exact .inr (.inr ⟨reports, S.2, h, hreports.symm⟩)

/-- A step of a target language, whatever the tree. -/
def Lower (s : Settings) (target : Target) (w' w : Work) : Prop := ∃ b c, Advances s target b w c w'

theorem acc_together (generated : List Path) (skipped : List Skipped) (m : Script (List Path)) :
    Acc (Lower s target) (.together generated skipped m) := by
  induction m with
  | done x =>
    refine ⟨_, fun w h => ?_⟩
    obtain ⟨b, c, h⟩ := h
    cases h with
    | close => exact ⟨_, fun w h => nomatch h⟩
  | fail e => exact ⟨_, fun w h => nomatch h⟩
  | step op next ih =>
    refine ⟨_, fun w h => ?_⟩
    obtain ⟨b, c, h⟩ := h
    cases h with
    | aggregate => exact ih _

theorem lower_wf (s : Settings) (target : Target) : WellFounded (Lower s target) := by
  have hmodules : ∀ (left : Multiset (Script Outcome)) (tasks : List (Script Outcome)), ↑tasks = left →
      Acc (Lower s target) (.modules tasks) := by
    intro left
    induction left using Script.rest_wf.cutExpand.induction with
    | _ left ih =>
      rintro tasks rfl
      refine ⟨_, fun w h => ?_⟩
      obtain ⟨b, c, h⟩ := h
      cases h with
      | @task _ before after op next answer hrun =>
        have hmiddle : ∀ m, (↑(before ++ m :: after) : Multiset (Script Outcome)) =
            ↑(before ++ after) + {m} := by
          intro m
          rw [← Multiset.coe_singleton, Multiset.coe_add, Multiset.coe_eq_coe]
          exact List.perm_middle.trans (List.perm_append_singleton m _).symm
        -- Of the tasks, one is replaced by what is left of it.
        refine ih _ ?_ _ rfl
        rw [hmiddle, hmiddle]
        exact Relation.cutExpand_add_single _ (.step next answer)
      | join => exact acc_together _ _ _
  refine ⟨fun w => ?_⟩
  cases w with
  | modules tasks => exact hmodules _ tasks rfl
  | together generated skipped m => exact acc_together generated skipped m
  | ended report => exact ⟨_, fun w h => nomatch h⟩

/-- No run goes on for ever. -/
theorem moves_wf (s : Settings) (served : List Target) : WellFounded fun S' S => Moves s served S S' := by
  have hpair := (lower_wf s .javascript).prod_gameAdd (lower_wf s .python)
  refine Subrelation.wf ?_ (InvImage.wf (fun S : State => (S.2 .javascript, S.2 .python)) hpair)
  rintro S' S h
  obtain @⟨b, c, work, target, w, -, hadv⟩ := h
  cases target with
  | javascript => exact .fst ⟨b, c, hadv⟩
  | python => exact .snd ⟨b, c, hadv⟩

variable {place : Target → Location}

/-- Where the target languages have places of their own that are known from the beginning, the order of the
operations does not show: all orders in which none fails end with one tree and one report, those of `serve`.
No order goes on for ever, and one that can not go on has ended or can not write. -/
theorem interleavings_agree (hsites : ∀ target ∈ served, Site s t target jobs a (place target))
    (hapart : Apart served place) (hserved : served.Nodup) :
    (∀ reports reports' b b', Interleaves s t jobs served a reports b →
      Interleaves s t jobs served a reports' b' → reports = reports' ∧ b = b') ∧
    (∀ reports b, (serve s t served jobs).run a = (.ok reports, b) →
      Interleaves s t jobs served a reports b) ∧
    WellFounded (fun S' S => Moves s served S S') ∧
    ∀ S, ReflTransGen (Moves s served) (a, start s t jobs) S → (∃ S', Moves s served S S') ∨
      (∃ target ∈ served, (S.2 target).Blocked S.1) ∨ ∃ reports, Interleaves s t jobs served a reports S.1 :=
  ⟨fun _ _ _ _ => interleaves_unique hsites hapart, fun _ _ => interleaves_of_serve hserved,
    moves_wf s served, fun _ => exists_moves_or_ended fun target htarget => (hsites target htarget).resolved⟩

theorem interleavings_agree_ring : ∃ reports,
    (∀ target ∈ Target.all, Site {} loneTable target [loneJob] handwritten (outputPlace target)) ∧
      Apart Target.all outputPlace ∧ Target.all.Nodup ∧
      Interleaves {} loneTable [loneJob] Target.all handwritten reports packageTree ∧
      ∀ reports' b, Interleaves {} loneTable [loneJob] Target.all handwritten reports' b →
        reports' = reports ∧ b = packageTree := by
  have hsites : ∀ target ∈ Target.all, Site {} loneTable target [loneJob] handwritten (outputPlace target) :=
    fun target _ => site_lone target
  have hapart : Apart Target.all outputPlace := by unfold Apart; decide
  have hserved : Target.all.Nodup := by decide
  obtain ⟨reports, hreports⟩ := serve_lone
  obtain ⟨hunique, hsequential, -, -⟩ := interleavings_agree hsites hapart hserved
  have hends := hsequential reports packageTree hreports
  exact ⟨reports, hsites, hapart, hserved, hends, fun reports' b h => hunique reports' reports b _ h hends⟩

end Generation
end WrapperGen
