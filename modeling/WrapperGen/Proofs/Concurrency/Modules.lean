import WrapperGen.Proofs.Concurrency.Interleaving
import WrapperGen.Proofs.Wrapper.Refusals

/-!
# Modules in any order

While the modules of a target language are written, the overrides that are asked for stay as they were, so
every task ends as it would alone. When all are done, each module stands in its place, with the directories
above it, and all else is as it was: the order of the tasks does not show.
-/

namespace WrapperGen

open FileTree (Keeps Agree Aside)

namespace Script

variable {α β : Type} {o : Path → Bool} {A B : Path → Prop} {P : α → Prop}

/-- `Plays o A m ws x`: with answers from `o` about paths of `A`, the script `m` writes the files `ws`, each
after the directories above it, and ends with `x`. -/
inductive Plays (o : Path → Bool) (A : Path → Prop) : Script α → List (Path × String) → α → Prop
  | done (x : α) : Plays o A (.done x) [] x
  | ask {p : Path} {next : Bool → Script α} {ws : List (Path × String)} {x : α} (asked : A p)
      (rest : Plays o A (next (o p)) ws x) : Plays o A (.step (.ask p) next) ws x
  | raise {p : Path} {next : Unit → Script α} {ws : List (Path × String)} {x : α}
      (written : p ∈ ws.map (·.1)) (rest : Plays o A (next ()) ws x) :
      Plays o A (.step (.raise p) next) ws x
  | put {p : Path} {text : String} {next : Unit → Script α} {ws : List (Path × String)} {x : α}
      (rest : Plays o A (next ()) ws x) : Plays o A (.step (.put p text) next) ((p, text) :: ws) x

theorem Plays.bind {m : Script α} {f : α → Script β} {ws ws' : List (Path × String)} {x : α} {y : β}
    (hm : Plays o A m ws x) (hf : Plays o A (f x) ws' y) : Plays o A (m >>= f) (ws ++ ws') y := by
  show Plays o A (m.bind f) _ y
  induction hm with
  | done x => exact hf
  | ask asked _ ih => exact .ask asked (ih hf)
  | raise written _ ih => exact .raise (by simpa using Or.inl (by simpa using written)) (ih hf)
  | put _ ih => exact .put (ih hf)

theorem plays_attempt {m : Script α} (h : m.OnlyAsks A P) (sub : ∀ p, A p → B p) :
    Plays o B m.attempt [] (m.answered o) := by
  induction m with
  | done x => exact .done _
  | fail e => exact .done _
  | step op next ih =>
    cases op with
    | ask p => exact .ask (sub p h.1) (ih _ (h.2 _))
    | _ => exact h.elim

theorem plays_write (p : Path) (text : String) : Plays o A (write p text) [(p, text)] () :=
  .raise (by simp) (.put (.done ()))

end Script

/-- What a job comes to when it is answered about overrides: what it writes, and its outcome. -/
def Job.played (s : Settings) (t : ClassTable) (target : Target) (o : Path → Bool) (job : Job) :
    List (Path × String) × Generation.Outcome :=
  match (⟨s, t, target, o⟩ : Generator).render job.resolved with
  | .ok (file, text) => ([(file, text)], .generated file)
  | .error e => ([], .skipped ⟨job.scheduled.className, job.scheduled.unitPath, e⟩)

namespace Generation

variable {s : Settings} {t : ClassTable} {target : Target} {jobs : List Job} {a b c d : FileTree}
  {R : Location} {o : Path → Bool} {A : Path → Prop}

theorem plays_generate {job : Job} (h : t.resolve job.scheduled.className = .ok job.resolved)
    (hA : ∀ p, (⟨s, t, target, fun _ => false⟩ : Generator).Consults job.resolved p → A p) :
    Script.Plays o A (Script.generate s t target job) (job.played s t target o).1
      (job.played s t target o).2 := by
  have hasks := Script.plays_attempt (o := o)
    (Script.onlyAsks_render ⟨s, t, target, fun _ => false⟩ job.resolved) hA
  rw [Script.answered_render] at hasks
  unfold Job.played
  cases hrender : (⟨s, t, target, o⟩ : Generator).render job.resolved with
  | ok out =>
    rw [hrender] at hasks
    exact hasks.bind ((Script.plays_write out.1 out.2).bind (.done _))
  | error e =>
    rw [hrender] at hasks
    refine hasks.bind ?_
    dsimp only
    rw [if_pos (Generator.render_eq_error h hrender).1.isClassScoped]
    exact .done _

/-- `Overlaid a R all done b`: the files `done` stand in `b`, and the paths lead to them. Below the location `R`
all else but the places of the files `all` is as in `a`, or a directory above one of these places. -/
structure Overlaid (a : FileTree) (R : Location) (all done : List (Path × String)) (b : FileTree) :
    Prop where
  written : ∀ w ∈ done, b.Holds w.1 w.2
  other : ∀ names, (∀ w ∈ all, a.aim? w.1 ≠ some (R ++ names)) →
    b.entry? (R ++ names) = a.entry? (R ++ names) ∨
      b.entry? (R ++ names) = some .dir ∧ ∃ w ∈ all, ∃ l, a.aim? w.1 = some l ∧ R ++ names <+: l

namespace Overlaid

variable {all done : List (Path × String)} {p : Path}

theorem start (a : FileTree) (R : Location) (all : List (Path × String)) : Overlaid a R all [] a :=
  ⟨nofun, fun _ _ => .inl rfl⟩

/-- Whether a file stands in a place where no module is written stays as it was. -/
theorem isFile_eq (h : Overlaid a R all done b) (hkeeps : Keeps a b) {names : List String}
    (haim : a.aim? p = some (R ++ names)) (hfree : ∀ w ∈ all, a.aim? w.1 ≠ some (R ++ names)) :
    b.isFile p = a.isFile p := by
  refine FileTree.isFile_eq_of_aim haim hkeeps (.refl a) ⟨fun hb => ?_, hkeeps.files _⟩
  rcases h.other names hfree with hsame | ⟨hdir, -⟩
  · rwa [← FileTree.file?_congr hsame]
  · simp [FileTree.file?, hdir] at hb

/-- Where all modules are written it is known what stands. -/
theorem agree (hb : Overlaid a R all all b) (hc : Overlaid a R all all c) (hkeeps : Keeps a b)
    (hkeeps' : Keeps a c) : Agree R b c := by
  intro names
  by_cases hplace : ∃ w ∈ all, a.aim? w.1 = some (R ++ names)
  · obtain ⟨w, hw, haim⟩ := hplace
    rw [(hb.written w hw).entry?_eq hkeeps.home haim, (hc.written w hw).entry?_eq hkeeps'.home haim]
  · have hfree : ∀ w ∈ all, a.aim? w.1 ≠ some (R ++ names) := fun w hw haim => hplace ⟨w, hw, haim⟩
    have hdir : ∀ t : FileTree, Overlaid a R all all t → Keeps a t → (∃ w ∈ all, ∃ l,
        a.aim? w.1 = some l ∧ R ++ names <+: l) → t.entry? (R ++ names) = some .dir := by
      rintro t ht hkeeps ⟨w, hw, l, haim, rest, rfl⟩
      obtain rfl | hrest := eq_or_ne rest []
      · exact absurd (by simpa using haim) (hfree w hw)
      have hfile := (ht.written w hw).entry?_eq hkeeps.home haim
      exact (FileTree.dirs_above (by rw [hfile]; rfl)).1 hrest
    rcases hb.other names hfree with hsame | ⟨hb', habove⟩
    · rcases hc.other names hfree with hsame' | ⟨hc', habove⟩
      · rw [hsame, hsame']
      · rw [hc', hdir b hb hkeeps habove]
    · rw [hb', hdir c hc hkeeps' habove]

variable (hall : ∀ w ∈ all, ∃ names n, a.Aims w.1 (R ++ names) n)

include hall

theorem of_aside (h : Overlaid a R all done b) (hkeeps : Keeps a b) (hdone : ∀ w ∈ done, w ∈ all)
    (haside : Aside R b c) : Overlaid a R all done c := by
  refine ⟨fun w hw => ?_, fun names hfree => haside.agree names ▸ h.other names hfree⟩
  obtain ⟨names, n, -, haim, -⟩ := hall w (hdone w hw)
  refine (h.written w hw).of_keeps haside.keeps fun l hl => ?_
  rw [FileTree.eq_of_locate hkeeps.home haim hl, List.append_assoc]
  exact FileTree.file?_congr (haside.agree _).symm

theorem raise (h : Overlaid a R all done b) (hkeeps : Keeps a b) (hp : p ∈ all.map (·.1)) {u : Unit}
    (hrun : (Op.raise p).perform.run b = (.ok u, c)) : Overlaid a R all done c := by
  obtain ⟨w, hw, rfl⟩ := List.mem_map.1 hp
  obtain ⟨names, n, haims⟩ := hall w hw
  have hin : (Op.raise w.1).Inside a R := ⟨names, n, haims⟩
  have hentry := Op.entry?_perform hin hkeeps hrun
  have hmade : ∀ k e, (Op.raise w.1).made a u k = some e →
      e = .dir ∧ ∃ l, a.aim? w.1 = some l ∧ k <+: l := by
    intro k e hk
    rw [Op.made, haims.2.1, Option.bind_some] at hk
    split at hk
    · next hle => exact ⟨(Option.some.inj hk).symm, _, haims.2.1, hle.trans (List.dropLast_prefix _)⟩
    · cases hk
  refine ⟨fun w' hw' => ?_, fun names hfree => ?_⟩
  · refine (h.written w' hw').of_keeps (Op.keeps_perform hrun) fun l _ => ?_
    exact (FileTree.grows_of_run_ensureParent hrun).file?_eq
  · rw [hentry]
    cases hk : (Op.raise w.1).made a u (R ++ names) with
    | none => exact h.other names hfree
    | some e =>
      obtain ⟨rfl, hl⟩ := hmade _ e hk
      exact .inr ⟨rfl, w, hw, hl⟩

theorem put (h : Overlaid a R all done b) (hkeeps : Keeps a b) {w : Path × String} (hw : w ∈ all)
    (hdone : ∀ w' ∈ done, w' ∈ all) (hnew : ∀ w' ∈ done, a.aim? w'.1 ≠ a.aim? w.1) {u : Unit}
    (hrun : (Op.put w.1 w.2).perform.run b = (.ok u, c)) : Overlaid a R all (done ++ [w]) c := by
  obtain ⟨names, n, haims⟩ := hall w hw
  have hin : (Op.put w.1 w.2).Inside a R := ⟨names, n, haims⟩
  have hentry := Op.entry?_perform hin hkeeps hrun
  refine ⟨fun w' hw' => ?_, fun names hfree => ?_⟩
  · rcases List.mem_append.1 hw' with hold | hlast
    · refine (h.written w' hold).of_keeps (Op.keeps_perform hrun) fun l hl => FileTree.file?_congr ?_
      obtain ⟨names', n', -, haim', -⟩ := hall w' (hdone w' hold)
      rw [hentry, Op.made, if_neg fun heq => hnew w' hold ?_]
      · rfl
      · rw [heq, haim', FileTree.eq_of_locate hkeeps.home haim' hl]
    · rw [List.mem_singleton.1 hlast]
      exact FileTree.holds_of_write (Op.run_put_eq_ok_iff.1 hrun)
  · rw [hentry, Op.made, if_neg (hfree w hw)]
    exact h.other names hfree

end Overlaid

/-- All that the jobs of a target language write. -/
def written (s : Settings) (t : ClassTable) (target : Target) (jobs : List Job) (a : FileTree) :
    List (Path × String) := jobs.flatMap fun job => (job.played s t target a.isFile).1

/-- What becomes of the jobs of a target language. -/
def outcomes (s : Settings) (t : ClassTable) (target : Target) (jobs : List Job) (a : FileTree) :
    List Outcome := jobs.map fun job => (job.played s t target a.isFile).2

theorem file_of_played {job : Job} {w : Path × String} (h : w ∈ (job.played s t target o).1) :
    w.1 = job.file s target := by
  unfold Job.played at h
  split at h
  · next file text hrender =>
    rw [List.mem_singleton.1 h]
    exact (Generator.render_eq_ok_iff.1 hrender).1
  · exact nomatch h

namespace Site

variable (h : Site s t target jobs a R)

include h

theorem aims_written : ∀ w ∈ written s t target jobs a, ∃ names n, a.Aims w.1 (R ++ names) n := by
  intro w hw
  obtain ⟨job, hjob, hw⟩ := List.mem_flatMap.1 hw
  exact ⟨_, _, file_of_played hw ▸ h.aims_file hjob⟩

/-- No two modules have one place. -/
theorem nodup_written : ((written s t target jobs a).map fun w => a.aim? w.1).Nodup := by
  have hplayed : ∀ job : Job, (job.played s t target a.isFile).1.length ≤ 1 := by
    intro job
    unfold Job.played
    split <;> simp
  have hnodup := h.distinct.of_map
  rw [written, List.map_flatMap, List.nodup_flatMap]
  refine ⟨fun job _ => ?_, ?_⟩
  · match hw : (job.played s t target a.isFile).1, hplayed job with
    | [], _ => exact List.nodup_nil
    | [w], _ => exact List.nodup_singleton _
  · refine hnodup.imp_of_mem fun hjob hother hne => ?_
    refine List.disjoint_left.2 fun l hl hl' => hne ?_
    obtain ⟨w, hw, rfl⟩ := List.mem_map.1 hl
    obtain ⟨w', hw', heq⟩ := List.mem_map.1 hl'
    rw [file_of_played hw, file_of_played hw'] at heq
    exact h.eq_of_aim?_file hjob hother heq.symm

/-- Where an override is asked for no module is written. -/
theorem ne_of_consults {job : Job} (hjob : job ∈ jobs) {p : Path}
    (hp : (⟨s, t, target, fun _ => false⟩ : Generator).Consults job.resolved p) :
    ∃ names, a.aim? p = some (R ++ names) ∧
      ∀ w ∈ written s t target jobs a, a.aim? w.1 ≠ some (R ++ names) := by
  obtain ⟨names, hnames⟩ := h.below job hjob p hp
  refine ⟨names, FileTree.aim?_of_components h.root hnames, fun w hw haim => ?_⟩
  obtain ⟨other, hother, hw⟩ := List.mem_flatMap.1 hw
  have hfile := h.components_file hother
  have hsame := h.unasked job hjob p hp other hother
  rw [file_of_played hw, FileTree.aim?_of_components h.root hfile, Option.some.injEq,
    List.append_cancel_left_eq] at haim
  rw [Path.same, hnames, ← haim, hfile] at hsame
  simp at hsame

theorem aim?_ne_of_perm {done rest : List (Path × String)}
    (hperm : (done ++ rest).Perm (written s t target jobs a)) {w w' : Path × String} (hw : w ∈ done)
    (hw' : w' ∈ rest) : a.aim? w.1 ≠ a.aim? w'.1 := by
  have hfirst : a.aim? w.1 ∈ done.map fun w => a.aim? w.1 := List.mem_map_of_mem hw
  have hlast : a.aim? w'.1 ∈ rest.map fun w => a.aim? w.1 := List.mem_map_of_mem hw'
  have hnodup : ((done ++ rest).map fun w => a.aim? w.1).Nodup :=
    (hperm.map _).nodup_iff.2 h.nodup_written
  rw [List.map_append, List.nodup_append] at hnodup
  exact hnodup.2.2 _ hfirst _ hlast

end Site

/-- The task of a class, with what it still has to write and its outcome. -/
abbrev Pending := Script Outcome × List (Path × String) × Outcome

/-- A task that will go as if the overrides stood as they did at first. -/
def Steady (s : Settings) (t : ClassTable) (target : Target) (jobs : List Job) (a : FileTree)
    (y : Pending) : Prop :=
  Script.Plays a.isFile (fun p => ∃ job ∈ jobs,
    (⟨s, t, target, fun _ => false⟩ : Generator).Consults job.resolved p) y.1 y.2.1 y.2.2

/-- Where the tasks of a target language are on their way: what is written and what they still have to
write is all there is to write, and they will have their outcomes. -/
def Midway (s : Settings) (t : ClassTable) (target : Target) (jobs : List Job) (a : FileTree)
    (R : Location) (tasks : List (Script Outcome)) (b : FileTree) : Prop :=
  ∃ (done : List (Path × String)) (todo : List Pending), tasks = todo.map (·.1) ∧
    (∀ y ∈ todo, Steady s t target jobs a y) ∧ todo.map (·.2.2) = outcomes s t target jobs a ∧
    (done ++ todo.flatMap (·.2.1)).Perm (written s t target jobs a) ∧
    Overlaid a R (written s t target jobs a) done b

/-- When all tasks are done, they have their outcomes and all is written. -/
theorem Midway.eq_outcomes {results : List Outcome}
    (hmid : Midway s t target jobs a R (results.map .done) b) :
    results = outcomes s t target jobs a ∧
      Overlaid a R (written s t target jobs a) (written s t target jobs a) b := by
  obtain ⟨done, todo, htasks, hsteady, houtcomes, hperm, hover⟩ := hmid
  have hended : ∀ y ∈ todo, y.1 = .done y.2.2 ∧ y.2.1 = [] := by
    rintro ⟨m, ws, outcome⟩ hy
    have hm : m ∈ results.map Script.done := htasks ▸ List.mem_map_of_mem hy
    obtain ⟨x, -, rfl⟩ := List.mem_map.1 hm
    have hdone : Script.Plays a.isFile _ (.done x) ws outcome := hsteady _ hy
    cases hdone
    exact ⟨rfl, rfl⟩
  have hnone : todo.flatMap (·.2.1) = [] := List.flatMap_eq_nil_iff.2 fun y hy => (hended y hy).2
  rw [hnone, List.append_nil] at hperm
  refine ⟨?_, ⟨fun w hw => hover.written w (hperm.mem_iff.2 hw), hover.other⟩⟩
  have hresults : results.map Script.done = (todo.map (·.2.2)).map Script.done := by
    rw [htasks, List.map_map]
    exact List.map_congr_left fun y hy => (hended y hy).1
  rw [← houtcomes]
  exact List.map_injective_iff.2 (fun _ _ => Script.done.inj) hresults

namespace Site

variable (h : Site s t target jobs a R)

include h

theorem midway_start : Midway s t target jobs a R (jobs.map (Script.generate s t target)) a := by
  refine ⟨[], jobs.map fun job => (Script.generate s t target job, job.played s t target a.isFile), ?_, ?_,
    ?_, ?_, .start a R _⟩
  · simp
  · intro y hy
    obtain ⟨job, hjob, rfl⟩ := List.mem_map.1 hy
    exact plays_generate (h.resolved job hjob) fun p hp => ⟨job, hjob, hp⟩
  · simp [outcomes]
  · simp [written, List.flatMap_map]

/-- The next operation of a task writes what comes next, or nothing. -/
theorem steady_step {op : Op} {next : op.Answer → Script Outcome} {ws done : List (Path × String)}
    {outcome : Outcome} {answer : op.Answer} (hsteady : Steady s t target jobs a (.step op next, ws, outcome))
    (hkeeps : Keeps a b) (hover : Overlaid a R (written s t target jobs a) done b)
    (hall : ∀ w ∈ ws, w ∈ written s t target jobs a) (hdone : ∀ w ∈ done, w ∈ written s t target jobs a)
    (hnew : ∀ w ∈ ws, ∀ w' ∈ done, a.aim? w'.1 ≠ a.aim? w.1)
    (hrun : op.perform.run b = (.ok answer, c)) :
    ∃ moved rest, ws = moved ++ rest ∧ Overlaid a R (written s t target jobs a) (done ++ moved) c ∧
      Steady s t target jobs a (next answer, rest, outcome) := by
  cases hsteady with
  | ask hasked hrest =>
    obtain ⟨rfl, rfl⟩ := Op.run_ask_eq_ok_iff.1 hrun
    obtain ⟨job, hjob, hp⟩ := hasked
    obtain ⟨names, haim, hfree⟩ := h.ne_of_consults hjob hp
    rw [← hover.isFile_eq hkeeps haim hfree] at hrest
    exact ⟨[], ws, rfl, by simpa using hover, hrest⟩
  | raise hwritten hrest =>
    obtain ⟨w, hw, rfl⟩ := List.mem_map.1 hwritten
    have hmem := List.mem_map_of_mem (f := Prod.fst) (hall w hw)
    exact ⟨[], ws, rfl, by simpa using hover.raise h.aims_written hkeeps hmem hrun, hrest⟩
  | @put p text _ ws _ hrest =>
    have hover' := hover.put h.aims_written hkeeps (hall _ List.mem_cons_self) hdone
      (hnew (p, text) List.mem_cons_self) hrun
    exact ⟨[(p, text)], ws, rfl, hover', hrest⟩

theorem midway_step {before after : List (Script Outcome)} {op : Op} {next : op.Answer → Script Outcome}
    {answer : op.Answer} (hkeeps : Keeps a b)
    (hmid : Midway s t target jobs a R (before ++ .step op next :: after) b)
    (hrun : op.perform.run b = (.ok answer, c)) :
    Midway s t target jobs a R (before ++ next answer :: after) c := by
  obtain ⟨done, todo, htasks, hsteady, houtcomes, hperm, hover⟩ := hmid
  obtain ⟨first, others, rfl, hfirst, hothers⟩ := List.map_eq_append_iff.1 htasks.symm
  obtain ⟨⟨m, ws, outcome⟩, last, rfl, hm, hlast⟩ := List.map_eq_cons_iff.1 hothers
  obtain rfl : m = .step op next := hm
  have htodo : ∀ w ∈ ws, w ∈ (first ++ (.step op next, ws, outcome) :: last).flatMap (·.2.1) :=
    fun w hw => List.mem_flatMap.2 ⟨_, List.mem_append_right first List.mem_cons_self, hw⟩
  obtain ⟨moved, rest, rfl, hover', hnext⟩ := h.steady_step
    (hsteady _ (List.mem_append_right first List.mem_cons_self)) hkeeps hover
    (fun w hw => hperm.mem_iff.1 (List.mem_append_right done (htodo w hw)))
    (fun w hw => hperm.mem_iff.1 (List.mem_append_left _ hw))
    (fun w hw w' hw' => h.aim?_ne_of_perm hperm hw' (htodo w hw)) hrun
  -- What the task has written goes from what is to be done to what is done.
  refine ⟨done ++ moved, first ++ (next answer, rest, outcome) :: last, by simp [← hfirst, ← hlast],
    forall_mem_replace hsteady fun _ => hnext, by simpa using houtcomes, .trans ?_ hperm, hover'⟩
  simp only [List.flatMap_append, List.flatMap_cons, List.append_assoc]
  exact (List.perm_append_comm_assoc moved _ _).append_left done

/-- The modules of a target language end in one way, whatever the order of its tasks and whatever others do
elsewhere. -/
theorem serves_modules {tasks : List (Script Outcome)} {report : TargetReport} (hb : Keeps a b)
    (hmid : Midway s t target jobs a R tasks b) (hserves : Serves s target R b (.modules tasks) d report) :
    ∃ c arrived, arrived.Perm (outcomes s t target jobs a) ∧ Keeps a c ∧
      Overlaid a R (written s t target jobs a) (written s t target jobs a) c ∧
      Serves s target R c (.together (generatedOf arrived) (skippedOf arrived)
        (Script.aggregate s target (generatedOf arrived))) d report := by
  generalize hw : Work.modules tasks = w at hserves
  induction hserves generalizing tasks with
  | ended => exact nomatch hw
  | @step b b' c d w w' report haside hadv hrest ih =>
    have hkeeps := hb.trans haside.keeps
    have hmid' : Midway s t target jobs a R tasks b' := by
      obtain ⟨done, todo, htasks, hsteady, houtcomes, hperm, hover⟩ := hmid
      exact ⟨done, todo, htasks, hsteady, houtcomes, hperm,
        hover.of_aside h.aims_written hb (fun w hw => hperm.mem_iff.1 (List.mem_append_left _ hw)) haside⟩
    cases hadv with
    | task hrun =>
      obtain rfl := Work.modules.inj hw
      exact ih (hkeeps.trans (Op.keeps_perform hrun)) (h.midway_step hkeeps hmid' hrun) rfl
    | join harrive =>
      obtain rfl := Work.modules.inj hw
      obtain ⟨rfl, hover⟩ := hmid'.eq_outcomes
      exact ⟨b', _, harrive, hkeeps, hover, hrest⟩
    | aggregate => exact nomatch hw
    | close => exact nomatch hw

end Site

end Generation
end WrapperGen
