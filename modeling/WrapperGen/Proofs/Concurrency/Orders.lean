import Mathlib.Data.List.Nodup
import Mathlib.Logic.Function.Basic
import Mathlib.Logic.Relation
import WrapperGen.Proofs.Concurrency.Tasks

/-!
# Orders of a run

All target languages of a run work on one file tree, and the classes of each of them have a task of their
own. Any task may perform its next operation at any time. A target language puts its modules together once
its own tasks are done, whose outcomes come in any order. A run takes one of these orders, whether it ends
with a report or fails.
-/

namespace WrapperGen

open Relation (ReflTransGen)

variable {α : Type}

/-- `m.Fails b e c`: the next that the script `m` does on the tree `b` fails with `e` and leaves `c`. -/
inductive Script.Fails (b : FileTree) (e : Error) : FileTree → Script α → Prop
  | fail : Fails b e b (.fail e)
  | step {c : FileTree} {op : Op} {next : op.Answer → Script α}
      (performed : op.perform.run b = (.error e, c)) : Fails b e c (.step op next)

namespace Generation

/-- How far a target language has come. -/
inductive Work where
  /-- The tasks of its classes are under way. -/
  | modules (tasks : List (Script Outcome))
  /-- Its modules are put together. -/
  | together (generated : List Path) (skipped : List Skipped) (rest : Script (List Path))
  | ended (report : TargetReport)

def generatedOf (outcomes : List Outcome) : List Path := sortedPaths (outcomes.filterMap Outcome.file?)

def skippedOf (outcomes : List Outcome) : List Skipped := sortedSkipped (outcomes.filterMap Outcome.skipped?)

/-- One step of a target language. An operation that fails is none. -/
inductive Advances (s : Settings) (target : Target) : FileTree → Work → FileTree → Work → Prop
  | task {b c : FileTree} {before after : List (Script Outcome)} {op : Op}
      {next : op.Answer → Script Outcome} {answer : op.Answer}
      (performed : op.perform.run b = (.ok answer, c)) :
      Advances s target b (.modules (before ++ .step op next :: after))
        c (.modules (before ++ next answer :: after))
  | join {b : FileTree} {outcomes arrived : List Outcome} (arrive : arrived.Perm outcomes) :
      Advances s target b (.modules (outcomes.map .done))
        b (.together (generatedOf arrived) (skippedOf arrived)
          (Script.aggregate s target (generatedOf arrived)))
  | aggregate {b c : FileTree} {generated : List Path} {skipped : List Skipped} {op : Op}
      {next : op.Answer → Script (List Path)} {answer : op.Answer}
      (performed : op.perform.run b = (.ok answer, c)) :
      Advances s target b (.together generated skipped (.step op next))
        c (.together generated skipped (next answer))
  | close {b : FileTree} {generated : List Path} {skipped : List Skipped} {aggregates : List Path} :
      Advances s target b (.together generated skipped (.done aggregates))
        b (.ended { target, generated, skipped, aggregates })

/-- A file tree, and how far the target languages have come on it. -/
abbrev State := FileTree × (Target → Work)

/-- One step of a run: some target language that is served takes its next one. -/
inductive Moves (s : Settings) (served : List Target) : State → State → Prop
  | step {b c : FileTree} {work : Target → Work} {target : Target} {w : Work} (mem : target ∈ served)
      (advances : Advances s target b (work target) c w) :
      Moves s served (b, work) (c, Function.update work target w)

def start (s : Settings) (t : ClassTable) (jobs : List Job) (target : Target) : Work :=
  .modules (jobs.map (Script.generate s t target))

/-- `Interleaves s t jobs served a reports b`: some order of the operations leads from the tree `a` to
the tree `b` and to these reports. -/
def Interleaves (s : Settings) (t : ClassTable) (jobs : List Job) (served : List Target) (a : FileTree)
    (reports : List TargetReport) (b : FileTree) : Prop :=
  ∃ work, ReflTransGen (Moves s served) (a, start s t jobs) (b, work) ∧
    served.map work = reports.map .ended

/-- `w.Fails b e c w'`: the next that one of the scripts of `w` does on the tree `b` fails with `e` and leaves
`c`. The other ones are left as they are. -/
inductive Work.Fails (b : FileTree) (e : Error) (c : FileTree) : Work → Work → Prop
  | task {before after : List (Script Outcome)} {m : Script Outcome} (fails : m.Fails b e c) :
      Fails b e c (.modules (before ++ m :: after)) (.modules (before ++ .fail e :: after))
  | aggregate {generated : List Path} {skipped : List Skipped} {rest : Script (List Path)}
      (fails : rest.Fails b e c) :
      Fails b e c (.together generated skipped rest) (.together generated skipped (.fail e))

/-- In some order a target language fails. What is under way may still go on until it is stopped. -/
def Breaks (s : Settings) (served : List Target) (S : State) (e : Error) (b : FileTree) : Prop :=
  ∃ S', ReflTransGen (Moves s served) S S' ∧ ∃ target ∈ served, ∃ c w, (S'.2 target).Fails S'.1 e c w ∧
    ∃ work, ReflTransGen (Moves s served) (c, Function.update S'.2 target w) (b, work)

/-- `RunsTo s t asked a result b`: in some order of its operations a run on the tree `a` comes to a report or
to an error, and leaves the tree `b`. -/
inductive RunsTo (s : Settings) (t : ClassTable) (asked : List Target) (a : FileTree) :
    Except Error Report → FileTree → Prop
  | unlisted {e : Error} (enumerated : SourceUnit.enumerate s t a = .error e) : RunsTo s t asked a (.error e) a
  | reported {units : List SourceUnit} {reports : List TargetReport} {b : FileTree}
      (enumerated : SourceUnit.enumerate s t a = .ok units)
      (served : Interleaves s t ((Plan.ofUnits t units).classes.filterMap (job? t)) (targets s asked) a
        reports b) :
      RunsTo s t asked a (.ok ⟨reports, (Plan.ofUnits t units).skipped ++
        (Plan.ofUnits t units).classes.filterMap (unresolved? t)⟩) b
  | failed {units : List SourceUnit} {e : Error} {b : FileTree}
      (enumerated : SourceUnit.enumerate s t a = .ok units)
      (served : Breaks s (targets s asked)
        (a, start s t ((Plan.ofUnits t units).classes.filterMap (job? t))) e b) :
      RunsTo s t asked a (.error e) b

variable {s : Settings} {t : ClassTable} {target : Target} {jobs : List Job} {served : List Target}
  {a b c d : FileTree} {w w' : Work} {e : Error}

/-! ### A run takes one of its orders -/

/-- Steps of one target language, with none of others in between. -/
def Goes (s : Settings) (target : Target) (b : FileTree) (w : Work) (c : FileTree) (w' : Work) : Prop :=
  ReflTransGen (fun S S' : FileTree × Work => Advances s target S.1 S.2 S'.1 S'.2) (b, w) (c, w')

/-- Steps of one target language that come to a result or fail. -/
def Comes (s : Settings) (target : Target) (b : FileTree) (w : Work) (c : FileTree) :
    Except Error Work → Prop
  | .ok w' => Goes s target b w c w'
  | .error e => ∃ d w' left, Goes s target b w d w' ∧ w'.Fails d e c left

theorem Goes.comes {result : Except Error Work} (h : Goes s target b w c w')
    (hrest : Comes s target c w' d result) : Comes s target b w d result := by
  cases result with
  | ok w'' => exact h.trans hrest
  | error e =>
    obtain ⟨d', w'', left, hgoes, hfails⟩ := hrest
    exact ⟨d', w'', left, h.trans hgoes, hfails⟩

/-- In a place where the operations of a script are steps and its failures fail, the script goes to its end. -/
theorem comes_script {K : Script α → Work} {m : Script α} {result : Except Error α}
    (hK : ∀ {b c : FileTree} {op : Op} {next : op.Answer → Script α} {answer : op.Answer},
      op.perform.run b = (.ok answer, c) → Advances s target b (K (.step op next)) c (K (next answer)))
    (hfails : ∀ {b c : FileTree} {e : Error} {m : Script α}, m.Fails b e c →
      (K m).Fails b e c (K (.fail e)))
    (h : m.run.run b = (result, c)) : Comes s target b (K m) c (result.map fun x => K (.done x)) := by
  induction m generalizing b with
  | done x =>
    obtain ⟨rfl, rfl⟩ := Prod.mk.inj h
    exact .refl
  | fail e =>
    obtain ⟨rfl, rfl⟩ := Prod.mk.inj h
    exact ⟨b, _, _, .refl, hfails .fail⟩
  | step op next ih =>
    rw [Script.run, Step.run_bind] at h
    rcases hrun : op.perform.run b with ⟨e | answer, d⟩ <;> rw [hrun] at h
    · obtain ⟨rfl, rfl⟩ := Prod.mk.inj h
      exact ⟨b, _, _, .refl, hfails (.step hrun)⟩
    · exact Goes.comes (.single (hK hrun)) (ih answer h)

/-- Tasks that are done one after the other. Those before them have ended. -/
theorem comes_tasks {tasks : List (Script Outcome)} {result : Except Error (List Outcome)}
    (ended : List Outcome) (h : (tasks.mapM Script.run).run b = (result, c)) :
    Comes s target b (.modules (ended.map .done ++ tasks)) c
      (result.map fun outcomes => .modules ((ended ++ outcomes).map .done)) := by
  induction tasks generalizing ended result b with
  | nil =>
    obtain ⟨rfl, rfl⟩ := Prod.mk.inj h
    rw [List.append_nil]
    show Goes s target b _ b (.modules ((ended ++ []).map .done))
    rw [List.append_nil]
    exact .refl
  | cons m tasks ih =>
    rw [List.mapM_cons, Step.run_bind] at h
    rcases hm : m.run.run b with ⟨e | outcome, d⟩ <;> rw [hm] at h
    · obtain ⟨rfl, rfl⟩ := Prod.mk.inj h
      exact comes_script (K := fun m => .modules (ended.map .done ++ m :: tasks)) .task .task hm
    · have hfirst : Goes s target b _ d _ :=
        comes_script (K := fun m => .modules (ended.map .done ++ m :: tasks)) .task .task hm
      refine hfirst.comes ?_
      dsimp only at h
      rw [Step.run_bind] at h
      rcases hrest : (tasks.mapM Script.run).run d with ⟨e | others, d'⟩ <;> rw [hrest] at h <;>
        obtain ⟨rfl, rfl⟩ := Prod.mk.inj h
      all_goals
        have hothers := ih (ended ++ [outcome]) hrest
        simpa [Except.map] using hothers

theorem comes_modules {result : Except Error (Target × List Outcome)}
    (h : (do return (target, ← jobs.mapM (generate s t target)) : Step FileTree _).run b = (result, c)) :
    Comes s target b (start s t jobs target) c (result.map fun x => .modules (x.2.map .done)) := by
  have hrun : Script.run ∘ Script.generate s t target = Generation.generate s t target :=
    funext Script.run_generate
  rw [← hrun, ← List.mapM_map, Step.run_bind] at h
  rcases htasks : ((jobs.map (Script.generate s t target)).mapM Script.run).run b with ⟨e | outcomes, d⟩ <;>
    rw [htasks] at h <;> obtain ⟨rfl, rfl⟩ := Prod.mk.inj h
  · exact comes_tasks [] htasks
  · exact comes_tasks [] htasks

theorem comes_putTogether {outcomes : List Outcome} {result : Except Error TargetReport}
    (h : (putTogether s target outcomes).run b = (result, c)) :
    Comes s target b (.modules (outcomes.map .done)) c (result.map .ended) := by
  have hjoin : Advances s target b (.modules (outcomes.map .done)) b _ := .join (.refl outcomes)
  have hfirst : Goes s target b _ b _ := .single hjoin
  refine hfirst.comes ?_
  rw [putTogether, ← Script.run_aggregate, Step.run_bind] at h
  rcases hrun : (Script.aggregate s target (generatedOf outcomes)).run.run b with ⟨e | aggregates, d⟩
  · rw [generatedOf] at hrun
    rw [hrun] at h
    obtain ⟨rfl, rfl⟩ := Prod.mk.inj h
    exact comes_script (K := .together (generatedOf outcomes) (skippedOf outcomes)) .aggregate .aggregate hrun
  · have hrest : Goes s target b _ d _ :=
      comes_script (K := .together (generatedOf outcomes) (skippedOf outcomes)) .aggregate .aggregate hrun
    rw [generatedOf] at hrun
    rw [hrun] at h
    obtain ⟨rfl, rfl⟩ := Prod.mk.inj h
    exact hrest.tail .close

/-- What a target language comes to, a run comes to. -/
def Leads (s : Settings) (served : List Target) (S : State) (c : FileTree) :
    Except Error (Target → Work) → Prop
  | .ok work => ReflTransGen (Moves s served) S (c, work)
  | .error e => Breaks s served S e c

theorem Breaks.trans {S S' : State} {e : Error} (h : ReflTransGen (Moves s served) S S')
    (hrest : Breaks s served S' e c) : Breaks s served S e c := by
  obtain ⟨S'', hmoves, hfails⟩ := hrest
  exact ⟨S'', h.trans hmoves, hfails⟩

theorem moves_of_goes (mem : target ∈ served) {work : Target → Work}
    (h : Goes s target b (work target) c w) :
    ReflTransGen (Moves s served) (b, work) (c, Function.update work target w) := by
  have hlift : ∀ S : FileTree × Work, Goes s target b (work target) S.1 S.2 →
      ReflTransGen (Moves s served) (b, work) (S.1, Function.update work target S.2) := by
    intro S hS
    change ReflTransGen _ _ S at hS
    induction hS with
    | refl => rw [Function.update_eq_self]
    | @tail S S' _ hadv ih =>
      rw [← Function.update_self target S.2 work] at hadv
      have hmove := Moves.step mem hadv
      rw [Function.update_idem] at hmove
      exact ih.tail hmove
  exact hlift (c, w) h

theorem Comes.leads (mem : target ∈ served) {work : Target → Work} {result : Except Error Work}
    (h : Comes s target b (work target) c result) :
    Leads s served (b, work) c (result.map (Function.update work target)) := by
  cases result with
  | ok w' => exact moves_of_goes mem h
  | error e =>
    obtain ⟨d, w', left, hgoes, hfails⟩ := h
    refine ⟨_, moves_of_goes mem hgoes, target, mem, c, left, ?_, _, .refl⟩
    dsimp only
    rwa [Function.update_self]

/-- Of target languages that are taken one after the other, each comes to what it does on its own. -/
theorem leads_mapM {β : Type} (language : α → Target) {f : α → Step FileTree β} {before : α → Work}
    {after : α → β → Work}
    (hcomes : ∀ {x b c result}, (f x).run b = (result, c) →
      Comes s (language x) b (before x) c (result.map (after x)))
    {todo : List α} (hsub : ∀ x ∈ todo, language x ∈ served) (hnodup : (todo.map language).Nodup)
    {work : Target → Work} (hwork : ∀ x ∈ todo, work (language x) = before x)
    {result : Except Error (List β)} (h : (todo.mapM f).run b = (result, c)) :
    match result with
    | .error e => Breaks s served (b, work) e c
    | .ok ys => ∃ work', ReflTransGen (Moves s served) (b, work) (c, work') ∧
        List.Forall₂ (fun x y => (∃ b c, (f x).run b = (.ok y, c)) ∧ work' (language x) = after x y) todo ys ∧
        ∀ target ∉ todo.map language, work' target = work target := by
  induction todo generalizing b work result with
  | nil =>
    obtain ⟨rfl, rfl⟩ := Prod.mk.inj h
    exact ⟨work, .refl, .nil, fun _ _ => rfl⟩
  | cons x todo ih =>
    obtain ⟨hnew, hnodup⟩ := List.nodup_cons.1 hnodup
    have hmem : language x ∈ served := hsub x List.mem_cons_self
    rw [List.mapM_cons, Step.run_bind] at h
    rcases hfirst : (f x).run b with ⟨e | y, d⟩ <;> rw [hfirst] at h <;>
      have hone := hcomes hfirst <;> rw [← hwork x List.mem_cons_self] at hone
    · obtain ⟨rfl, rfl⟩ := Prod.mk.inj h
      exact hone.leads hmem
    · have hmoves : ReflTransGen (Moves s served) (b, work) (d, _) := hone.leads hmem
      -- The others are where they were before the first one.
      have hlater : ∀ z ∈ todo, Function.update work (language x) (after x y) (language z) = before z := by
        intro z hz
        rw [Function.update_of_ne (ne_of_mem_of_not_mem (List.mem_map_of_mem hz) hnew)]
        exact hwork z (List.mem_cons_of_mem x hz)
      dsimp only at h
      rw [Step.run_bind] at h
      rcases hrest : (todo.mapM f).run d with ⟨e | ys, d'⟩ <;> rw [hrest] at h <;>
        obtain ⟨rfl, rfl⟩ := Prod.mk.inj h <;>
        have hothers := ih (fun z hz => hsub z (List.mem_cons_of_mem x hz)) hnodup hlater hrest
      · exact Breaks.trans hmoves hothers
      · obtain ⟨work', hmoves', hends, hsame⟩ := hothers
        refine ⟨work', hmoves.trans hmoves', .cons ⟨⟨b, d, hfirst⟩, ?_⟩ hends, fun target htarget => ?_⟩
        · rw [hsame _ hnew, Function.update_self]
        · rw [List.map_cons] at htarget
          rw [hsame target fun hmem => htarget (List.mem_cons_of_mem _ hmem),
            Function.update_of_ne (ne_of_mem_of_not_mem List.mem_cons_self htarget).symm]

/-- To serve target languages as a run does is an order of the operations. -/
theorem leads_serve (hserved : served.Nodup) {result : Except Error (List TargetReport)}
    (h : (serve s t served jobs).run a = (result, b)) :
    match result with
    | .error e => Breaks s served (a, start s t jobs) e b
    | .ok reports => Interleaves s t jobs served a reports b := by
  rw [serve, Step.run_bind] at h
  rcases hmodules : (served.mapM fun target => do return (target, ← jobs.mapM (generate s t target)) :
    Step FileTree _).run a with ⟨e | modules, c⟩ <;> rw [hmodules] at h <;>
    have hfirst := leads_mapM id comes_modules (fun _ => id) (by simpa using hserved)
      (fun _ _ => rfl) hmodules
  · obtain ⟨rfl, rfl⟩ := Prod.mk.inj h
    exact hfirst
  · obtain ⟨work, hmoves, hends, -⟩ := hfirst
    have hnamed : ∀ {target : Target} {x : Target × List Outcome},
        (∃ b c, (do return (target, ← jobs.mapM (generate s t target)) : Step FileTree _).run b =
          (.ok x, c)) → target = x.1 := by
      rintro target x ⟨b, c, hrun⟩
      obtain ⟨outcomes, d, -, hpair⟩ := Step.run_bind_eq_ok_iff.1 hrun
      obtain rfl := Except.ok.inj (Prod.mk.inj hpair).1
      rfl
    have hnames : served = modules.map (·.1) := by
      rw [← List.forall₂_eq_eq_eq, List.forall₂_map_right_iff]
      exact hends.imp fun _ _ hend => hnamed hend.1
    rw [hnames, List.forall₂_map_left_iff, List.forall₂_same] at hends
    have htogether := leads_mapM Prod.fst comes_putTogether
      (fun x hx => hnames ▸ List.mem_map_of_mem hx) (hnames ▸ hserved) (fun x hx => (hends x hx).2) h
    cases result with
    | error e => exact Breaks.trans hmoves htogether
    | ok reports =>
      obtain ⟨work', hmoves', hreports, -⟩ := htogether
      refine ⟨work', hmoves.trans hmoves', ?_⟩
      rw [hnames, List.map_map, ← List.forall₂_eq_eq_eq, List.forall₂_map_left_iff, List.forall₂_map_right_iff]
      exact hreports.imp fun _ _ hend => hend.2

theorem interleaves_of_serve {reports : List TargetReport} (hserved : served.Nodup)
    (h : (serve s t served jobs).run a = (.ok reports, b)) : Interleaves s t jobs served a reports b :=
  leads_serve hserved h

theorem nodup_targets (s : Settings) (asked : List Target) : (targets s asked).Nodup :=
  List.Nodup.filter _ (by decide)

/-- A run takes one of its orders. -/
theorem runsTo_of_run {asked : List Target} {result : Except Error Report}
    (h : (run s t asked).run a = (result, b)) : RunsTo s t asked a result b := by
  cases hunits : SourceUnit.enumerate s t a with
  | error e =>
    obtain ⟨rfl, rfl⟩ := Prod.mk.inj ((run_of_enumerate_error (σ := FileTree) hunits asked).symm.trans h)
    exact .unlisted hunits
  | ok units =>
    rw [run_of_enumerate (σ := FileTree) hunits asked, Step.run_bind] at h
    rcases hserve : (serve s t (targets s asked) ((Plan.ofUnits t units).classes.filterMap (job? t))).run a
      with ⟨e | reports, c⟩ <;> rw [hserve] at h <;> obtain ⟨rfl, rfl⟩ := Prod.mk.inj h
    · exact .failed hunits (leads_serve (nodup_targets s asked) hserve)
    · exact .reported hunits (leads_serve (nodup_targets s asked) hserve)

/-! ### A run for one class -/

section

variable {σ : Type} [Host σ] {x y : σ}

theorem run_modules {outcomes : List Outcome} (h : (jobs.mapM (generate s t target)).run x = (.ok outcomes, y)) :
    (do return (target, ← jobs.mapM (generate s t target)) : Step σ (Target × List Outcome)).run x =
      (.ok (target, outcomes), y) :=
  Step.run_bind_eq_ok_iff.2 ⟨outcomes, y, h, rfl⟩

theorem run_putTogether {outcomes : List Outcome} {aggregates : List Path}
    (h : (Aggregate.write s target (generatedOf outcomes)).run x = (.ok aggregates, y)) :
    (putTogether s target outcomes).run x =
      (.ok ⟨target, generatedOf outcomes, skippedOf outcomes, aggregates⟩, y) :=
  Step.run_bind_eq_ok_iff.2 ⟨aggregates, y, h, rfl⟩

theorem generatedOf_singleton (file : Path) : generatedOf [.generated file] = [file] :=
  List.mergeSort_singleton file

end

def loneTable : ClassTable := .ofRecords [("Ring", .empty)] .empty

def loneJob : Job := ⟨⟨"Ring", "Ring"⟩, loneTable.merge "Ring" .empty none⟩

theorem enumerate_lone (tree : FileTree) :
    SourceUnit.enumerate {} loneTable tree = .ok [⟨"Ring", "Ring"⟩] := by
  cbv

theorem jobs_lone :
    (Plan.ofUnits loneTable [⟨"Ring", "Ring"⟩]).classes.filterMap (job? loneTable) = [loneJob] := by
  cbv

/-- A tree in which the class is written by hand. -/
def handwritten : FileTree :=
  ((FileTree.empty.put ["js"] .dir).put ["js", "src"] .dir).put ["js", "src", "Ring.js"]
    (.file "// by hand".toUTF8)

def moduleTree : FileTree :=
  (generate {} loneTable .python loneJob).after ((generate {} loneTable .javascript loneJob).after handwritten)

def scriptTree : FileTree := (Aggregate.write {} .javascript [⟨"js/src/Ring.autogen.js"⟩]).after moduleTree

/-- The tree after a run for both target languages. -/
def packageTree : FileTree := (Aggregate.write {} .python [⟨"python/Ring_autogen.py"⟩]).after scriptTree

theorem serve_lone :
    ∃ reports, (serve {} loneTable Target.all [loneJob]).run handwritten = (.ok reports, packageTree) := by
  have hscript : (generate {} loneTable .javascript loneJob).run handwritten =
      (.ok (.generated ⟨"js/src/Ring.autogen.js"⟩), (generate {} loneTable .javascript loneJob).after
        handwritten) := Step.run_eq_after (by decide +kernel)
  have hpackage : (generate {} loneTable .python loneJob).run
      ((generate {} loneTable .javascript loneJob).after handwritten) =
      (.ok (.generated ⟨"python/Ring_autogen.py"⟩), moduleTree) := Step.run_eq_after (by decide +kernel)
  have hindex : (Aggregate.write {} .javascript (generatedOf [.generated ⟨"js/src/Ring.autogen.js"⟩])).run
      moduleTree = (.ok [⟨"js/src/index.js"⟩], scriptTree) := by
    rw [generatedOf_singleton]
    exact Step.run_eq_after (by decide +kernel)
  have haggregator : (Aggregate.write {} .python (generatedOf [.generated ⟨"python/Ring_autogen.py"⟩])).run
      scriptTree = (.ok [⟨"python/__init__.py"⟩, ⟨"python/_package.py"⟩], packageTree) := by
    rw [generatedOf_singleton]
    exact Step.run_eq_after (by decide +kernel)
  have hmodules : (Target.all.mapM fun target => do
      return (target, ← [loneJob].mapM (generate {} loneTable target)) : Step FileTree _).run handwritten =
      (.ok [(.javascript, [.generated ⟨"js/src/Ring.autogen.js"⟩]),
        (.python, [.generated ⟨"python/Ring_autogen.py"⟩])], moduleTree) :=
    Step.run_mapM_cons (run_modules (Step.run_mapM_cons hscript rfl))
      (Step.run_mapM_cons (run_modules (Step.run_mapM_cons hpackage rfl)) rfl)
  exact ⟨_, Step.run_bind_eq_ok_iff.2 ⟨_, moduleTree, hmodules,
    Step.run_mapM_cons (run_putTogether hindex) (Step.run_mapM_cons (run_putTogether haggregator) rfl)⟩⟩

theorem run_lone :
    ∃ report, (run {} loneTable Target.all).run handwritten = (.ok report, packageTree) := by
  have htargets : targets {} Target.all = Target.all := by decide
  obtain ⟨reports, hreports⟩ := serve_lone
  rw [← htargets, ← jobs_lone] at hreports
  exact ⟨_, (run_of_enumerate (enumerate_lone handwritten) Target.all).trans
    (Step.run_bind_pure_eq_ok_iff.2 ⟨reports, hreports, rfl⟩)⟩

end Generation
end WrapperGen
