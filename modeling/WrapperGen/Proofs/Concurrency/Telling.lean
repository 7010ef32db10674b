import Mathlib.Data.List.Forall2
import WrapperGen.Proofs.Aggregate.Relisting
import WrapperGen.Proofs.Concurrency.Tasks
import WrapperGen.Proofs.FileTree.Footprint
import WrapperGen.Proofs.Generation.Products
import WrapperGen.Proofs.Wrapper.Refusals

/-!
# What scripts tell

Whatever a script learns of the tree, it is known which operations it may do, with which errors it may fail,
and what it ends with. The outcome of a task and the list of the files that put modules together tell exactly
which files were written. To render a class fails only with an error that concerns this class, which then is
the outcome of its task, so no script of a run fails by itself.
-/

namespace WrapperGen

namespace Aggregate

theorem exists_planIndexes (r : IndexRules) (p : Placement) (b : FileTree) :
    ∃ plans, planIndexes r p b = .ok plans := by
  by_cases hdir : b.isDir p.root = true
  · obtain ⟨root, hroot, -⟩ := FileTree.isDir_iff.1 hdir
    obtain ⟨visits, hwalk⟩ := FileTree.exists_walk hroot isMet
    exact ⟨_, by rw [planIndexes_eq_walk hdir hroot, hwalk]; rfl⟩
  · exact ⟨[], by rw [planIndexes, if_neg hdir]⟩

theorem exists_planPackage (r : PackageRules) (p : Placement) (b : FileTree) :
    ∃ modules, planPackage r p b = .ok modules := by
  by_cases hdir : b.isDir p.root = true
  · obtain ⟨root, hroot, -⟩ := FileTree.isDir_iff.1 hdir
    obtain ⟨visits, hwalk⟩ := FileTree.exists_walk hroot isMet
    exact ⟨_, by rw [planPackage_eq_walk hdir, hwalk]; rfl⟩
  · exact ⟨[], by rw [planPackage, if_neg hdir]⟩

end Aggregate

/-- Whether an error comes from storage. -/
def Error.IsStorage (e : Error) : Prop := ∃ p f, e = .io p f

namespace Op

/-- What is written after an operation with a given answer, where the files of `W` were written before. -/
def wrote (W : Path → Prop) : (op : Op) → op.Answer → Path → Prop
  | ask _, _ => W
  | look, _ => W
  | raise _, _ => W
  | put p _, _ => fun q => W q ∨ q = p
  | create p, made => fun q => W q ∨ made = true ∧ q = p

variable {b c : FileTree} {N W : Path → Prop}

theorem wrote_iff {op : Op} {answer : op.Answer} {p : Path} :
    op.wrote W answer p ↔ W p ∨ op.wrote (fun _ => False) answer p := by
  cases op <;> simp [wrote]

/-- The footprint of an operation is what it has written. -/
theorem footprint_perform {op : Op} {answer : op.Answer} (hN : ∀ p text, op = .put p text → N p)
    (h : op.perform.run b = (.ok answer, c)) : FileTree.Footprint N (op.wrote (fun _ => False) answer) b c := by
  cases op with
  | ask p => exact (Prod.mk.inj h).2 ▸ .refl N b
  | look => exact (Prod.mk.inj h).2 ▸ .refl N b
  | raise p => exact .of_grows (FileTree.grows_of_run_ensureParent h)
  | put p text =>
    have hwrite : b.write p text.toUTF8 = .ok c := FileTree.run_commit_eq_ok_iff.1 h
    exact (FileTree.footprint_write (hN p text rfl) hwrite).congr (by simp [wrote])
  | create p =>
    unfold perform at h
    rw [Step.run_get_bind] at h
    cases hcreate : b.create p with
    | ok t =>
      rw [hcreate] at h
      obtain ⟨hmade, rfl⟩ := Prod.mk.inj h
      obtain rfl := Except.ok.inj hmade
      exact (FileTree.footprint_create hcreate).congr (by simp [wrote])
    | error f =>
      rw [hcreate] at h
      cases f with
      | alreadyExists =>
        obtain ⟨hmade, rfl⟩ := Prod.mk.inj h
        obtain rfl := Except.ok.inj hmade
        exact (FileTree.Footprint.refl N b).congr (by simp [wrote])
      | _ => cases (Prod.mk.inj h).1

/-- An operation that fails has written no file, and what fails is storage. -/
theorem grows_of_error {op : Op} {e : Error} (h : op.perform.run b = (.error e, c)) :
    FileTree.Grows (fun _ => False) b c ∧ e.IsStorage := by
  cases op with
  | ask p => cases (Prod.mk.inj h).1
  | look => cases (Prod.mk.inj h).1
  | raise p =>
    have hgrows : FileTree.Grows (fun _ => False) b ((FileTree.ensureParent p).after b) :=
      FileTree.grows_ensureParent _ b
    have hrun : (FileTree.ensureParent p).run b = (.error e, c) := h
    rw [Step.after, hrun] at hgrows
    refine ⟨hgrows, ?_⟩
    rw [FileTree.run_ensureParent] at hrun
    rcases hmade : b.makeParent p with ⟨_ | ⟨dir, f⟩, made⟩ <;> rw [hmade] at hrun
    · cases (Prod.mk.inj hrun).1
    · exact ⟨dir, f, (Except.error.inj (Prod.mk.inj hrun).1).symm⟩
  | put p text =>
    unfold perform at h
    rw [Step.run_get_bind] at h
    cases hwrite : b.write p text.toUTF8 with
    | ok t =>
      rw [hwrite] at h
      cases (Prod.mk.inj h).1
    | error f =>
      rw [hwrite] at h
      obtain ⟨he, rfl⟩ := Prod.mk.inj h
      exact ⟨.refl _ b, p, f, (Except.error.inj he).symm⟩
  | create p =>
    unfold perform at h
    rw [Step.run_get_bind] at h
    cases hcreate : b.create p with
    | ok t =>
      rw [hcreate] at h
      cases (Prod.mk.inj h).1
    | error f =>
      rw [hcreate] at h
      cases f with
      | alreadyExists => cases (Prod.mk.inj h).1
      | _ =>
        obtain ⟨he, rfl⟩ := Prod.mk.inj h
        exact ⟨.refl _ b, p, _, (Except.error.inj he).symm⟩

end Op

namespace Script

variable {α β : Type} {L : Op → Prop} {E F : Error → (Path → Prop) → Prop} {P : α → (Path → Prop) → Prop}
  {Q : β → (Path → Prop) → Prop} {W : Path → Prop}

/-- `m.Tells L E P W`: whatever the answers are, the script `m` does operations of `L` only. If the files of
`W` are written before, what it fails with and what is written then are in `E`, and what it ends with and what
is written then are in `P`. -/
def Tells (L : Op → Prop) (E : Error → (Path → Prop) → Prop) (P : α → (Path → Prop) → Prop) :
    Script α → (Path → Prop) → Prop
  | done x, W => P x W
  | fail e, W => E e W
  | step op next, W => L op ∧ ∀ answer, (next answer).Tells L E P (op.wrote W answer)

theorem Tells.mono {P' : α → (Path → Prop) → Prop} {m : Script α} (h : m.Tells L E P W)
    (hE : ∀ e W', E e W' → F e W') (hP : ∀ x W', P x W' → P' x W') : m.Tells L F P' W := by
  induction m generalizing W with
  | done x => exact hP x W h
  | fail e => exact hE e W h
  | step op next ih => exact ⟨h.1, fun answer => ih answer (h.2 answer)⟩

theorem Tells.bind {m : Script α} {f : α → Script β} (hm : m.Tells L E P W)
    (hf : ∀ x W', P x W' → (f x).Tells L E Q W') : (m >>= f).Tells L E Q W := by
  show (m.bind f).Tells L E Q W
  induction m generalizing W with
  | done x => exact hf x W hm
  | fail e => exact hm
  | step op next ih => exact ⟨hm.1, fun answer => ih answer (hm.2 answer)⟩

theorem Tells.attempt_bind {m : Script α} {f : Except Error α → Script β} (hm : m.Tells L E P W)
    (hok : ∀ x W', P x W' → (f (.ok x)).Tells L F Q W')
    (herror : ∀ e W', E e W' → (f (.error e)).Tells L F Q W') : (m.attempt >>= f).Tells L F Q W := by
  show (m.attempt.bind f).Tells L F Q W
  induction m generalizing W with
  | done x => exact hok x W hm
  | fail e => exact herror e W hm
  | step op next ih => exact ⟨hm.1, fun answer => ih answer (hm.2 answer)⟩

theorem tells_lift_bind {x : Except Error α} {f : α → Script β} (he : ∀ e, x = .error e → E e W)
    (hf : ∀ y, x = .ok y → (f y).Tells L E Q W) : (lift x >>= f).Tells L E Q W := by
  cases x with
  | ok y => exact hf y rfl
  | error e => exact he e rfl

/-- A computation that succeeds does not fail in a script. -/
theorem tells_ok_bind {x : Except Error α} {f : α → Script β} (hx : ∃ y, x = .ok y)
    (hf : ∀ y, x = .ok y → (f y).Tells L E Q W) : (lift x >>= f).Tells L E Q W := by
  obtain ⟨y, rfl⟩ := hx
  exact hf y rfl

/-- The results for a list stand to its elements as each result does, and tell of all that is written. -/
theorem tells_mapM (R : β → α → Prop) (told : α → Path → Prop) {f : β → Script α} {xs : List β}
    (h : ∀ x ∈ xs, ∀ W, (f x).Tells L E (fun y W' => R x y ∧ ∀ p, W' p ↔ W p ∨ told y p) W) :
    (xs.mapM f).Tells L E
      (fun ys W' => List.Forall₂ R xs ys ∧ ∀ p, W' p ↔ W p ∨ ∃ y ∈ ys, told y p) W := by
  induction xs generalizing W with
  | nil => exact ⟨.nil, fun p => by simp⟩
  | cons x xs ih =>
    rw [List.mapM_cons]
    refine (h x List.mem_cons_self W).bind fun y W' hy => ?_
    refine (ih fun z hz => h z (List.mem_cons_of_mem x hz)).bind fun ys W'' hys => ?_
    refine ⟨.cons hy.1 hys.1, fun p => ?_⟩
    rw [hys.2, hy.2]
    simp [or_assoc]

theorem tells_write {p : Path} {text : String} (hraise : L (.raise p)) (hput : L (.put p text)) :
    (write p text).Tells L E (fun _ W' => ∀ q, W' q ↔ W q ∨ q = p) W :=
  ⟨hraise, fun _ => ⟨hput, fun _ _ => .rfl⟩⟩

variable {l : Linker} {r : Resolved} {file : Path}

theorem tells_describe (hL : ∀ p, L (.ask p)) (a : Artifact) :
    (describe l file a).Tells L E (fun _ W' => W' = W) W := ⟨hL _, fun _ => rfl⟩

/-- A superclass of a class that resolves is always described. -/
theorem tells_superclass (hL : ∀ p, L (.ask p)) {c : String} (h : l.table.resolve c = .ok r) :
    (superclass l r file).Tells L E (fun _ W' => W' = W) W :=
  tells_ok_bind (Linker.exists_parent h) fun a _ => tells_describe hL a

theorem tells_references (hL : ∀ p, L (.ask p)) {c : String} (h : l.table.resolve c = .ok r) :
    (references l r file).Tells L (fun e W' => W' = W ∧ l.named r = .error e)
      (fun _ W' => W' = W ∧ ∃ others, l.named r = .ok others) W := by
  refine (tells_superclass hL h).bind fun parent W' hW => ?_
  subst hW
  refine tells_lift_bind (fun e he => ⟨rfl, he⟩) fun others hothers => ?_
  refine (tells_mapM (fun _ _ => True) (fun _ _ => False) fun a _ W =>
    (tells_describe hL a).mono (fun _ _ => id) fun _ W' hW => ⟨trivial, by simp [hW]⟩).bind
      fun described W'' hW => ?_
  exact ⟨funext fun p => propext (by simp [hW.2]), others, hothers⟩

theorem tells_subject (hL : ∀ p, L (.ask p)) {g : Generator} {c : String}
    (h : g.table.resolve c = .ok r) :
    (subject g r).Tells L (fun e W' => W' = W ∧ g.linker.named r = .error e)
      (fun x W' => W' = W ∧ x.resolved = r ∧ ∃ others, g.linker.named r = .ok others) W := by
  refine (tells_references (l := g.linker) hL h).bind fun references W' hreferences => ?_
  obtain ⟨rfl, hnamed⟩ := hreferences
  refine (tells_superclass (l := g.linker) hL h).bind fun superclass W'' hW => ?_
  subst hW
  refine (tells_describe hL g.linker.base).bind fun base W'' hW => ?_
  subst hW
  exact ⟨hL _, fun _ => ⟨rfl, rfl, hnamed⟩⟩

end Script

namespace Linker

variable {l : Linker} {r : Resolved} {c : String}

theorem named_eq_error (h : l.table.resolve c = .ok r) {e : Error} (he : l.named r = .error e) :
    ∃ m ∈ l.table.dangling r, e = .invalidReference c m.name := by
  have hfails := failure?_named l r
  rw [he, List.head?_map, ClassTable.className_of_resolve h] at hfails
  obtain ⟨m, hm, rfl⟩ := Option.map_eq_some_iff.1 hfails.symm
  exact ⟨m, List.mem_of_head? hm, rfl⟩

theorem exists_named_iff (l : Linker) (r : Resolved) :
    (∃ others, l.named r = .ok others) ↔ l.table.dangling r = [] := by
  rw [← failure?_eq_none_iff, failure?_named, List.head?_eq_none_iff, List.map_eq_nil_iff]

end Linker

namespace Generation

/-- What becomes of a job, whatever overrides stand: a module in its own file exactly if its class can be
rendered, and else a note that tells why there is none. -/
def Becomes (s : Settings) (t : ClassTable) (target : Target) (job : Job) : Outcome → Prop
  | .generated file => file = job.file s target ∧ Renderable t job.resolved ∧
    (target = .python → Defaulted job.resolved)
  | .skipped k => k.className = job.scheduled.className ∧ k.unitPath = job.scheduled.unitPath ∧
    ¬ (Renderable t job.resolved ∧ (target = .python → Defaulted job.resolved)) ∧
    k.error.Blames k.className ∧
    (t.dangling job.resolved = [] → ∃ fault, k.error = .render k.className fault)

/-- The operations of a run for a target language. -/
def Serving (s : Settings) (t : ClassTable) (served : List Target) (target : Target) : Op → Prop
  | .put p _ => Product s t target p ∧ Rewritten s served p
  | .create p => Product s t target p
  | _ => True

theorem Serving.product {s : Settings} {t : ClassTable} {served : List Target} {target : Target} {op : Op}
    {answer : op.Answer} {p : Path} (h : Serving s t served target op)
    (hp : op.wrote (fun _ => False) answer p) : Product s t target p := by
  cases op with
  | put q text =>
    obtain rfl : p = q := hp.resolve_left id
    exact h.1
  | create q =>
    obtain ⟨-, rfl⟩ := hp.resolve_left id
    exact h
  | ask q => exact hp.elim
  | look => exact hp.elim
  | raise q => exact hp.elim

theorem Serving.footprint {s : Settings} {t : ClassTable} {served : List Target} {target : Target} {op : Op}
    {answer : op.Answer} {b c : FileTree} (h : Serving s t served target op)
    (hrun : op.perform.run b = (.ok answer, c)) :
    FileTree.Footprint (Rewritten s served) (op.wrote (fun _ => False) answer) b c := by
  refine Op.footprint_perform (fun p text hop => ?_) hrun
  subst hop
  exact h.2

end Generation

namespace Script

open Generation (Becomes Product Rewritten Serving)

variable {s : Settings} {t : ClassTable} {served : List Target} {target : Target} {job : Job}
  {L : Op → Prop} {E : Error → (Path → Prop) → Prop} {W : Path → Prop}

/-- Rendering fails with errors that concern the class, and succeeds exactly if the class can be rendered. -/
theorem tells_render (hL : ∀ p, L (.ask p)) {g : Generator} {r : Resolved} {c : String}
    (h : g.table.resolve c = .ok r) :
    (render g r).Tells L
      (fun e W' => W' = W ∧ ¬ (Renderable g.table r ∧ (g.target = .python → Defaulted r)) ∧
        e.Blames c ∧ (g.table.dangling r = [] → ∃ fault, e = .render c fault))
      (fun out W' => W' = W ∧ out.1 = g.file r ∧ Renderable g.table r ∧
        (g.target = .python → Defaulted r)) W := by
  refine Tells.bind ((tells_subject hL h).mono (fun e W' he => ?_) fun _ _ => id) fun x W' hx => ?_
  · obtain ⟨rfl, hnamed⟩ := he
    obtain ⟨m, hm, rfl⟩ := Linker.named_eq_error (l := g.linker) h hnamed
    rw [Generator.linker_table] at hm
    refine ⟨rfl, fun hrenderable => ?_, .inl ⟨m.name, rfl⟩, fun hnone => ?_⟩
    · rw [ClassTable.dangling_eq_nil_iff.2 hrenderable.1.linked] at hm
      exact nomatch hm
    · rw [hnone] at hm
      exact nomatch hm
  · obtain ⟨rfl, rfl, hnamed⟩ := hx
    have hlinked : g.table.dangling x.resolved = [] := (Linker.exists_named_iff g.linker _).1 hnamed
    refine tells_lift_bind (fun e he => ?_) fun w hw => ?_
    · obtain ⟨fault, rfl⟩ := Wrapper.build_eq_error he
      rw [ClassTable.className_of_resolve h]
      refine ⟨rfl, fun hrenderable => ?_, .inr ⟨fault, rfl⟩, fun _ => ⟨fault, rfl⟩⟩
      obtain ⟨-, w, hw⟩ : g.table.dangling x.resolved = [] ∧
          ∃ w, Wrapper.build g.settings g.target x = .ok w := Wrapper.renderable_iff.1 hrenderable
      rw [he] at hw
      exact nomatch hw
    · exact tells_ok_bind (w.exists_text g.target) fun text _ =>
        ⟨rfl, rfl, Wrapper.renderable_iff.2 ⟨hlinked, w, hw⟩⟩

/-- The outcome of a task tells of the one file that it has written. -/
theorem tells_generate (h : t.resolve job.scheduled.className = .ok job.resolved) :
    (generate s t target job).Tells (Serving s t served target) E
      (fun outcome W' => Becomes s t target job outcome ∧ ∀ p, W' p ↔ W p ∨ outcome.file? = some p) W := by
  let g : Generator := ⟨s, t, target, fun _ => false⟩
  have hrender := tells_render (L := Serving s t served target) (W := W) (fun _ => trivial) (g := g) h
  refine hrender.attempt_bind (fun out W' hout => ?_) fun e W' he => ?_
  · obtain ⟨rfl, hfile, hrenderable⟩ := hout
    have hfile : out.1 = job.file s target := hfile
    have hput : Serving s t served target (.put out.1 out.2) :=
      hfile ▸ ⟨Generation.product_file target h, .wrapper target _ _⟩
    refine (tells_write trivial hput).bind fun _ W'' hW => ⟨⟨hfile, hrenderable⟩, fun p => ?_⟩
    rw [hW, Generation.Outcome.file?, Option.some.injEq, eq_comm (a := p)]
  · obtain ⟨rfl, hrefused, hblames, hkind⟩ := he
    dsimp only
    rw [if_pos hblames.isClassScoped]
    exact ⟨⟨rfl, rfl, hrefused, hblames, hkind⟩, fun p => by simp [Generation.Outcome.file?]⟩

theorem tells_ensureMarker (dir : Path) :
    (ensureMarker dir).Tells (Serving s t served .python) E
      (fun made W' => True ∧ ∀ p, W' p ↔ W p ∨ made = some p) W := by
  refine ⟨trivial, fun _ => ⟨.marker dir, fun made => ⟨trivial, fun p => ?_⟩⟩⟩
  cases made <;> simp [Op.wrote, eq_comm]

theorem tells_writePackage (mem : .python ∈ served) :
    (writePackage s (s.placement .python)).Tells (Serving s t served .python) E
      (fun path W' => ∀ p, W' p ↔ W p ∨ p = path) W := by
  refine ⟨trivial, fun b => tells_ok_bind (Aggregate.exists_planPackage _ _ b) fun modules _ => ?_⟩
  refine tells_ok_bind (Aggregate.exists_packageText s.python.aggregator modules) fun text _ => ?_
  have hput : Serving s t served .python
      (.put ((s.placement .python).root.child s.python.aggregator) text) := ⟨.aggregator, .aggregator mem⟩
  exact (tells_write trivial hput).bind fun _ _ => id

/-- What putting modules together gives tells of all files that it has written. -/
theorem tells_aggregate (mem : target ∈ served) (generated : List Path) :
    (aggregate s target generated).Tells (Serving s t served target) E
      (fun paths W' => ∀ p, W' p ↔ W p ∨ p ∈ paths) W := by
  cases target with
  | javascript =>
    refine ⟨trivial, fun b => tells_ok_bind (Aggregate.exists_planIndexes _ _ b) fun plans hplans => ?_⟩
    refine (tells_mapM (fun _ _ => True) (fun path p => p = path) fun plan hplan W => ?_).mono
      (fun _ _ => id) fun paths W' hW p => (hW.2 p).trans (by simp [Op.wrote])
    obtain ⟨root, names, -, -, heq⟩ := Aggregate.exists_dir_of_mem_planIndexes hplans hplan
    refine tells_ok_bind (Aggregate.exists_indexText s.library plan) fun text _ => ?_
    have hput : Serving s t served .javascript (.put plan.path text) := heq ▸ ⟨.index _, .index _⟩
    exact (tells_write trivial hput).bind fun _ _ hW => ⟨trivial, hW⟩
  | python =>
    refine (tells_mapM (fun _ _ => True) (fun made p => made = some p)
      fun dir _ W => tells_ensureMarker dir).bind fun markers W' hmarkers => ?_
    refine (tells_writePackage mem).bind fun path W'' hpath p => ?_
    rw [hpath, hmarkers.2]
    simp [or_assoc]

end Script
end WrapperGen
