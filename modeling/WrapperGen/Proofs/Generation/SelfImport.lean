import WrapperGen.Proofs.Aggregate.Imports
import WrapperGen.Proofs.Concurrency.Ensures
import WrapperGen.Proofs.Generation.Overrides

/-!
# Aggregators that import themselves

The aggregator stands in the output tree that is listed for it, so each run sees the one of the run before.
It is left out by its name: where the configured text is more than a file name, no file has that name, and
from the second run on the aggregator is listed like any other module. Beside it a run may still write the
files of another target language, in whatever order the operations of both come.
-/

namespace WrapperGen.Generation

open Aggregate (Imported Meets PackageRules importLine isArtifact isSkippedDir packageHead packageMarker
  packageText_eq planPackage)
open FileTree (Keeps Grows)
open Relation (ReflTransGen)

variable {s : Settings} {t : ClassTable} {asked : List Target} {jobs : List Job}
  {a b c u before after : FileTree} {l root : Location} {modules above : List String} {stem : String}

/-- Runs that succeed, one after the other, each in some order of its operations. -/
inductive Runs (s : Settings) (t : ClassTable) (asked : List Target) : Nat → FileTree → FileTree → Prop
  | none (a : FileTree) : Runs s t asked 0 a a
  | next {n : Nat} {a b c : FileTree} {report : Report} (earlier : Runs s t asked n a b)
      (last : RunsTo s t asked b (.ok report) c) : Runs s t asked (n + 1) a c

def aggregatorPath (s : Settings) : Path := (s.placement .python).root.child s.python.aggregator

/-- What a run may write for another target language while the package is put together. -/
def Beside (s : Settings) (t : ClassTable) (asked : List Target) (q : Path) : Prop :=
  .javascript ∈ targets s asked ∧ Product s t .javascript q

/-- In `b` the aggregator has come to stand at `l`, as it was planned from `u`. -/
structure Registered (s : Settings) (t : ClassTable) (asked : List Target) (u b : FileTree) (l : Location)
    (modules : List String) : Prop where
  planned : planPackage (.ofSettings s) (s.placement .python) u = .ok modules
  keeps : Keeps u b
  place : b.locate (aggregatorPath s) = .ok l
  file : b.file? l = some (Text.ofLines (packageHead ++ modules.map importLine)).toUTF8
  /-- The other files are as they were, but for those of another target language. -/
  others : ∀ k, k ≠ l → b.file? k = u.file? k ∨ ∃ q, Beside s t asked q ∧ b.locate q = .ok k

theorem Registered.isFile (h : Registered s t asked u b l modules) : b.isFile (aggregatorPath s) = true :=
  FileTree.isFile_iff.2 ⟨l, h.place, Option.isSome_of_eq_some h.file⟩

theorem getLast?_of_locate_aggregator {text : String} (hs : Settings.ofText text = .ok s)
    (h : a.locate (aggregatorPath s) = .ok l) : l.getLast? = some (Text.lastPiece '/' s.python.aggregator) := by
  obtain ⟨x, hx⟩ : ∃ x, s.python.aggregator = x ++ Target.python.moduleExtension :=
    aggregator_of_ofText hs
  rw [aggregatorPath, hx] at h
  rw [hx]
  exact (getLast?_of_locate_module h).1

/-- No file of another target language lies in the place of the aggregator. -/
theorem Registered.grows {text : String} (hs : Settings.ofText text = .ok s)
    (h : Registered s t asked u b l modules) (hgrows : Grows (Beside s t asked) b c) :
    Registered s t asked u c l modules where
  planned := h.planned
  keeps := h.keeps.trans hgrows.toKeeps
  place := hgrows.locate h.place
  file := by
    rcases hgrows.changed l with hkept | ⟨q, ⟨-, hproduct⟩, hl⟩
    · exact hkept.trans h.file
    · obtain ⟨x, hx⟩ := aggregator_of_ofText hs
      obtain ⟨dir, name, rfl, -⟩ := hproduct.exists_child hs
      have hplace : b.locate ((s.placement .python).root.child (x ++ Target.python.moduleExtension)) =
          .ok l := hx ▸ h.place
      obtain ⟨hlast, y, hy⟩ := getLast?_of_locate_module hplace
      obtain ⟨hlast', z, hz⟩ := getLast?_of_locate_module hl
      rw [hy] at hlast
      rw [hz] at hlast'
      cases eq_of_moduleExtension (Option.some.inj (hlast.symm.trans hlast'))
  others k hk := by
    rcases hgrows.changed k with hkept | hchanged
    · rcases h.others k hk with hsame | ⟨q, hq, hl⟩
      · exact .inl (hkept.trans hsame)
      · exact .inr ⟨q, hq, hgrows.locate hl⟩
    · exact .inr hchanged

/-- That the aggregator has come to stand in a tree that comes from `a`. -/
def Registers (s : Settings) (t : ClassTable) (asked : List Target) (a b : FileTree) : Prop :=
  ∃ u l modules, Keeps a u ∧ Registered s t asked u b l modules

theorem ensures_writePackage (h : Keeps a b) :
    (Script.writePackage s (s.placement .python)).Ensures (Grows (Beside s t asked))
      (fun _ => Registers s t asked a) b := by
  intro u answer _ hrely hlook
  obtain ⟨rfl, rfl⟩ := Op.run_look_eq_ok_iff.1 hlook
  refine Script.ensures_lift_bind fun modules hmodules => Script.ensures_lift_bind fun text htext => ?_
  obtain rfl := Except.ok.inj ((packageText_eq _ _).symm.trans htext)
  intro c _ c' hraised hraise d _ d' hput hwrite
  obtain ⟨l, hplace, hentry⟩ := FileTree.exists_entry?_write (Op.run_put_eq_ok_iff.1 hwrite)
  have hraise : Grows (Beside s t asked) c c' := (FileTree.grows_of_run_ensureParent hraise).mono nofun
  have hgrows := (hraised.trans hraise).trans hput
  have hlast : Keeps d d' := Op.keeps_perform hwrite
  refine ⟨_, l, modules, h.trans hrely.toKeeps, hmodules, hgrows.toKeeps.trans hlast, hplace, ?_,
    fun k hk => ?_⟩
  · exact FileTree.file?_of_entry_eq ((hentry l).trans (if_pos rfl))
  · rw [FileTree.file?_congr ((hentry k).trans (if_neg hk.symm))]
    exact (hgrows.changed k).imp_right fun ⟨q, hq, hl⟩ => ⟨q, hq, hlast.locate hl⟩

theorem ensures_aggregate (generated : List Path) (h : Keeps a b) :
    (Script.aggregate s .python generated).Ensures (Grows (Beside s t asked))
      (fun _ => Registers s t asked a) b :=
  (Script.ensures_keeps (fun hgrows => hgrows.toKeeps) _ h).bind fun _ _ hkeeps =>
    (ensures_writePackage hkeeps).bind fun _ _ => id

/-- How far the aggregator has come with the package. -/
def Work.Registering (s : Settings) (t : ClassTable) (asked : List Target) (a b : FileTree) : Work → Prop
  | .modules _ => True
  | .together _ _ rest => rest.Ensures (Grows (Beside s t asked)) (fun _ => Registers s t asked a) b
  | .ended _ => Registers s t asked a b

theorem Advances.registering {w w' : Work} (h : Advances s .python b w c w') (hkeeps : Keeps a b)
    (hw : w.Registering s t asked a b) : w'.Registering s t asked a c := by
  cases h with
  | task => trivial
  | join => exact ensures_aggregate _ hkeeps
  | aggregate hrun => exact hw _ _ _ (.refl _ b) hrun
  | close => exact hw

theorem Work.Registering.grows {text : String} (hs : Settings.ofText text = .ok s) {w : Work}
    (h : w.Registering s t asked a b) (hgrows : Grows (Beside s t asked) b c) :
    w.Registering s t asked a c := by
  have hstable : ∀ {b c}, Registers s t asked a b → Grows (Beside s t asked) b c → Registers s t asked a c :=
    fun ⟨_, _, _, hkeeps, hregistered⟩ hgrows => ⟨_, _, _, hkeeps, hregistered.grows hs hgrows⟩
  cases w with
  | modules tasks => trivial
  | together generated skipped rest =>
    exact Script.Ensures.later h (fun h h' => h.trans h') (fun _ _ _ => hstable) hgrows
  | ended report => exact hstable h hgrows

theorem registering_of_moves {text : String} (hs : Settings.ofText text = .ok s)
    (hjobs : ∀ job ∈ jobs, t.resolve job.scheduled.className = .ok job.resolved) {S : State}
    (hmoves : ReflTransGen (Moves s (targets s asked)) (a, start s t jobs) S) :
    (∃ W, Told s t (targets s asked) jobs (fun _ => False) a W S) ∧
      (S.2 .python).Registering s t asked a S.1 := by
  induction hmoves with
  | refl => exact ⟨⟨_, told_start hjobs _ a⟩, trivial⟩
  | @tail S S' _ hmove ih =>
    obtain ⟨⟨W, htold⟩, hwork⟩ := ih
    refine ⟨htold.step hmove, ?_⟩
    obtain @⟨b, c, work, target, w, mem, hadv⟩ := hmove
    dsimp only at hwork ⊢
    cases target with
    | python =>
      rw [Function.update_self]
      exact hadv.registering htold.grows.toKeeps hwork
    | javascript =>
      rw [Function.update_of_ne (by decide)]
      obtain ⟨new, -, hfootprint, hproducts⟩ := hadv.tells mem (htold.works .javascript mem)
      exact hwork.grows hs (hfootprint.toGrows.mono fun q hq => ⟨mem, hproducts q hq⟩)

/-- Each run writes the aggregator anew from what it finds. -/
theorem RunsTo.registers {text : String} (hs : Settings.ofText text = .ok s)
    (hserved : .python ∈ targets s asked) {report : Report} (h : RunsTo s t asked a (.ok report) b) :
    Registers s t asked a b := by
  cases h with
  | reported _ hinterleaves =>
    obtain ⟨work, hmoves, hend⟩ := hinterleaves
    have hwork := (registering_of_moves hs (fun _ hjob => (mem_jobs_iff.1 hjob).2) hmoves).2
    obtain ⟨r, -, hr⟩ := List.mem_map.1 (hend ▸ List.mem_map_of_mem hserved)
    dsimp only at hwork
    rwa [← hr] at hwork

/-- Once it stands, or some run has written it, the aggregator stands. -/
theorem Runs.stands {text : String} (hs : Settings.ofText text = .ok s) {n : Nat}
    (hruns : Runs s t asked n a b) (hserved : .python ∈ targets s asked)
    (h : 0 < n ∨ a.isFile (aggregatorPath s) = true) : b.isFile (aggregatorPath s) = true := by
  cases hruns with
  | none => exact h.resolve_left (by simp)
  | next _ last =>
    obtain ⟨u, l, modules, -, hregistered⟩ := last.registers hs hserved
    exact hregistered.isFile

/-- A module at the place of the aggregator is imported exactly if the aggregator goes by more than a file
name, stood there before, and is listed like any other module. -/
theorem Registered.imported_iff {text : String} (hs : Settings.ofText text = .ok s)
    (h : Registered s t asked u b l modules) (hl : l = root ++ (above ++ [stem ++ ".py"])) :
    Imported (.ofSettings s) (s.placement .python) u root above stem ↔
      '/' ∈ s.python.aggregator.toList ∧ (u.file? l).isSome ∧ above.any isSkippedDir = false ∧
        isArtifact (stem ++ ".py") = false ∧ stem ++ ".py" ≠ packageMarker ∧
        stem ++ ".py" ∉ s.python.denied ∧
        ∀ x, stem = x ++ "_autogen" → ¬ Meets u root (above ++ [x ++ ".py"]) := by
  have hname : Text.lastPiece '/' s.python.aggregator = stem ++ ".py" := by
    have hlast := getLast?_of_locate_aggregator hs h.place
    rw [hl, ← List.append_assoc, List.getLast?_append, List.getLast?_singleton, Option.some_or] at hlast
    exact (Option.some.inj hlast).symm
  have hother : stem ++ ".py" ≠ s.python.aggregator ↔ '/' ∈ s.python.aggregator.toList := by
    rw [← hname, Ne, Text.lastPiece_eq_self_iff, Decidable.not_not]
  have hmeets : Meets u root (above ++ [stem ++ ".py"]) ↔
      (u.file? l).isSome ∧ above.any isSkippedDir = false := by
    rw [Meets, ← hl, List.dropLast_concat]
  have hbars : ¬ (PackageRules.ofSettings s).Bars (stem ++ ".py") ↔ isArtifact (stem ++ ".py") = false ∧
      stem ++ ".py" ≠ packageMarker ∧ stem ++ ".py" ≠ s.python.aggregator ∧
        stem ++ ".py" ∉ s.python.denied := by
    simp only [PackageRules.Bars, PackageRules.ofSettings, not_or, Bool.not_eq_true, Ne]
  constructor
  · rintro ⟨hmet, hfree, hlast⟩
    obtain ⟨hplain, hmarker, hown, hdenied⟩ := hbars.1 hfree
    obtain ⟨hfile, habove⟩ := hmeets.1 hmet
    exact ⟨hother.1 hown, hfile, habove, hplain, hmarker, hdenied, hlast⟩
  · rintro ⟨hslash, hfile, habove, hplain, hmarker, hdenied, hlast⟩
    exact ⟨hmeets.2 ⟨hfile, habove⟩, hbars.2 ⟨hplain, hmarker, hother.2 hslash, hdenied⟩, hlast⟩

/-- The module of an aggregator that goes by its file name is imported only where the way to another module
is written like it. -/
theorem own_mem_modules_iff (haggregator : s.python.aggregator = stem ++ ".py")
    (h : planPackage (.ofSettings s) (s.placement .python) u = .ok modules) :
    "." ++ stem ∈ modules ↔ ∃ root above name, u.locate (s.placement .python).root = .ok root ∧
      Imported (.ofSettings s) (s.placement .python) u root above name ∧ above ≠ [] ∧
        ".".intercalate (above ++ [name]) = stem := by
  rw [Aggregate.mem_planPackage_iff h]
  constructor
  · rintro ⟨root, above, name, hroot, himp, hown⟩
    have hspelled : ".".intercalate (above ++ [name]) = stem := ((String.append_right_inj _).1 hown).symm
    refine ⟨root, above, name, hroot, himp, ?_, hspelled⟩
    rintro rfl
    -- Only the aggregator itself has this name in the output root.
    rw [List.nil_append, String.intercalate_singleton] at hspelled
    exact himp.free (.inr (.inr (.inl (hspelled ▸ haggregator.symm))))
  · rintro ⟨root, above, name, hroot, himp, -, rfl⟩
    exact ⟨root, above, name, hroot, himp, rfl⟩

theorem dot_mem_intercalate {name : String} (h : above ≠ []) :
    '.' ∈ (".".intercalate (above ++ [name])).toList := by
  obtain ⟨first, rest, rfl⟩ := List.exists_cons_of_ne_nil h
  rw [List.cons_append, String.intercalate_cons_of_ne_nil (by simp)]
  simp

/-- An aggregator that goes by its file name is never imported by itself, one that goes by a longer path from
the second run on.

The lines of the aggregator that the last of some successful runs leaves, each run in whatever order of its
operations, are imports of the modules that are listed in the tree it was planned from. Among them is the
module at its own place exactly if the configured text is more than a file name, the aggregator stood there
before, as it does after an earlier run, and nothing else keeps its file from being listed. Where the text is
a file name, its module path is that of another module further down or is not imported. -/
theorem aggregator_imports_itself_iff {text : String} (hs : Settings.ofText text = .ok s)
    (hserved : .python ∈ targets s asked) {n : Nat} (hruns : Runs s t asked (n + 1) before after) :
    let p := s.placement .python
    let r := PackageRules.ofSettings s
    ∃ u l modules, Registered s t asked u after l modules ∧
      (0 < n ∨ before.isFile (aggregatorPath s) = true → (u.file? l).isSome) ∧
      (∀ m, m ∈ modules ↔ ∃ root above stem, u.locate p.root = .ok root ∧
        Imported r p u root above stem ∧ m = "." ++ ".".intercalate (above ++ [stem])) ∧
      (∀ root above stem, u.locate p.root = .ok root → l = root ++ (above ++ [stem ++ ".py"]) →
        (Imported r p u root above stem ↔
          '/' ∈ s.python.aggregator.toList ∧ (u.file? l).isSome ∧ above.any isSkippedDir = false ∧
            isArtifact (stem ++ ".py") = false ∧ stem ++ ".py" ≠ packageMarker ∧
            stem ++ ".py" ∉ s.python.denied ∧
            ∀ x, stem = x ++ "_autogen" → ¬ Meets u root (above ++ [x ++ ".py"]))) ∧
      ∀ stem, s.python.aggregator = stem ++ ".py" → '/' ∉ stem.toList →
        p.modulePath? (aggregatorPath s) = some ("." ++ stem) ∧
        ("." ++ stem ∈ modules ↔ ∃ root above name, u.locate p.root = .ok root ∧
          Imported r p u root above name ∧ above ≠ [] ∧ ".".intercalate (above ++ [name]) = stem) ∧
        ('.' ∉ stem.toList → (∀ m ∈ modules, '\n' ∉ m.toList) →
          ∀ line ∈ Text.pieces '\n' (Text.ofLines (packageHead ++ modules.map importLine)),
            line ≠ importLine ("." ++ stem)) := by
  intro p r
  cases hruns with
  | @next _ _ c _ report hearlier hlast =>
  obtain ⟨u, l, modules, hkeeps, h⟩ := hlast.registers hs hserved
  refine ⟨u, l, modules, h, fun hstands => ?_, fun m => Aggregate.mem_planPackage_iff h.planned,
    fun root above stem _ hl => h.imported_iff hs hl, fun stem haggregator hslash => ⟨?_,
      own_mem_modules_iff haggregator h.planned, fun hdot hends line hline heq => ?_⟩⟩
  · obtain ⟨k, hk, hfile⟩ := FileTree.isFile_iff.1 (hearlier.stands hs hserved hstands)
    have hplace := h.keeps.locate (hkeeps.locate hk)
    rw [Except.ok.inj (h.place.symm.trans hplace)]
    exact hkeeps.files k hfile
  · have hname : Entries.isName (stem ++ ".py") = true :=
      Entries.isName_append hslash (by decide) ⟨'p', by decide⟩
    have hmodule : p.modulePath? (([] ++ [stem ++ ".py"]).foldl Path.child p.root) =
        some ("." ++ ".".intercalate ([] ++ [stem])) :=
      Aggregate.modulePath?_file (p := p) stem fun n hn => by rwa [List.mem_singleton.1 hn]
    simp only [List.nil_append, String.intercalate_singleton] at hmodule
    rw [aggregatorPath, haggregator]
    exact hmodule
  · rw [heq, Aggregate.importLine_mem_lines_iff hends, own_mem_modules_iff haggregator h.planned] at hline
    obtain ⟨root, above, name, -, -, habove, rfl⟩ := hline
    exact hdot (dot_mem_intercalate habove)

/-- Settings with an aggregator in a directory. -/
def nested : Settings := { python := { aggregator := "sub/agg.py" } }

/-- The tree after the module of the class of the table was written. -/
def withModule (a : FileTree) : FileTree := (generate nested loneTable .python loneJob).after a

/-- The tree after a run for the class of the table. -/
def withAggregator (a : FileTree) : FileTree :=
  (Aggregate.write nested .python [⟨"python/Ring_autogen.py"⟩]).after (withModule a)

theorem run_nested {aggregates : List Path}
    (hmodule : ((generate nested loneTable .python loneJob).run a).1 =
      .ok (.generated ⟨"python/Ring_autogen.py"⟩))
    (haggregates : ((Aggregate.write nested .python [⟨"python/Ring_autogen.py"⟩]).run (withModule a)).1 =
      .ok aggregates) :
    ∃ report, RunsTo nested loneTable [.python] a (.ok report) (withAggregator a) := by
  have hunits : SourceUnit.enumerate nested loneTable a = .ok [⟨"Ring", "Ring"⟩] := by cbv
  have htargets : targets nested [.python] = [.python] := by decide
  have hmodules : ([Target.python].mapM fun target => do
      return (target, ← [loneJob].mapM (generate nested loneTable target)) : Step FileTree _).run a =
      (.ok [(.python, [.generated ⟨"python/Ring_autogen.py"⟩])], withModule a) :=
    Step.run_mapM_cons (run_modules (Step.run_mapM_cons (Step.run_eq_after hmodule) rfl)) rfl
  have htogether : (Aggregate.write nested .python
      (generatedOf [.generated ⟨"python/Ring_autogen.py"⟩])).run (withModule a) =
      (.ok aggregates, withAggregator a) := by
    rw [generatedOf_singleton]
    exact Step.run_eq_after haggregates
  have hserve : (serve nested loneTable [.python] [loneJob]).run a = _ :=
    Step.run_bind_eq_ok_iff.2 ⟨_, withModule a, hmodules,
      Step.run_mapM_cons (run_putTogether htogether) rfl⟩
  rw [← htargets, ← jobs_lone] at hserve
  exact ⟨_, runsTo_of_run ((run_of_enumerate hunits [.python]).trans
    (Step.run_bind_pure_eq_ok_iff.2 ⟨_, hserve, rfl⟩))⟩

/-- What two runs write, and where the aggregator and the output root are after them. -/
theorem withAggregator_spec :
    (((generate nested loneTable .python loneJob).run FileTree.empty).1 =
        .ok (.generated ⟨"python/Ring_autogen.py"⟩) ∧
      ((Aggregate.write nested .python [⟨"python/Ring_autogen.py"⟩]).run (withModule .empty)).1 =
        .ok [⟨"python/__init__.py"⟩, ⟨"python/sub/agg.py"⟩]) ∧
    (((generate nested loneTable .python loneJob).run (withAggregator .empty)).1 =
        .ok (.generated ⟨"python/Ring_autogen.py"⟩) ∧
      ((Aggregate.write nested .python [⟨"python/Ring_autogen.py"⟩]).run
        (withModule (withAggregator .empty))).1 = .ok [⟨"python/sub/agg.py"⟩]) ∧
    (withAggregator (withAggregator .empty)).locate (aggregatorPath nested) =
      .ok ["python", "sub", "agg.py"] ∧
    (withAggregator (withAggregator .empty)).locate (nested.placement .python).root = .ok ["python"] := by
  decide +kernel

theorem runs_nested : Runs nested loneTable [.python] 2 .empty (withAggregator (withAggregator .empty)) := by
  obtain ⟨⟨hmodule, haggregates⟩, ⟨hmodule', haggregates'⟩, -⟩ := withAggregator_spec
  obtain ⟨_, hfirst⟩ := run_nested hmodule haggregates
  obtain ⟨_, hsecond⟩ := run_nested hmodule' haggregates'
  exact .next (.next (.none _) hfirst) hsecond

/-- The second run lists what the first one has written. -/
theorem aggregator_imports_itself_nested :
    Settings.ofText "[python]\naggregator = \"sub/agg.py\"\n" = .ok nested ∧
      .python ∈ targets nested [.python] ∧
      Runs nested loneTable [.python] 2 .empty (withAggregator (withAggregator .empty)) ∧
      ∃ u modules, Registered nested loneTable [.python] u (withAggregator (withAggregator .empty))
        ["python", "sub", "agg.py"] modules ∧ ".sub.agg" ∈ modules := by
  have hs : Settings.ofText "[python]\naggregator = \"sub/agg.py\"\n" = .ok nested := by
    decide +kernel
  have hserved : .python ∈ targets nested [.python] := by decide
  obtain ⟨-, -, hplace, houtput⟩ := withAggregator_spec
  obtain ⟨u, l, modules, h, hstands, hmodules, himported, -⟩ :=
    aggregator_imports_itself_iff hs hserved runs_nested
  obtain rfl := Except.ok.inj (h.place.symm.trans hplace)
  have hfile := hstands (.inl (by decide))
  have hstands : (u.entry? (["python"] ++ ["sub", "agg.py"])).isSome :=
    FileTree.isSome_entry?_of_file? hfile
  have hdir : u.entry? ["python"] = some .dir := (FileTree.dirs_above hstands).1 (by simp)
  have hroot := FileTree.locate_of_plain (by decide) h.keeps.home.symm houtput hdir
  have hlast : ∀ x, "agg" = x ++ "_autogen" → ¬ Meets u ["python"] (["sub"] ++ [x ++ ".py"]) :=
    fun x hx => absurd (Text.endsWith_iff.2 ⟨x, hx⟩) (by decide)
  have himp := (himported ["python"] ["sub"] "agg" hroot rfl).2
    ⟨by decide, hfile, by decide, by decide, by decide, by decide, hlast⟩
  exact ⟨hs, hserved, runs_nested, u, modules, h, (hmodules _).2 ⟨_, _, _, hroot, himp, by decide⟩⟩

end WrapperGen.Generation
