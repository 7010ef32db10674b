import WrapperGen.Proofs.Concurrency.Ensures
import WrapperGen.Proofs.Concurrency.Interleaving

/-!
# Putting modules together aside from others

Where a target language has a place of its own, what puts its modules together is planned from one listing of
that place and comes to stand there as planned, whatever others do elsewhere in between. Since the modules were
written only markers come before the listing, and only indexes or the aggregator after it.
-/

namespace WrapperGen

open FileTree (Keeps Agree Aside)

namespace FileTree

/-- Nothing is taken away, and below the location `R` only files in places of `N` are new or changed. -/
structure Retains (R : Location) (N : List String → Prop) (b c : FileTree) : Prop where
  keeps : Keeps b c
  files : ∀ names, ¬ N names → c.file? (R ++ names) = b.file? (R ++ names)

namespace Retains

variable {R : Location} {N M : List String → Prop} {a b c d : FileTree}

theorem trans (h : Retains R N b c) (h' : Retains R N c d) : Retains R N b d :=
  ⟨h.keeps.trans h'.keeps, fun names hnot => (h'.files names hnot).trans (h.files names hnot)⟩

theorem mono (h : Retains R N b c) (sub : ∀ names, N names → M names) : Retains R M b c :=
  ⟨h.keeps, fun names hnot => h.files names fun hn => hnot (sub names hn)⟩

/-- A file elsewhere still holds its text. -/
theorem holds {p : Path} {text : String} {names : List String} (h : Retains R N b c) (hb : Keeps a b)
    (hholds : b.Holds p text) (haim : a.aim? p = some (R ++ names)) (hnot : ¬ N names) : c.Holds p text :=
  hholds.of_keeps h.keeps fun l hl => by rw [eq_of_locate hb.home haim hl, h.files names hnot]

end Retains

theorem Aside.retains {R : Location} {N : List String → Prop} {b c : FileTree} (h : Aside R b c) :
    Retains R N b c := ⟨h.keeps, fun names _ => file?_congr (h.agree names).symm⟩

end FileTree

open FileTree (Retains)

variable {a b c d u : FileTree} {R : Location} {N : List String → Prop}

/-- An operation changes no files but those that it puts. -/
theorem Op.retains {op : Op} {answer : op.Answer} (hin : op.Inside a R) (hb : Keeps a b)
    (hrun : op.perform.run b = (.ok answer, c))
    (hN : ∀ names x, op.made a answer (R ++ names) = some (.file x) → N names) : Retains R N b c := by
  have hkeeps := Op.keeps_perform hrun
  refine ⟨hkeeps, fun names hnot => ?_⟩
  have hentry := Op.entry?_perform hin hb hrun (R ++ names)
  cases hmade : op.made a answer (R ++ names) with
  | none => exact FileTree.file?_congr (hentry.trans (by rw [hmade, Option.none_or]))
  | some e =>
    cases e with
    | file x => exact absurd (hN names x hmade) hnot
    | dir =>
      have hnone : c.file? (R ++ names) = none := by rw [FileTree.file?, hentry, hmade]; rfl
      rw [hnone]
      by_contra hfile
      have hkept := hkeeps.files _ (Option.isSome_iff_ne_none.2 (Ne.symm hfile))
      simp [hnone] at hkept

namespace Script

variable {p : Path} {names : List String} {n : String}

/-- A file that is written holds its text, and below the place nothing else changes. Where its directory stood
there are no new directories. -/
theorem ensures_write (haims : a.Aims p (R ++ names) n) (hb : Keeps a b) (text : String) :
    (write p text).Ensures (Aside R) (fun _ d => Retains R (· = names ++ [n]) b d ∧ d.Holds p text ∧
      (b.entry? (R ++ names) = some .dir →
        ∀ k, d.entry? (R ++ k) = some .dir → b.entry? (R ++ k) = some .dir)) b := by
  intro c _ c' hbefore hraise d _ d' hbetween hput
  have hin : (Op.raise p).Inside a R := ⟨names, n, haims⟩
  have hin' : (Op.put p text).Inside a R := ⟨names, n, haims⟩
  have hc := hb.trans hbefore.keeps
  have hd := (hc.trans (Op.keeps_perform hraise)).trans hbetween.keeps
  have hraised : Retains R (· = names ++ [n]) c c' := Op.retains hin hc hraise fun k x hmade => by
    rw [Op.made, haims.2.1, Option.bind_some] at hmade
    split at hmade <;> cases hmade
  have hwritten : Retains R (· = names ++ [n]) d d' := Op.retains hin' hd hput fun k x hmade => by
    rw [Op.made, haims.2.1, List.append_assoc] at hmade
    split at hmade
    · next hplace => exact ((List.append_right_inj R).1 (Option.some.inj hplace)).symm
    · cases hmade
  refine ⟨((hbefore.retains.trans hraised).trans hbetween.retains).trans hwritten,
    FileTree.holds_of_write (Op.run_put_eq_ok_iff.1 hput), fun hdir k hk => ?_⟩
  rw [Op.entry?_perform hin' hd hput, Op.made] at hk
  split at hk
  · cases hk
  rw [Option.none_or, ← hbetween.agree k, Op.entry?_perform hin hc hraise, Op.made, haims.2.1,
    Option.bind_some, List.dropLast_concat] at hk
  split at hk
  · next hle =>
    -- A directory on the way to one that stood stood as well.
    obtain ⟨rest, hrest⟩ := hle
    by_cases hnil : rest = []
    · rwa [← List.append_nil (R ++ k), ← hnil, hrest]
    · exact (FileTree.dirs_above (by rw [hrest, hdir]; rfl)).1 hnil
  · rwa [Option.none_or, ← hbefore.agree k] at hk

theorem ensures_ensure (haims : a.Aims p (R ++ names) n) (hb : Keeps a b) :
    (ensure p).Ensures (Aside R) (fun _ d => Retains R (· = names ++ [n]) b d ∧ d.present p = true) b := by
  intro c _ c' hbefore hraise d made d' hbetween hcreate
  have hin : (Op.raise p).Inside a R := ⟨names, n, haims⟩
  have hin' : (Op.create p).Inside a R := ⟨names, n, haims⟩
  have hc := hb.trans hbefore.keeps
  have hd := (hc.trans (Op.keeps_perform hraise)).trans hbetween.keeps
  have hraised : Retains R (· = names ++ [n]) c c' := Op.retains hin hc hraise fun k x hmade => by
    rw [Op.made, haims.2.1, Option.bind_some] at hmade
    split at hmade <;> cases hmade
  have hcreated : Retains R (· = names ++ [n]) d d' := Op.retains hin' hd hcreate fun k x hmade => by
    rw [Op.made, haims.2.1, List.append_assoc] at hmade
    split at hmade
    · next hplace => exact ((List.append_right_inj R).1 (Option.some.inj hplace.2)).symm
    · cases hmade
  refine ⟨((hbefore.retains.trans hraised).trans hbetween.retains).trans hcreated, ?_⟩
  obtain ⟨hn, -, before, hpieces⟩ := haims
  rcases Op.run_create_cases hcreate with ⟨-, hcreate⟩ | ⟨-, hcreate, rfl⟩
  · obtain ⟨s, hspot, hnamed, hslash, hfree, rfl⟩ := FileTree.create_eq_ok_iff.1 hcreate
    have hdir : d.holdsDir s.location = false := by simp [FileTree.holdsDir, hfree]
    obtain ⟨l, hl, hfile⟩ := FileTree.isFile_iff.1
      (FileTree.isFile_put_spot hspot hnamed hslash hdir .empty).2
    exact FileTree.present_iff.2 ⟨l, hl, FileTree.isSome_entry?_of_file? hfile⟩
  · exact FileTree.present_of_create hn hpieces hcreate

end Script

namespace Generation

open Aggregate (indexFile packageMarker)

/-- Where below an output root there are markers. -/
def Marks : Target → List String → Prop
  | .javascript, _ => False
  | .python, names => ∃ above, names = above ++ [packageMarker]

/-- Where below an output root there are files that list the modules. -/
def Lists (s : Settings) : Target → List String → Prop
  | .javascript, names => ∃ above, names = above ++ [indexFile]
  | .python, names => names = [s.python.aggregator]

/-- In the tree `d` stand the markers, and the files that list the modules as they are planned from the
tree `u`. -/
def Stands (s : Settings) (generated : List Path) (u d : FileTree) : Target → Prop
  | .javascript => ∃ plans, Aggregate.planIndexes (.ofSettings s) (s.placement .javascript) u = .ok plans ∧
      ∀ plan ∈ plans, ∃ text, Aggregate.indexText s.library plan = .ok text ∧ d.Holds plan.path text
  | .python =>
    (∀ dir ∈ Aggregate.markerDirs (s.placement .python) generated,
      d.present (dir.child packageMarker) = true) ∧
    ∃ modules text, Aggregate.planPackage (.ofSettings s) (s.placement .python) u = .ok modules ∧
      Aggregate.packageText s.python.aggregator modules = .ok text ∧
      d.Holds ((s.placement .python).root.child s.python.aggregator) text

/-- Between `b` and `d` modules are put together at a place of the tree: after the markers the tree was listed
in `u`, and since then the files were written that list the modules. -/
structure Together (s : Settings) (target : Target) (R : Location) (generated : List Path)
    (b u d : FileTree) : Prop where
  marked : Retains R (Marks target) b u
  listed : Retains R (Lists s target) u d
  dirs : target = .javascript → ∀ names, d.entry? (R ++ names) = some .dir →
    u.entry? (R ++ names) = some .dir
  stands : Stands s generated u d target

variable {s : Settings} {t : ClassTable} {target : Target} {jobs : List Job} {generated : List Path}
  {report : TargetReport}

namespace Site

theorem ensures_writeIndexes (h : Site s t .javascript jobs a R) (hb : Keeps a b) :
    (Script.writeIndexes s (s.placement .javascript)).Ensures (Aside R)
      (fun _ d => ∃ u, Together s .javascript R generated b u d) b := by
  intro _ _ u hbefore hlook
  obtain ⟨rfl, rfl⟩ := Op.run_look_eq_ok_iff.1 hlook
  refine Script.ensures_lift_bind fun plans hplans => ?_
  refine (Script.ensures_mapM (I := fun ready d => Retains R (Lists s .javascript) u d ∧
    (∀ names, d.entry? (R ++ names) = some .dir → u.entry? (R ++ names) = some .dir) ∧
    ∀ plan ∈ ready, ∃ text, Aggregate.indexText s.library plan = .ok text ∧ d.Holds plan.path text)
    ⟨(Aside.refl R u).retains, fun _ => id, nofun⟩ fun ready plan rest hsplit c hc => ?_).mono
      fun _ d hd => ⟨u, hbefore.retains, hd.1, fun _ => hd.2.1, plans, hplans, hd.2.2⟩
  obtain ⟨hlisted, hdirs, hready⟩ := hc
  have hplan : ∀ other ∈ ready ++ [plan], other ∈ plans := fun other hother => by
    rw [hsplit, List.append_cons]
    exact List.mem_append_left rest hother
  have hlook := hb.trans hbefore.keeps
  obtain ⟨names, hdir, heq, haims⟩ := h.aims_index hlook hplans (hplan plan (by simp))
  refine Script.ensures_lift_bind fun text htext => ?_
  refine (Script.ensures_write haims (hlook.trans hlisted.keeps) text).bind fun _ d hd => ?_
  obtain ⟨hwritten, hholds, hnone⟩ := hd
  refine ⟨hlisted.trans (hwritten.mono fun _ hn => ⟨names, hn⟩),
    fun k hk => hdirs k (hnone (hlisted.keeps.dirs _ hdir) k hk), fun other hother => ?_⟩
  rcases List.mem_append.1 hother with hother | hother
  · obtain ⟨names', -, heq', -, haim, -⟩ :=
      h.aims_index hlook hplans (hplan other (List.mem_append_left _ hother))
    -- An index in the same place is the same index.
    by_cases hsame : names' = names
    · rw [heq', hsame, ← heq]
      exact ⟨text, htext, hholds⟩
    · obtain ⟨text', htext', hholds'⟩ := hready other hother
      rw [List.append_assoc] at haim
      refine ⟨text', htext', hwritten.holds (hlook.trans hlisted.keeps) hholds' haim fun hplace => ?_⟩
      exact hsame (List.append_cancel_right hplace)
  · rw [List.mem_singleton.1 hother]
    exact ⟨text, htext, hholds⟩

theorem ensures_ensureMarkers (h : Site s t .python jobs a R) (hb : Keeps a b)
    (hfiles : ∀ file ∈ generated, ∃ job ∈ jobs, file = job.file s .python) :
    ((Aggregate.markerDirs (s.placement .python) generated).mapM Script.ensureMarker).Ensures (Aside R)
      (fun _ d => Retains R (Marks .python) b d ∧
        ∀ dir ∈ Aggregate.markerDirs (s.placement .python) generated,
          d.present (dir.child packageMarker) = true) b := by
  refine Script.ensures_mapM (I := fun (ready : List Path) d => Retains R (Marks .python) b d ∧
    ∀ dir ∈ ready, d.present (dir.child packageMarker) = true) ?_ ?_
  · exact ⟨(Aside.refl R b).retains, nofun⟩
  intro ready dir rest hsplit c hc
  obtain ⟨hmarked, hready⟩ := hc
  have hdir : dir ∈ Aggregate.markerDirs (s.placement .python) generated :=
    hsplit ▸ List.mem_append_right ready List.mem_cons_self
  obtain ⟨names, haims⟩ := h.aims_marker hfiles hdir
  refine (Script.ensures_ensure haims (hb.trans hmarked.keeps)).bind fun made d hd => ?_
  refine ⟨hmarked.trans (hd.1.mono fun _ hn => ⟨names, hn⟩), fun other hother => ?_⟩
  rcases List.mem_append.1 hother with hother | hother
  · exact hd.1.keeps.present (hready other hother)
  · rw [List.mem_singleton.1 hother]
    exact hd.2

theorem ensures_writePackage (h : Site s t .python jobs a R) (hb : Keeps a b) (hc : Retains R (Marks .python) b c)
    (hmarkers : ∀ dir ∈ Aggregate.markerDirs (s.placement .python) generated,
      c.present (dir.child packageMarker) = true) :
    (Script.writePackage s (s.placement .python)).Ensures (Aside R)
      (fun _ d => ∃ u, Together s .python R generated b u d) c := by
  intro _ _ u hbefore hlook
  obtain ⟨rfl, rfl⟩ := Op.run_look_eq_ok_iff.1 hlook
  refine Script.ensures_lift_bind fun modules hmodules => Script.ensures_lift_bind fun text htext => ?_
  have hkeeps := (hb.trans hc.keeps).trans hbefore.keeps
  refine (Script.ensures_write (h.aims_aggregator rfl) hkeeps text).bind fun _ d hd => ?_
  refine ⟨u, hc.trans hbefore.retains, hd.1.mono fun _ hn => hn, nofun, fun dir hdir => ?_, modules, text,
    hmodules, htext, hd.2.1⟩
  exact hd.1.keeps.present (hbefore.keeps.present (hmarkers dir hdir))

/-- What puts modules together ends with the files that are planned, whatever others do elsewhere. -/
theorem ensures_aggregate (h : Site s t target jobs a R) (hb : Keeps a b)
    (hfiles : ∀ file ∈ generated, ∃ job ∈ jobs, file = job.file s target) :
    (Script.aggregate s target generated).Ensures (Aside R)
      (fun _ d => ∃ u, Together s target R generated b u d) b := by
  cases target with
  | javascript => exact h.ensures_writeIndexes hb
  | python =>
    refine (h.ensures_ensureMarkers hb hfiles).bind fun _ c hc => ?_
    exact (h.ensures_writePackage hb hc.1 hc.2).bind fun _ _ hd => hd

end Site

namespace Together

variable {v : FileTree}

/-- What others do elsewhere changes nothing of it. -/
theorem of_aside (h : Site s t target jobs a R) (hb : Keeps a b)
    (htogether : Together s target R generated b u c) (haside : Aside R c d) :
    Together s target R generated b u d where
  marked := htogether.marked
  listed := htogether.listed.trans haside.retains
  dirs hserved names hdir := htogether.dirs hserved names ((haside.agree names).trans hdir)
  stands := by
    have hlook := hb.trans htogether.marked.keeps
    have hkept := hlook.trans htogether.listed.keeps
    have hholds : ∀ {p : Path} {text : String} {names : List String}, c.Holds p text →
        a.aim? p = some (R ++ names) → d.Holds p text := fun hc haim =>
      (haside.retains (N := fun _ => False)).holds hkept hc haim id
    cases target with
    | javascript =>
      obtain ⟨plans, hplans, hindexes⟩ := htogether.stands
      refine ⟨plans, hplans, fun plan hplan => ?_⟩
      obtain ⟨names, -, -, -, haim, -⟩ := h.aims_index hlook hplans hplan
      obtain ⟨text, htext, hindex⟩ := hindexes plan hplan
      exact ⟨text, htext, hholds hindex (List.append_assoc .. ▸ haim)⟩
    | python =>
      obtain ⟨hmarkers, modules, text, hmodules, htext, hpackage⟩ := htogether.stands
      exact ⟨fun dir hdir => haside.keeps.present (hmarkers dir hdir), modules, text, hmodules, htext,
        hholds hpackage (List.append_assoc .. ▸ (h.aims_aggregator rfl).2.1)⟩

end Together

/-- What a script ensures when it puts modules together aside from others, a target language ends with. -/
theorem Serves.ensures {skipped : List Skipped} {m : Script (List Path)} {P : FileTree → Prop}
    (hm : m.Ensures (Aside R) (fun _ => P) b) (hP : ∀ b c, P b → Aside R b c → P c)
    (hserves : Serves s target R b (.together generated skipped m) d report) :
    P d ∧ ∃ aggregates, report = ⟨target, generated, skipped, aggregates⟩ := by
  generalize hw : Work.together generated skipped m = w at hserves
  induction hserves generalizing m with
  | ended => exact nomatch hw
  | @step b b' c d w w' report haside hadv hrest ih =>
    subst hw
    cases hadv with
    | aggregate hrun => exact ih (hm b' _ _ haside hrun) rfl
    | close =>
      cases hrest with
      | ended => exact ⟨hP _ _ hm haside, _, rfl⟩
      | step _ hadv => cases hadv

end Generation
end WrapperGen
