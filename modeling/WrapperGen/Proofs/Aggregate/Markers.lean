import WrapperGen.Generation.Aggregation
import WrapperGen.Proofs.Aggregate.MarkerDirs
import WrapperGen.Proofs.FileTree.Aims
import WrapperGen.Proofs.FileTree.Footprint

/-!
# Package markers

Ensuring the markers of some directories leaves everything that stands as it is and tells which markers it
has created. These are the files that were missing, each told of once: of directories that are one and the
same, however they are written, it is the first that has its marker created. Where the directories lie
below the output root by names, no two are the same, and the markers told of are those that were missing.
-/

namespace WrapperGen.Aggregate

open FileTree (Keeps Extends Footprint)

variable {p : Placement} {files dirs more created created' : List Path} {d m : Path}
  {a b c t : FileTree} {made : List (Option Path)} {o : Option Path}

theorem isName_packageMarker : Entries.isName packageMarker = true := by decide

theorem run_ensureMarker_eq_ok_iff : (ensureMarker d : Step FileTree (Option Path)).run a = (.ok o, b) ↔
    ∃ new, (FileTree.ensureFile (d.child packageMarker)).run a = (.ok new, b) ∧
      o = if new then some (d.child packageMarker) else none :=
  Step.run_bind_pure_eq_ok_iff

theorem run_ensureMarkers_eq_ok_iff :
    (ensureMarkers p files : Step FileTree (List Path)).run a = (.ok created, b) ↔
      ∃ made, ((markerDirs p files).mapM ensureMarker).run a = (.ok made, b) ∧
        created = made.filterMap id :=
  Step.run_bind_pure_eq_ok_iff

/-- From `a` to `b` the markers of some directories were ensured, of which some were created. -/
structure Marked (a b : FileTree) (dirs created : List Path) : Prop where
  /-- Everything that stood stands as it was. -/
  kept : Extends a b
  /-- What is told of are new files, and there are no other ones. -/
  footprint : Footprint (fun _ => False) (· ∈ created) a b
  stands : ∀ d ∈ dirs, b.present (d.child packageMarker) = true
  sublist : created.Sublist (dirs.map (·.child packageMarker))
  /-- No file is told of twice. -/
  places : (created.map b.locate).Nodup
  /-- What is told of is the first marker that leads to its file. -/
  first : ∀ m ∈ created, ∃ earlier later, dirs.map (·.child packageMarker) = earlier ++ m :: later ∧
    ∀ m' ∈ earlier, b.locate m' ≠ b.locate m
  empty : ∀ m ∈ created, ∀ l, b.locate m = .ok l → b.file? l = some .empty
  again : ∀ c, Keeps b c → (dirs.mapM ensureMarker).run c = (.ok (dirs.map fun _ => none), c)

namespace Marked

theorem nil (a : FileTree) : Marked a a [] [] where
  kept := .refl a
  footprint := (Footprint.refl _ a).congr (by simp)
  stands := nofun
  sublist := .slnil
  places := .nil
  first := nofun
  empty := nofun
  again _ _ := rfl

/-- A file that is told of stands where its path leads from then on. -/
theorem locate_eq (h : Marked a b dirs created) (hkeeps : Keeps b c) (hm : m ∈ created) :
    ∃ l, b.locate m = .ok l ∧ c.locate m = .ok l ∧ (b.file? l).isSome := by
  obtain ⟨l, hl, hfile⟩ := FileTree.isFile_iff.1 (h.footprint.listed m hm)
  exact ⟨l, hl, hkeeps.locate hl, hfile⟩

/-- Once it is ensured, a marker leads where it leads from then on. -/
theorem locate_marker (h : Marked a b dirs created) (hkeeps : Keeps b c)
    (hm : m ∈ dirs.map (·.child packageMarker)) :
    ∃ l, b.locate m = .ok l ∧ c.locate m = .ok l ∧ (b.entry? l).isSome := by
  obtain ⟨d, hd, rfl⟩ := List.mem_map.1 hm
  obtain ⟨l, hl, hstands⟩ := FileTree.present_iff.1 (h.stands d hd)
  exact ⟨l, hl, hkeeps.locate hl, hstands⟩

theorem append (h : Marked a b dirs created) (h' : Marked b c more created') :
    Marked a c (dirs ++ more) (created ++ created') where
  kept := h.kept.trans h'.kept
  footprint := (h.footprint.trans h'.footprint).congr (by simp)
  stands d hd := (List.mem_append.1 hd).elim (fun hd => h'.kept.toKeeps.present (h.stands d hd))
    (h'.stands d)
  sublist := by
    rw [List.map_append]
    exact h.sublist.append h'.sublist
  places := by
    have hfirst : created.map c.locate = created.map b.locate := List.map_congr_left fun m hm => by
      obtain ⟨l, hl, hl', -⟩ := h.locate_eq h'.kept.toKeeps hm
      rw [hl, hl']
    rw [List.map_append, hfirst]
    refine List.nodup_append.2 ⟨h.places, h'.places, fun x hx y hy hsame => ?_⟩
    -- What is created later stands where nothing stood before.
    obtain ⟨m, hm, rfl⟩ := List.mem_map.1 hx
    obtain ⟨m', hm', rfl⟩ := List.mem_map.1 hy
    obtain ⟨l, hl, -, hfile⟩ := h.locate_eq h'.kept.toKeeps hm
    have hfree := h'.footprint.fresh m' l hm' id (hsame.symm.trans hl)
    simp [FileTree.file?, hfree] at hfile
  first m hm := by
    rw [List.map_append]
    rcases List.mem_append.1 hm with hm | hm
    · obtain ⟨earlier, later, hmarkers, hfirst⟩ := h.first m hm
      refine ⟨earlier, later ++ more.map (·.child packageMarker), by simp [hmarkers], fun m' hm' => ?_⟩
      obtain ⟨l, hl, hl', -⟩ := h.locate_eq h'.kept.toKeeps hm
      obtain ⟨k, hk, hk', -⟩ := h.locate_marker h'.kept.toKeeps (m := m') (by simp [hmarkers, hm'])
      rw [hk', hl', ← hk, ← hl]
      exact hfirst m' hm'
    · obtain ⟨earlier, later, hmarkers, hfirst⟩ := h'.first m hm
      refine ⟨dirs.map (·.child packageMarker) ++ earlier, later, by simp [hmarkers], fun m' hm' hsame => ?_⟩
      rcases List.mem_append.1 hm' with hm' | hm'
      · obtain ⟨k, -, hk', hstands⟩ := h.locate_marker h'.kept.toKeeps hm'
        have hfree := h'.footprint.fresh m k hm id (hsame.symm.trans hk')
        simp [hfree] at hstands
      · exact hfirst m' hm' hsame
  empty m hm l hl := by
    rcases List.mem_append.1 hm with hm | hm
    · obtain ⟨k, hk, hk', -⟩ := h.locate_eq h'.kept.toKeeps hm
      obtain rfl : k = l := Except.ok.inj (hk'.symm.trans hl)
      exact FileTree.file?_of_entry_eq (h'.kept.stands k _ (FileTree.entry?_eq_of_file? (h.empty m hm k hk)))
    · exact h'.empty m hm l hl
  again e hkeeps := by
    have hfirst := h.again e (h'.kept.toKeeps.trans hkeeps)
    rw [List.mapM_append, List.map_append]
    exact Step.run_bind_eq_ok_iff.2 ⟨_, e, hfirst,
      Step.run_bind_eq_ok_iff.2 ⟨_, e, h'.again e hkeeps, rfl⟩⟩

end Marked

/-- After a marker was ensured, something has its name. -/
theorem present_of_run_ensureFile {new : Bool}
    (h : (FileTree.ensureFile (d.child packageMarker)).run a = (.ok new, b)) :
    b.present (d.child packageMarker) = true := by
  obtain ⟨before, hpieces⟩ := d.exists_pieces_child packageMarker
  rw [Text.pieces_eq_singleton (by decide)] at hpieces
  obtain ⟨above, -, ⟨-, hcreate⟩ | ⟨-, hcreate, rfl⟩⟩ := FileTree.run_ensureFile_cases h
  · obtain ⟨s, hspot, hnamed, hslash, hfree, rfl⟩ := FileTree.create_eq_ok_iff.1 hcreate
    obtain ⟨hlocate, hfile⟩ :=
      FileTree.isFile_put_spot hspot hnamed hslash (by simp [FileTree.holdsDir, hfree]) .empty
    obtain ⟨l, hl, hstands⟩ := FileTree.isFile_iff.1 hfile
    exact FileTree.present_iff.2 ⟨l, hl, FileTree.isSome_entry?_of_file? hstands⟩
  · exact FileTree.present_of_create isName_packageMarker hpieces hcreate

theorem marked_of_run_ensureMarker
    (h : (ensureMarker d : Step FileTree (Option Path)).run a = (.ok o, b)) :
    Marked a b [d] o.toList := by
  obtain ⟨new, hrun, rfl⟩ := run_ensureMarker_eq_ok_iff.1 h
  obtain ⟨hkept, hagain⟩ := FileTree.ensureFile_again hrun
  have hfootprint : Footprint (fun _ => False)
      (· ∈ (if new then some (d.child packageMarker) else none).toList) a b :=
    (FileTree.footprint_ensureFile hrun).congr fun q => by cases new <;> simp
  refine ⟨hkept, hfootprint, ?_, by cases new <;> simp, by cases new <;> simp, fun m hm => ?_, ?_,
    fun c hkeeps => ?_⟩
  · rintro e he
    rw [List.mem_singleton.1 he]
    exact present_of_run_ensureFile hrun
  · cases new with
    | false => simp at hm
    | true =>
      obtain rfl : m = d.child packageMarker := by simpa using hm
      exact ⟨[], [], rfl, nofun⟩
  · intro m hm l hl
    obtain ⟨above, -, ⟨rfl, hcreate⟩ | ⟨rfl, -⟩⟩ := FileTree.run_ensureFile_cases hrun
    · obtain rfl : m = d.child packageMarker := by simpa using hm
      obtain ⟨s, hspot, hnamed, hslash, hfree, rfl⟩ := FileTree.create_eq_ok_iff.1 hcreate
      have hdir : above.holdsDir s.location = false := by simp [FileTree.holdsDir, hfree]
      have hplace := (FileTree.isFile_put_spot hspot hnamed hslash hdir .empty).1
      obtain rfl : s.location = l := Except.ok.inj (hplace.symm.trans hl)
      have hentry := FileTree.entry?_put_file hspot hnamed hdir .empty s.location
      exact FileTree.file?_of_entry_eq (hentry.trans (if_pos rfl))
    · simp at hm
  · exact Step.run_mapM_cons (run_ensureMarker_eq_ok_iff.2 ⟨false, hagain c hkeeps, rfl⟩) rfl

theorem marked_of_run (h : (dirs.mapM ensureMarker : Step FileTree _).run a = (.ok made, b)) :
    Marked a b dirs (made.filterMap id) := by
  induction dirs generalizing a made with
  | nil =>
    obtain ⟨rfl, rfl⟩ := Step.run_pure_eq_ok_iff.1 h
    exact .nil _
  | cons d dirs ih =>
    obtain ⟨o, rest, c, rfl, hfirst, hrest⟩ := Step.run_mapM_cons_eq_ok_iff.1 h
    have hall := (marked_of_run_ensureMarker hfirst).append (ih hrest)
    cases o <;> exact hall

section aims

variable {l : Location}

/-- Ensuring the marker of a directory makes the directories above it and the marker, and tells of the marker
if nothing stood in its place. -/
theorem entry?_of_run_ensureMarker (haim : t.aim? d = some l) (hkeeps : Keeps t a)
    (h : (ensureMarker d).run a = (.ok o, b)) :
    o = (if a.entry? (l ++ [packageMarker]) = none then some (d.child packageMarker) else none) ∧
      ∀ k, ¬ k <+: l → k ≠ l ++ [packageMarker] → b.entry? k = a.entry? k := by
  have haims := FileTree.aims_child haim isName_packageMarker
  obtain ⟨new, hrun, rfl⟩ := run_ensureMarker_eq_ok_iff.1 h
  obtain ⟨above, hparent, hcases⟩ := FileTree.run_ensureFile_cases hrun
  have habove := haims.entry?_ensureParent hkeeps hparent
  have hhome : above.home = t.home := (FileTree.ensureParent_again hparent).1.home.trans hkeeps.home
  have hbelow : ¬ l ++ [packageMarker] <+: l := fun hprefix => by
    have hlength := hprefix.length_le
    rw [List.length_append, List.length_singleton] at hlength
    omega
  have hplace : above.entry? (l ++ [packageMarker]) = a.entry? (l ++ [packageMarker]) := by
    rw [habove, if_neg hbelow]
  rw [← hplace]
  rcases hcases with ⟨rfl, hcreate⟩ | ⟨rfl, hcreate, rfl⟩
  · obtain ⟨hfree, hentry⟩ := FileTree.entry?_create hhome haims.2.1 hcreate
    exact ⟨by simp [hfree], fun k hk hne => by rw [hentry, if_neg hne, habove, if_neg hk]⟩
  · have hstands := Option.isSome_iff_ne_none.1 (haims.stands_of_create hhome hcreate)
    exact ⟨by simp [hstands], fun k hk _ => by rw [habove, if_neg hk]⟩

/-- Something has a name at the aim of a path exactly if something stands there. -/
theorem present_iff_of_aim (haim : t.aim? m = some l) (hkept : Extends t b)
    (hb : b.present m = true) : t.present m = true ↔ t.entry? l ≠ none := by
  obtain ⟨k, hk, -⟩ := FileTree.present_iff.1 hb
  obtain rfl := FileTree.eq_of_locate hkept.home haim hk
  rw [← Option.isSome_iff_ne_none]
  refine ⟨fun h => ?_, fun hstands => FileTree.present_iff.2 ⟨k, ?_, hstands⟩⟩
  · obtain ⟨there, hthere, hstands⟩ := FileTree.present_iff.1 h
    rwa [← FileTree.eq_of_locate rfl haim hthere]
  · refine FileTree.locate_of_aim hkept.home haim (.refl t) hk (fun hdir => ?_) hstands
    obtain ⟨e, he⟩ := Option.isSome_iff_exists.1 hstands
    rwa [← Option.some.inj ((hkept.stands k e he).symm.trans hdir)]

/-- Of directories none of which lies above an earlier one those markers are told of that were missing in the
beginning: making the directories above a marker takes no place of a later one. -/
theorem created_of_aims (hkept : Extends t a) (haims : ∀ d ∈ dirs, ∃ l, t.aim? d = some l)
    (hpairwise : dirs.Pairwise fun d e => ∀ l m, t.aim? d = some l → t.aim? e = some m → ¬ m <+: l)
    (hsame : ∀ d ∈ dirs, ∀ l, t.aim? d = some l →
      a.entry? (l ++ [packageMarker]) = t.entry? (l ++ [packageMarker]))
    (h : (dirs.mapM ensureMarker).run a = (.ok made, b)) :
    made.filterMap id = (dirs.map (·.child packageMarker)).filter fun m => !t.present m := by
  induction dirs generalizing a made with
  | nil =>
    obtain ⟨rfl, rfl⟩ := Step.run_pure_eq_ok_iff.1 h
    rfl
  | cons d dirs ih =>
    have hmarked := marked_of_run h
    obtain ⟨o, rest, c, rfl, hfirst, hrest⟩ := Step.run_mapM_cons_eq_ok_iff.1 h
    obtain ⟨hlater, hpairwise⟩ := List.pairwise_cons.1 hpairwise
    obtain ⟨l, hl⟩ := haims d List.mem_cons_self
    obtain ⟨ho, hentry⟩ := entry?_of_run_ensureMarker hl hkept.toKeeps hfirst
    have hothers := ih (hkept.trans (marked_of_run_ensureMarker hfirst).kept)
      (fun e he => haims e (List.mem_cons_of_mem d he)) hpairwise (fun e he m hm => ?_) hrest
    · have haim := (FileTree.aims_child hl isName_packageMarker).2.1
      have hpresent := present_iff_of_aim haim (hkept.trans hmarked.kept)
        (hmarked.stands d List.mem_cons_self)
      rw [hsame d List.mem_cons_self l hl] at ho
      rw [List.map_cons, List.filter_cons, ← hothers, ho]
      by_cases hfree : t.entry? (l ++ [packageMarker]) = none <;> simp [hfree, hpresent]
    · have hapart := hlater e he l m hl hm
      rw [hentry _ (fun hprefix => hapart ((List.prefix_append m _).trans hprefix)) ?_,
        hsame e (List.mem_cons_of_mem d he) m hm]
      intro heq
      exact hapart ((List.append_inj' heq rfl).1 ▸ List.prefix_refl m)

end aims

/-- What a list of created markers tells of two trees. -/
structure TellsMissing (t t' : FileTree) (markers created : List Path) : Prop where
  /-- The markers are listed in their order. -/
  sublist : created.Sublist markers
  /-- No file is listed twice. -/
  places : (created.map t'.locate).Nodup
  /-- What is listed is the first of the markers that lead to its place. -/
  first : ∀ m ∈ created, ∃ earlier later, markers = earlier ++ m :: later ∧
    ∀ m' ∈ earlier, t'.locate m' ≠ t'.locate m
  /-- What is listed was missing and is an empty file. -/
  fresh : ∀ m ∈ created, ∃ l, t'.locate m = .ok l ∧ t.entry? l = none ∧ t'.entry? l = some (.file .empty)
  /-- What was missing is listed, under this path or another one that leads there, unless a directory has
  come in its place. -/
  complete : ∀ m ∈ markers, ∀ l, t'.locate m = .ok l → t.entry? l = none → t'.entry? l ≠ some .dir →
    ∃ c ∈ created, t'.locate c = .ok l

theorem Marked.tellsMissing (h : Marked a b dirs created) :
    TellsMissing a b (dirs.map (·.child packageMarker)) created where
  sublist := h.sublist
  places := h.places
  first := h.first
  fresh m hm := by
    obtain ⟨l, hl, -⟩ := FileTree.isFile_iff.1 (h.footprint.listed m hm)
    exact ⟨l, hl, h.footprint.fresh m l hm id hl, FileTree.entry?_eq_of_file? (h.empty m hm l hl)⟩
  complete m hm l hl hfree hdir := by
    obtain ⟨d, hd, rfl⟩ := List.mem_map.1 hm
    obtain ⟨k, hk, hstands⟩ := FileTree.present_iff.1 (h.stands d hd)
    obtain rfl : k = l := Except.ok.inj (hk.symm.trans hl)
    have hfile := (FileTree.file?_isSome_or hstands).resolve_left hdir
    rcases h.footprint.changed k with hkept | ⟨c, hc, hplace⟩
    · have hnone : a.file? k = none := by simp [FileTree.file?, hfree]
      simp [hkept, hnone] at hfile
    · exact ⟨c, hc, hplace⟩

/-- The directories of the files that lie below the output root lie there by names. -/
def ByNames (p : Placement) (files : List Path) : Prop :=
  ∀ file ∈ files, ∀ dir, file.parent? = some dir → p.root.components <+: dir.components →
    ∃ names : List String, dir.components = p.root.components ++ names.map .name

theorem ByNames.exists_names (h : ByNames p files) (hd : d ∈ markerDirs p files) :
    ∃ names : List String, d.components = p.root.components ++ names.map .name := by
  obtain ⟨file, hfile, dir, hparent, ⟨more, hmore⟩, habove⟩ := exists_mem_markerDirs_iff.1 ⟨d, hd, rfl⟩
  rw [← hmore] at habove ⊢
  obtain ⟨names, hnames⟩ := h file hfile dir hparent ((List.prefix_append _ _).trans habove)
  rw [hnames, List.prefix_append_right_inj] at habove
  obtain ⟨front, -, rfl⟩ := List.prefix_map_iff.1 habove
  exact ⟨front, rfl⟩

/-- By names the markers told of are those that were missing. -/
theorem created_of_byNames (hnames : ByNames p files) {root : Location}
    (hroot : t.aim? p.root = some root)
    (h : ((markerDirs p files).mapM ensureMarker).run t = (.ok made, b)) :
    made.filterMap id =
      ((markerDirs p files).map (·.child packageMarker)).filter fun m => !t.present m := by
  have haim : ∀ d ∈ markerDirs p files, ∃ names : List String,
      d.components = p.root.components ++ names.map .name ∧ t.aim? d = some (root ++ names) := by
    intro d hd
    obtain ⟨names, hd⟩ := hnames.exists_names hd
    exact ⟨names, hd, FileTree.aim?_of_components hroot hd⟩
  refine created_of_aims (.refl t) (fun d hd => ?_) ?_ (fun _ _ _ _ => rfl) h
  · obtain ⟨names, -, hd⟩ := haim d hd
    exact ⟨_, hd⟩
  · refine (ascending_markerDirs p files).imp_of_mem fun {d e} hd he hlt l m hl hm hprefix => ?_
    obtain ⟨above, hcomponents, hd⟩ := haim d hd
    obtain ⟨below, hcomponents', he⟩ := haim e he
    obtain rfl := Option.some.inj (hl.symm.trans hd)
    obtain rfl := Option.some.inj (hm.symm.trans he)
    refine Lexicographic.not_prefix_of_compare hlt ?_
    rw [hcomponents, hcomponents', List.prefix_append_right_inj]
    exact ((List.prefix_append_right_inj root).1 hprefix).map _

/-- Every generated file lies in packages all the way up to the output root.

The directories that have to be packages are, by their components, those between the root and the directory
of a file below it, each once. Where ensuring their markers succeeds, each of them has its marker, nothing
that stood is changed, and ensuring them again creates none. The markers told of are the files that were
missing, each under the first path that leads to it; where the root leads to its place and the files lie below
it by names, they are the markers that were missing. -/
theorem packages_all_the_way_up (p : Placement) (files : List Path) :
    let dirs := markerDirs p files
    let markers := dirs.map (·.child packageMarker)
    (∀ d : Path, (∃ m ∈ dirs, m.same d = true) ↔ ∃ file ∈ files, ∃ dir, file.parent? = some dir ∧
      p.root.components <+: d.components ∧ d.components <+: dir.components) ∧
    (dirs.Pairwise fun d e => d.same e = false) ∧
    ∀ (t t' : FileTree) (created : List Path),
      (ensureMarkers p files).run t = (.ok created, t') →
        (∀ m ∈ markers, t'.present m = true) ∧
        (∀ l e, t.entry? l = some e → t'.entry? l = some e) ∧
        TellsMissing t t' markers created ∧
        ((t.aim? p.root).isSome → ByNames p files → created = markers.filter fun m => !t.present m) ∧
        (ensureMarkers p files).run t' = (.ok [], t') := by
  intro dirs markers
  refine ⟨fun d => ?_, ?_, fun t t' created hrun => ?_⟩
  · simp only [Path.same, decide_eq_true_eq]
    exact exists_mem_markerDirs_iff
  · refine (ascending_markerDirs p files).imp fun {d e} hlt => ?_
    simp only [Path.same, decide_eq_false_iff_not]
    exact fun hsame => Lexicographic.not_prefix_of_compare hlt (hsame ▸ List.prefix_refl _)
  · obtain ⟨made, hmade, rfl⟩ := run_ensureMarkers_eq_ok_iff.1 hrun
    have hmarked := marked_of_run hmade
    refine ⟨fun m hm => ?_, fun l e he => ?_, hmarked.tellsMissing, fun hroot hnames => ?_, ?_⟩
    · obtain ⟨d, hd, rfl⟩ := List.mem_map.1 hm
      exact hmarked.stands d hd
    · exact hmarked.kept.stands l e he
    · obtain ⟨root, hroot⟩ := Option.isSome_iff_exists.1 hroot
      exact created_of_byNames hnames hroot hmade
    · refine run_ensureMarkers_eq_ok_iff.2 ⟨_, hmarked.again t' (.refl t'), ?_⟩
      simp

/-- A package with a marker written by hand. -/
def markedTree : FileTree :=
  (FileTree.empty.put ["python"] .dir).put ["python", packageMarker] (.file "import json\n".toUTF8)

theorem packages_above_mesh :
    let p : Placement := ⟨.python, ⟨"python"⟩⟩
    let files : List Path := [⟨"python/core/Mesh_autogen.py"⟩, ⟨"elsewhere/Rim.py"⟩]
    ∃ t', (ensureMarkers p files).run markedTree = (.ok [⟨"python/core/__init__.py"⟩], t') ∧
      t'.entry? ["python", packageMarker] = some (.file "import json\n".toUTF8) ∧
      [⟨"python/core/__init__.py"⟩] =
        ((markerDirs p files).map (·.child packageMarker)).filter (fun m => !markedTree.present m) ∧
      (ensureMarkers p files).run t' = (.ok [], t') := by
  intro p files
  have hrun : ((ensureMarkers p files).run markedTree).1 = .ok [⟨"python/core/__init__.py"⟩] := by
    decide +kernel
  obtain ⟨-, -, heffect⟩ := packages_all_the_way_up p files
  obtain ⟨-, hkept, -, hmissing, hagain⟩ := heffect markedTree _ _ (Prod.ext hrun rfl)
  have hbynames : ByNames p files := by
    intro file hfile dir hparent hbelow
    rcases List.mem_cons.1 hfile with rfl | hfile
    · have hdir : (⟨"python/core/Mesh_autogen.py"⟩ : Path).parent? = some ⟨"python/core"⟩ := by decide
      obtain rfl := Option.some.inj (hparent.symm.trans hdir)
      exact ⟨["core"], by decide⟩
    · rw [List.mem_singleton.1 hfile] at hparent
      have hdir : (⟨"elsewhere/Rim.py"⟩ : Path).parent? = some ⟨"elsewhere"⟩ := by decide
      obtain rfl := Option.some.inj (hparent.symm.trans hdir)
      exact absurd hbelow (by decide)
  exact ⟨_, Prod.ext hrun rfl, hkept _ _ (by decide +kernel), hmissing (by decide +kernel) hbynames, hagain⟩

/-- Markers that were missing and are not told of: two directories are one and have one marker, and a
directory that comes on the way to a marker takes its place. -/
theorem missing_markers_untold :
    (let p : Placement := ⟨.python, ⟨""⟩⟩
      let files : List Path := [⟨"./Ring_autogen.py"⟩]
      (markerDirs p files).map (·.child packageMarker) = [⟨"__init__.py"⟩, ⟨"./__init__.py"⟩] ∧
        FileTree.empty.present ⟨"./__init__.py"⟩ = false ∧
        ((ensureMarkers p files).run FileTree.empty).1 = .ok [⟨"__init__.py"⟩]) ∧
      (let p : Placement := ⟨.python, ⟨"pkg/__init__.py/.."⟩⟩
        let files : List Path := [⟨"pkg/__init__.py/../Ring_autogen.py"⟩]
        (markerDirs p files).map (·.child packageMarker) = [⟨"pkg/__init__.py/../__init__.py"⟩] ∧
          FileTree.empty.present ⟨"pkg/__init__.py/../__init__.py"⟩ = false ∧
          ((ensureMarkers p files).run FileTree.empty).1 = .ok []) := by
  decide +kernel

end WrapperGen.Aggregate
