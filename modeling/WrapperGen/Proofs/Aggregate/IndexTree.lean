import Mathlib.Data.List.Forall2
import WrapperGen.Proofs.Aggregate.Listing
import WrapperGen.Proofs.FileTree.Writes

/-!
# The tree of indexes

An output tree has one index for each directory that can be reached from its root without entering a
directory that is skipped. An index exports the indexes of the directories in its own, no more and no
less, so all of them are reached from the top one, each in one way.
-/

namespace WrapperGen

/-- Of two lists that stand to each other element by element, each element has a partner. -/
theorem exists_of_forall₂ {α β : Type} {R : α → β → Prop} {xs : List α} {ys : List β}
    (h : List.Forall₂ R xs ys) : (∀ x ∈ xs, ∃ y ∈ ys, R x y) ∧ ∀ y ∈ ys, ∃ x ∈ xs, R x y := by
  induction h with
  | nil => simp
  | cons head _ ih =>
    obtain ⟨hleft, hright⟩ := ih
    simp only [List.mem_cons, forall_eq_or_imp, exists_eq_or_imp]
    exact ⟨⟨.inl head, fun x hx => .inr (hleft x hx)⟩, .inl head, fun y hy => .inr (hright y hy)⟩

namespace Aggregate

/-- The directories below a location that can be reached without entering one that is skipped. -/
inductive Reachable (t : FileTree) (l : Location) : List String → Prop
  | top : Reachable t l []
  | sub {names : List String} {d : String} (above : Reachable t l names)
      (stands : t.entry? (l ++ (names ++ [d])) = some .dir) (entered : isSkippedDir d = false) :
      Reachable t l (names ++ [d])

variable {p : Placement} {t : FileTree} {l : Location} {names : List String} {d : String}

theorem reachable_concat_iff :
    Reachable t l (names ++ [d]) ↔
      Reachable t l names ∧ t.entry? (l ++ (names ++ [d])) = some .dir ∧ isSkippedDir d = false := by
  refine ⟨fun h => ?_, fun ⟨habove, hstands, hentered⟩ => .sub habove hstands hentered⟩
  generalize hwhole : names ++ [d] = whole at h
  cases h with
  | top => simp at hwhole
  | sub above stands entered =>
    obtain ⟨rfl, hlast⟩ := List.append_inj' hwhole rfl
    obtain rfl := List.singleton_inj.1 hlast
    exact ⟨above, stands, entered⟩

/-- A walk meets the directories that can be reached. -/
theorem reachable_iff (hdir : t.entry? l = some .dir) :
    Reachable t l names ↔ t.entry? (l ++ names) = some .dir ∧ isMet names .dir = true := by
  induction names using List.reverseRecOn with
  | nil => simp [isMet, hdir, Reachable.top]
  | append_singleton names d ih =>
    rw [reachable_concat_iff, ih]
    constructor
    · rintro ⟨⟨-, hmet⟩, hstands, hentered⟩
      exact ⟨hstands, by simpa [isMet, hentered] using hmet⟩
    · rintro ⟨hstands, hmet⟩
      have hmet' : isMet names .dir = true ∧ isSkippedDir d = false := by simpa [isMet] using hmet
      have hstands' : (t.entry? (l ++ names ++ [d])).isSome := by rw [List.append_assoc, hstands]; rfl
      have habove : t.entry? (l ++ names) = some .dir := (FileTree.isName_of_stands hstands').2
      exact ⟨⟨habove, hmet'.1⟩, hstands, hmet'.2⟩

theorem Reachable.isName (h : Reachable t l names) : ∀ n ∈ names, Entries.isName n = true := by
  induction h with
  | top => simp
  | sub above stands entered ih => exact (FileTree.dirs_above (Option.isSome_of_eq_some stands)).2

/-- What an index is, given the directories that have one. -/
structure IsIndexOf (p : Placement) (dirs : List (List String)) (plan : IndexPlan) (names : List String) :
    Prop where
  path : plan.path = (names.foldl Path.child p.root).child indexFile
  top : plan.top = true ↔ names = []
  exports : ∀ d, indexIn d ∈ plan.modules ↔ names ++ [d] ∈ dirs

/-- Plans are the indexes of the directories that can be reached, the root first and every directory
before those in it. -/
structure IndexTree (p : Placement) (t : FileTree) (l : Location) (plans : List IndexPlan)
    (dirs : List (List String)) : Prop where
  each : List.Forall₂ (IsIndexOf p dirs) plans dirs
  complete : ∀ names, names ∈ dirs ↔ Reachable t l names
  distinct : dirs.Nodup
  first : dirs.head? = some []
  parents : dirs.Pairwise fun above names => ¬ names <+: above

theorem isIndexOf_indexOf {r : IndexRules} {dirs : List (List String)} {v : FileTree.Visit}
    (hdirs : ∀ names, names ∈ dirs ↔ Reachable t l names) (hv : v.names ∈ dirs)
    (hpath : v.path = v.names.foldl Path.child p.root) :
    IsIndexOf p dirs (indexOf r p t l v) v.names where
  path := by rw [indexOf, hpath]
  top := by simp [indexOf]
  exports d := by
    have hfiles : ∀ f ∈ filesOf (t.children (l ++ v.names)), Entries.isName f = true := fun f hf =>
      (FileTree.isName_of_stands (FileTree.isSome_entry?_of_file? (mem_filesOf.1 hf))).1
    rw [indexOf, indexIn_mem_indexModules_iff hfiles, mem_dirsOf, hdirs, reachable_concat_iff,
      List.append_assoc]
    exact (and_iff_right ((hdirs _).1 hv)).symm

theorem exists_indexTree (r : IndexRules) (hroot : t.locate p.root = .ok l)
    (hdir : t.entry? l = some .dir) :
    ∃ plans dirs, planIndexes r p t = .ok plans ∧ IndexTree p t l plans dirs := by
  obtain ⟨rest, hwalk, hordered⟩ := FileTree.walk_of_dir hroot hdir isMet
  generalize hvisits : (⟨[], p.root, .dir⟩ :: rest : List FileTree.Visit) = visits at hwalk hordered
  have hmem : ∀ names, names ∈ (visits.filter (·.entry.isDir)).map (·.names) ↔ Reachable t l names := by
    intro names
    rw [reachable_iff hdir]
    simp only [List.mem_map, List.mem_filter, FileTree.mem_walk hroot hwalk]
    constructor
    · rintro ⟨⟨names, path, e⟩, ⟨⟨he, hmet, -⟩, hisDir⟩, rfl⟩
      cases e with
      | file contents => simp [Entry.isDir] at hisDir
      | dir => exact ⟨he, hmet.elim (fun hnil => by dsimp only at hnil; rw [hnil]; rfl) id⟩
    · rintro ⟨he, hmet⟩
      exact ⟨⟨names, names.foldl Path.child p.root, .dir⟩, ⟨⟨he, .inr hmet, rfl⟩, rfl⟩, rfl⟩
  refine ⟨(visits.filter (·.entry.isDir)).map (indexOf r p t l), _, ?_, ?_, hmem, ?_, ?_, ?_⟩
  · rw [planIndexes, if_pos (FileTree.isDir_iff.2 ⟨l, hroot, hdir⟩), hroot, hwalk]
    rfl
  · rw [List.forall₂_map_left_iff, List.forall₂_map_right_iff, List.forall₂_same]
    intro v hv
    have hmet := (FileTree.mem_walk hroot hwalk).1 (List.mem_filter.1 hv).1
    exact isIndexOf_indexOf hmem (List.mem_map_of_mem hv) hmet.2.2
  · refine List.pairwise_map.2 ((hordered.filter _).imp fun h heq => ?_)
    exact h (heq ▸ List.prefix_refl _)
  · rw [← hvisits]
    rfl
  · exact List.pairwise_map.2 (hordered.filter _)

/-- Where the module by which an index exports that of a directory in its own leads to. -/
def IndexPlan.exportPath (plan : IndexPlan) (d : String) : Path :=
  ((plan.path.parent?.getD ⟨""⟩).child d).child indexFile

/-- The index that is found from the top one by following exports, directory by directory. -/
inductive Leads (plans : List IndexPlan) : List String → IndexPlan → Prop
  | top {plan : IndexPlan} (mem : plan ∈ plans) (top : plan.top = true) : Leads plans [] plan
  | sub {names : List String} {d : String} {plan next : IndexPlan} (above : Leads plans names plan)
      (exported : indexIn d ∈ plan.modules) (mem : next ∈ plans)
      (there : next.path.same (plan.exportPath d) = true) : Leads plans (names ++ [d]) next

section tree

variable {plans : List IndexPlan} {dirs : List (List String)} {plan next : IndexPlan}
  {names' : List String}

theorem IsIndexOf.components (h : IsIndexOf p dirs plan names)
    (hnames : ∀ n ∈ names, Entries.isName n = true) :
    plan.path.components = (p.root.components ++ names.map .name) ++ [.name indexFile] := by
  rw [h.path, Path.components_child _ (by decide), Path.components_foldl_child p.root hnames]

theorem IsIndexOf.names_eq (h : IsIndexOf p dirs plan names) (h' : IsIndexOf p dirs plan names')
    (hnames : ∀ n ∈ names, Entries.isName n = true) (hnames' : ∀ n ∈ names', Entries.isName n = true) :
    names = names' := by
  have hsame := (h.components hnames).symm.trans (h'.components hnames')
  rw [List.append_cancel_right_eq, List.append_cancel_left_eq] at hsame
  exact Path.map_name_injective hsame

/-- An export leads to the index of the directory that it names. -/
theorem IsIndexOf.same_exportPath_iff (h : IsIndexOf p dirs plan names)
    (h' : IsIndexOf p dirs next names')
    (hnames : ∀ n ∈ names ++ [d], Entries.isName n = true)
    (hnames' : ∀ n ∈ names', Entries.isName n = true) :
    next.path.same (plan.exportPath d) = true ↔ names' = names ++ [d] := by
  obtain ⟨dir, hparent, hdir⟩ := Path.exists_parent
    (h.components fun n hn => hnames n (List.mem_append_left _ hn))
  have hexport : (plan.exportPath d).components =
      (p.root.components ++ (names ++ [d]).map .name) ++ [.name indexFile] := by
    rw [IndexPlan.exportPath, hparent, Option.getD_some, Path.components_child _ (by decide),
      Path.components_child _ (hnames d (by simp)), hdir]
    simp
  rw [Path.same, decide_eq_true_eq, h'.components hnames', hexport, List.append_cancel_right_eq,
    List.append_cancel_left_eq]
  exact Path.map_name_injective.eq_iff

namespace IndexTree

variable (h : IndexTree p t l plans dirs)

include h

theorem isName (hnames : names ∈ dirs) : ∀ n ∈ names, Entries.isName n = true :=
  ((h.complete names).1 hnames).isName

theorem exists_names (hplan : plan ∈ plans) : ∃ names ∈ dirs, IsIndexOf p dirs plan names :=
  (exists_of_forall₂ h.each).1 plan hplan

theorem exists_plan (hnames : names ∈ dirs) : ∃ plan ∈ plans, IsIndexOf p dirs plan names :=
  (exists_of_forall₂ h.each).2 names hnames

theorem exists_exported (hplan : plan ∈ plans) (hexported : indexIn d ∈ plan.modules) :
    ∃ next ∈ plans, next.path.same (plan.exportPath d) = true := by
  obtain ⟨names, -, hindex⟩ := h.exists_names hplan
  have hsub := (hindex.exports d).1 hexported
  obtain ⟨next, hnext, hindex'⟩ := h.exists_plan hsub
  exact ⟨next, hnext, (hindex.same_exportPath_iff hindex' (h.isName hsub) (h.isName hsub)).2 rfl⟩

/-- Exports lead to the index of the directory at the names that are followed. -/
theorem isIndexOf_of_leads (hleads : Leads plans names plan) :
    names ∈ dirs ∧ IsIndexOf p dirs plan names := by
  induction hleads with
  | @top plan mem top =>
    obtain ⟨names, hnames, hindex⟩ := h.exists_names mem
    obtain rfl := hindex.top.1 top
    exact ⟨hnames, hindex⟩
  | @sub names d plan next above exported mem there ih =>
    obtain ⟨-, hindex⟩ := ih
    have hsub := (hindex.exports d).1 exported
    obtain ⟨names', hnames', hindex'⟩ := h.exists_names mem
    obtain rfl := (hindex.same_exportPath_iff hindex' (h.isName hsub) (h.isName hnames')).1 there
    exact ⟨hsub, hindex'⟩

theorem leads_of_isIndexOf (hnames : names ∈ dirs) (hplan : plan ∈ plans)
    (hindex : IsIndexOf p dirs plan names) : Leads plans names plan := by
  induction names using List.reverseRecOn generalizing plan with
  | nil => exact .top hplan (hindex.top.2 rfl)
  | append_singleton names d ih =>
    have habove := (h.complete names).2 (reachable_concat_iff.1 ((h.complete _).1 hnames)).1
    obtain ⟨above, hmem, hindex'⟩ := h.exists_plan habove
    have hthere := (hindex'.same_exportPath_iff hindex (h.isName hnames) (h.isName hnames)).2 rfl
    exact .sub (ih habove hmem hindex') ((hindex'.exports d).2 hnames) hplan hthere

theorem existsUnique_leads (hplan : plan ∈ plans) : ∃! names, Leads plans names plan := by
  obtain ⟨names, hnames, hindex⟩ := h.exists_names hplan
  refine ⟨names, h.leads_of_isIndexOf hnames hplan hindex, fun names' hleads => ?_⟩
  obtain ⟨hnames', hindex'⟩ := h.isIndexOf_of_leads hleads
  exact hindex'.names_eq hindex (h.isName hnames') (h.isName hnames)

end IndexTree

end tree

/-- Of an output tree that stands, whatever is in it and whatever the rules, the planned indexes form one
closed tree: one for each directory that can be reached, the top one first and every one before those further
down, each exporting just the indexes of the directories in its own. So no export leads to an index that is
missing, and every index is reached from the top one in exactly one way. -/
theorem planIndexes_indexTree (r : IndexRules) (p : Placement) (t : FileTree) (h : t.isDir p.root = true) :
    ∃ l plans dirs, t.locate p.root = .ok l ∧ planIndexes r p t = .ok plans ∧
      IndexTree p t l plans dirs ∧
      (∀ plan ∈ plans, ∀ d, indexIn d ∈ plan.modules →
        ∃ next ∈ plans, next.path.same (plan.exportPath d) = true) ∧
      ∀ plan ∈ plans, ∃! names, Leads plans names plan := by
  obtain ⟨l, hroot, hdir⟩ := FileTree.isDir_iff.1 h
  obtain ⟨plans, dirs, hplans, htree⟩ := exists_indexTree r hroot hdir
  exact ⟨l, plans, dirs, hroot, hplans, htree, fun plan hplan d => htree.exists_exported hplan,
    fun plan => htree.existsUnique_leads⟩

/-- An output tree with a directory that is entered and one that is not. -/
def cachedTree : FileTree :=
  ((FileTree.empty.put ["js"] .dir).put ["js", "cameras"] .dir).put ["js", ".cache"] .dir

theorem planIndexes_indexTree_cached :
    cachedTree.isDir ⟨"js"⟩ = true ∧
      ∃ plans, ∃ dirs : List (List String),
        planIndexes ⟨"_base", []⟩ ⟨.javascript, ⟨"js"⟩⟩ cachedTree = .ok plans ∧
        ["cameras"] ∈ dirs ∧ [".cache"] ∉ dirs ∧
        (∃ plan ∈ plans, Leads plans ["cameras"] plan) ∧ plans.length = dirs.length := by
  have hdir : cachedTree.isDir ⟨"js"⟩ = true := by decide +kernel
  obtain ⟨l, plans, dirs, hroot, hplans, htree, -, -⟩ :=
    planIndexes_indexTree ⟨"_base", []⟩ ⟨.javascript, ⟨"js"⟩⟩ cachedTree hdir
  have hjs : cachedTree.locate ⟨"js"⟩ = .ok ["js"] := by decide +kernel
  obtain rfl : ["js"] = l := Except.ok.inj (hjs.symm.trans hroot)
  have hcameras : ["cameras"] ∈ dirs :=
    (htree.complete _).2 (.sub .top (by decide +kernel) (by decide))
  obtain ⟨plan, hplan, hindex⟩ := htree.exists_plan hcameras
  refine ⟨hdir, plans, dirs, hplans, hcameras, fun hcache => ?_,
    ⟨plan, hplan, htree.leads_of_isIndexOf hcameras hplan hindex⟩, htree.each.length_eq⟩
  have hreached : Reachable cachedTree ["js"] ([] ++ [".cache"]) := (htree.complete _).1 hcache
  exact absurd (reachable_concat_iff.1 hreached).2.2 (by decide)

end Aggregate
end WrapperGen
