import WrapperGen.Proofs.Aggregate.Listing
import WrapperGen.Proofs.FileTree.Writes
import WrapperGen.Proofs.Names

/-!
# Listing an output tree again

Indexes and the aggregator are planned from what stands below an output root. They stay as planned where
only such files have come since that a listing overlooks, and none of them takes over from a generated
module next to it.
-/

namespace WrapperGen

open FileTree (Keeps)

namespace Aggregate

/-- What has come to a tree `c` since `a`, seen from an output tree: the root leads nowhere new, only
files with overlooked names have come, and none of them is the override of a generated module. -/
structure Unlisted (p : Placement) (overlooked : String → Prop) (a c : FileTree) : Prop where
  keeps : Keeps a c
  anchored : ∀ l, c.locate p.root = .ok l → c.entry? l = some .dir → a.entry? l = some .dir →
    a.locate p.root = .ok l
  fresh : ∀ root names name, c.locate p.root = .ok root → (c.file? (root ++ names ++ [name])).isSome →
    (a.file? (root ++ names ++ [name])).isSome ∨ overlooked name
  shadows : ∀ root names stem, c.locate p.root = .ok root →
    (c.file? (root ++ names ++ [stem ++ p.target.generatedSuffix])).isSome →
      (c.file? (root ++ names ++ [stem ++ p.target.moduleExtension])).isSome →
        (a.file? (root ++ names ++ [stem ++ p.target.moduleExtension])).isSome

/-- A name that no index lists. -/
def Unindexed (p : Placement) (name : String) : Prop :=
  name = indexFile ∨ ¬ Text.endsWith p.target.moduleExtension name = true

/-- A name that an aggregator never imports. -/
def Unimported (r : PackageRules) (name : String) : Prop := name = r.aggregator ∨ name ∈ r.denied

variable {p : Placement} {overlooked : String → Prop} {a c : FileTree} {root : Location}

theorem Unlisted.lists_eq {r : IndexRules} (h : Unlisted p (Unindexed p) a c)
    (hroot : c.locate p.root = .ok root) (inBase : Bool) (names : List String) :
    (Names.sorted (filesOf (a.children (root ++ names)))).filter
        (r.lists p inBase (filesOf (a.children (root ++ names)))) =
      (Names.sorted (filesOf (c.children (root ++ names)))).filter
        (r.lists p inBase (filesOf (c.children (root ++ names)))) := by
  generalize hplace : root ++ names = dir
  refine Names.filter_sorted_eq fun n => ?_
  have hsub : ∀ m, m ∈ filesOf (a.children dir) → m ∈ filesOf (c.children dir) := fun m hm =>
    mem_filesOf.2 (h.keeps.files _ (mem_filesOf.1 hm))
  by_cases hc : n ∈ filesOf (c.children dir)
  · by_cases hlisted : Text.endsWith p.target.moduleExtension n = true ∧ n ≠ indexFile
    · have ha : n ∈ filesOf (a.children dir) := by
        refine mem_filesOf.2 ((hplace ▸ h.fresh root names n hroot) (mem_filesOf.1 hc) |>.resolve_right ?_)
        rintro (hindex | hextension)
        · exact hlisted.2 hindex
        · exact hextension hlisted.1
      have hover : hasOverrideAmong p (filesOf (a.children dir)) n =
          hasOverrideAmong p (filesOf (c.children dir)) n := by
        have hname := (FileTree.isName_of_stands (FileTree.isSome_entry?_of_file? (mem_filesOf.1 hc))).1
        by_cases hgenerated : ∃ stem, n = stem ++ p.target.generatedSuffix
        · obtain ⟨stem, rfl⟩ := hgenerated
          rw [Bool.eq_iff_iff, hasOverrideAmong_iff hname, hasOverrideAmong_iff hname]
          exact ⟨hsub _, fun hmem =>
            mem_filesOf.2 ((hplace ▸ h.shadows root names stem hroot) (mem_filesOf.1 hc) (mem_filesOf.1 hmem))⟩
        · rw [not_exists] at hgenerated
          rw [hasOverrideAmong_eq_false hname hgenerated, hasOverrideAmong_eq_false hname hgenerated]
      simp only [ha, hc, IndexRules.lists, hover]
    · have hnone : ∀ files, r.lists p inBase files n = false := by
        intro files
        rw [not_and_or, Ne, Decidable.not_not] at hlisted
        rcases hlisted with hext | hindex
        · simp [IndexRules.lists, hext]
        · simp [IndexRules.lists, hindex]
      simp [hnone]
  · simp [hc, mt (hsub n) hc]

/-- In a directory whose directories were there, an index is planned as it was. -/
theorem Unlisted.indexOf_eq {r : IndexRules} {v w : FileTree.Visit} (h : Unlisted p (Unindexed p) a c)
    (hroot : c.locate p.root = .ok root) (hnames : w.names = v.names) (hpath : w.path = v.path)
    (hdirs : ∀ d, isSkippedDir d = false → c.entry? (root ++ v.names ++ [d]) = some .dir →
      a.entry? (root ++ v.names ++ [d]) = some .dir) :
    indexOf r p c root w = indexOf r p a root v := by
  have hsubdirs : dirsOf (c.children (root ++ v.names)) = dirsOf (a.children (root ++ v.names)) := by
    unfold dirsOf
    rw [← List.filterMap_eq_map, List.filterMap_filter, List.filterMap_filter]
    refine FileTree.filterMap_children_eq fun d => ?_
    by_cases hskipped : isSkippedDir d = true
    · simp [hskipped]
    rw [Bool.not_eq_true] at hskipped
    have hdir := hdirs d hskipped
    have hkept := h.keeps.dirs (root ++ v.names ++ [d])
    rcases hc : c.entry? (root ++ v.names ++ [d]) with _ | _ | x <;>
      rcases ha : a.entry? (root ++ v.names ++ [d]) with _ | _ | y <;>
        simp_all [Entry.isDir]
  unfold indexOf
  rw [hnames, hpath]
  simp only [indexModules, hsubdirs, h.lists_eq hroot]

/-- The index of a visit, if that is to a directory. -/
def indexOf? (r : IndexRules) (p : Placement) (t : FileTree) (root : Location) (v : FileTree.Visit) :
    Option IndexPlan :=
  if v.entry.isDir = true then some (indexOf r p t root v) else none

theorem planIndexes_eq_walk {r : IndexRules} {t : FileTree} {root : Location}
    (h : t.isDir p.root = true) (hroot : t.locate p.root = .ok root) :
    planIndexes r p t = (t.walk p.root isMet).map (·.filterMap (indexOf? r p t root)) := by
  unfold planIndexes
  rw [if_pos h, hroot]
  show (t.walk p.root isMet >>= fun visits => _) = _
  cases t.walk p.root isMet with
  | error e => rfl
  | ok visits =>
    refine congrArg Except.ok ?_
    rw [← List.filterMap_eq_map, List.filterMap_filter]
    rfl

/-- Every index that is planned is that of a directory which is met below the root. -/
theorem exists_dir_of_mem_planIndexes {r : IndexRules} {t : FileTree} {plans : List IndexPlan}
    (h : planIndexes r p t = .ok plans) {plan : IndexPlan} (hplan : plan ∈ plans) :
    ∃ root names, t.locate p.root = .ok root ∧ t.entry? (root ++ names) = some .dir ∧
      plan = indexOf r p t root ⟨names, names.foldl Path.child p.root, .dir⟩ := by
  by_cases hdir : t.isDir p.root = true
  · obtain ⟨root, hroot, -⟩ := FileTree.isDir_iff.1 hdir
    obtain ⟨visits, hwalk⟩ := FileTree.exists_walk hroot isMet
    rw [planIndexes_eq_walk hdir hroot, hwalk] at h
    obtain rfl := Except.ok.inj h
    obtain ⟨v, hv, hplan⟩ := List.mem_filterMap.1 hplan
    obtain ⟨hentry, -, hpath⟩ := (FileTree.mem_walk hroot hwalk).1 hv
    rw [indexOf?] at hplan
    split at hplan
    · next hisDir =>
      obtain rfl := Option.some.inj hplan
      have hfound : v.entry = .dir := by
        cases hv : v.entry with
        | dir => rfl
        | file x => simp [hv, Entry.isDir] at hisDir
      exact ⟨root, v.names, hroot, hfound ▸ hentry, by rw [← hpath, ← hfound]⟩
    · cases hplan
  · rw [planIndexes, if_neg hdir] at h
    obtain rfl : [] = plans := Except.ok.inj h
    cases hplan

section index

variable {r : IndexRules} (h : Unlisted p (Unindexed p) a c) (hroot : c.locate p.root = .ok root)
  (hdirs : ∀ names, isMet names .dir = true → c.entry? (root ++ names) = some .dir →
    a.entry? (root ++ names) = some .dir)

include h hroot hdirs

theorem Unlisted.indexOf?_eq (names : List String) :
    ((c.entry? (root ++ names)).bind fun e => if names = [] ∨ isMet names e = true then
        indexOf? r p c root ⟨names, names.foldl Path.child p.root, e⟩ else none) =
      (a.entry? (root ++ names)).bind fun e => if names = [] ∨ isMet names e = true then
        indexOf? r p a root ⟨names, names.foldl Path.child p.root, e⟩ else none := by
  have hkept := h.keeps.dirs (root ++ names)
  rcases hc : c.entry? (root ++ names) with _ | _ | x
  · rw [h.keeps.entry?_eq_none hc]
    rfl
  · by_cases hentered : isMet names .dir = true
    · have hindex : indexOf r p c root ⟨names, names.foldl Path.child p.root, .dir⟩ =
          indexOf r p a root ⟨names, names.foldl Path.child p.root, .dir⟩ := by
        refine h.indexOf_eq hroot rfl rfl fun d hd hdir => ?_
        rw [List.append_assoc] at hdir ⊢
        exact hdirs (names ++ [d]) (by simpa [isMet, hd] using hentered) hdir
      simp [hdirs names hentered hc, hentered, indexOf?, Entry.isDir, hindex]
    · -- What is not entered has no index in either tree.
      have hnil : names ≠ [] := by
        rintro rfl
        simp [isMet] at hentered
      rcases a.entry? (root ++ names) with _ | _ | y <;> simp [hnil, hentered, indexOf?, Entry.isDir]
  · rcases ha : a.entry? (root ++ names) with _ | _ | y
    · simp [indexOf?, Entry.isDir]
    · simp [hkept ha] at hc
    · simp [indexOf?, Entry.isDir]

end index

/-- Indexes are planned as they were, where no directory has come that they would enter. -/
theorem Unlisted.planIndexes_eq {r : IndexRules} (h : Unlisted p (Unindexed p) a c)
    (hdirs : ∀ root names, c.locate p.root = .ok root → isMet names .dir = true →
      c.entry? (root ++ names) = some .dir → a.entry? (root ++ names) = some .dir) :
    planIndexes r p c = planIndexes r p a := by
  by_cases hc : c.isDir p.root = true
  · obtain ⟨root, hroot, hdir⟩ := FileTree.isDir_iff.1 hc
    have hdir' := hdirs root [] hroot rfl (by simpa using hdir)
    rw [List.append_nil] at hdir'
    have hroot' := h.anchored root hroot hdir hdir'
    have ha : a.isDir p.root = true := FileTree.isDir_iff.2 ⟨root, hroot', hdir'⟩
    rw [planIndexes_eq_walk hc hroot, planIndexes_eq_walk ha hroot']
    exact FileTree.walk_filterMap_eq hroot hroot' (h.indexOf?_eq hroot fun names => hdirs root names hroot)
  · have ha : ¬ a.isDir p.root = true := fun ha => hc (h.keeps.isDir ha)
    rw [planIndexes, planIndexes, if_neg hc, if_neg ha]

/-- Files that come leave it as it was whether the override of a generated module is met. -/
theorem Unlisted.meets_override_iff (h : Unlisted p overlooked a c) (hroot : c.locate p.root = .ok root)
    {above : List String} {stem : String}
    (hfile : (c.file? (root ++ (above ++ [stem ++ p.target.generatedSuffix]))).isSome) :
    Meets c root (above ++ [stem ++ p.target.moduleExtension]) ↔
      Meets a root (above ++ [stem ++ p.target.moduleExtension]) := by
  unfold Meets
  rw [← List.append_assoc] at hfile ⊢
  exact and_congr_left fun _ => ⟨h.shadows _ _ stem hroot hfile, h.keeps.files _⟩

/-- The module of a visit that the aggregator imports, given all files that are met. -/
def importOf? (r : PackageRules) (p : Placement) (files : List Path) (v : FileTree.Visit) :
    Option String :=
  if (!v.entry.isDir) = true then
    if r.imports p files v.path = true then p.modulePath? v.path else none
  else none

theorem planPackage_eq_walk {r : PackageRules} {t : FileTree} (h : t.isDir p.root = true) :
    planPackage r p t = (t.walk p.root isMet).map fun visits =>
      visits.filterMap (importOf? r p ((visits.filter (!·.entry.isDir)).map (·.path))) := by
  unfold planPackage
  rw [if_pos h]
  cases t.walk p.root isMet with
  | error e => rfl
  | ok visits =>
    refine congrArg Except.ok ?_
    dsimp only
    rw [List.filterMap_filter, List.filterMap_map, List.filterMap_filter]
    rfl

section package

variable {r : PackageRules} {names : List String} (h : Unlisted p (Unimported r) a c)
  (hroot : c.locate p.root = .ok root)

include h hroot

/-- A file that has come is not imported. -/
theorem Unlisted.imports_eq_false (hfile : (c.file? (root ++ names)).isSome) (hnames : names ≠ [])
    (hnew : ¬ (a.file? (root ++ names)).isSome) (files : List Path) :
    r.imports p files (names.foldl Path.child p.root) = false := by
  have hvalid := (FileTree.dirs_above (FileTree.isSome_entry?_of_file? hfile)).2
  obtain ⟨above, name, rfl⟩ := List.eq_nil_or_concat names |>.resolve_left hnames
  rw [List.concat_eq_append] at *
  rw [← List.append_assoc] at hfile hnew
  have hname := Path.fileName?_of_components (Path.components_file p.root hvalid)
  rw [PackageRules.imports, hname]
  rcases (h.fresh _ _ name hroot hfile).resolve_left hnew with hown | hdenied
  · simp [hown]
  · simp [hdenied]

theorem Unlisted.imports_eq {filesA filesC : List Path}
    (hA : ∀ file, file ∈ filesA ↔ MetFile p root a file)
    (hC : ∀ file, file ∈ filesC ↔ MetFile p root c file) (hnames : names ≠ [])
    (hfile : (c.file? (root ++ names)).isSome) :
    r.imports p filesC (names.foldl Path.child p.root) =
      r.imports p filesA (names.foldl Path.child p.root) := by
  obtain ⟨above, name, rfl⟩ := List.eq_nil_or_concat names |>.resolve_left hnames
  rw [List.concat_eq_append] at *
  have hover : ((p.overrideFor? ((above ++ [name]).foldl Path.child p.root)).any
      fun o => filesC.any o.same) =
        (p.overrideFor? ((above ++ [name]).foldl Path.child p.root)).any fun o => filesA.any o.same := by
    have hvalid := (FileTree.dirs_above (FileTree.isSome_entry?_of_file? hfile)).2
    by_cases hgenerated : ∃ stem, name = stem ++ p.target.generatedSuffix
    · obtain ⟨stem, rfl⟩ := hgenerated
      rw [Bool.eq_iff_iff, any_override_iff hC hvalid, any_override_iff hA hvalid,
        h.meets_override_iff hroot hfile]
    · rw [not_exists] at hgenerated
      rw [Placement.overrideFor?_eq_none (Path.components_file p.root hvalid) hgenerated]
      rfl
  rw [PackageRules.imports, PackageRules.imports, hover]

/-- Where the output root has come to be only now, nothing is imported from it. -/
theorem Unlisted.planPackage_eq_nil (hdir : c.entry? root = some .dir) (hnew : a.entry? root ≠ some .dir) :
    planPackage r p c = .ok [] := by
  obtain ⟨visits, hwalk⟩ := FileTree.exists_walk hroot isMet
  rw [planPackage_eq_walk (FileTree.isDir_iff.2 ⟨root, hroot, hdir⟩), hwalk]
  refine congrArg Except.ok (List.filterMap_eq_nil_iff.2 fun v hv => ?_)
  obtain ⟨he, -, hpath⟩ := (FileTree.mem_walk hroot hwalk).1 hv
  rcases hentry : v.entry with _ | x
  · simp [importOf?, hentry, Entry.isDir]
  rw [hentry] at he
  have hnames : v.names ≠ [] := by
    intro hnil
    simp [hnil, hdir] at he
  have hold : ¬ (a.file? (root ++ v.names)).isSome := fun hold =>
    hnew ((FileTree.dirs_above (FileTree.isSome_entry?_of_file? hold)).1 hnames)
  have hfile : (c.file? (root ++ v.names)).isSome :=
    Option.isSome_of_eq_some (FileTree.file?_of_entry_eq he)
  rw [importOf?, hpath, h.imports_eq_false hroot hfile hnames hold]
  simp

theorem Unlisted.importOf?_eq {filesA filesC : List Path}
    (hA : ∀ file, file ∈ filesA ↔ MetFile p root a file)
    (hC : ∀ file, file ∈ filesC ↔ MetFile p root c file) (hdir : c.entry? root = some .dir)
    (names : List String) :
    ((c.entry? (root ++ names)).bind fun e => if names = [] ∨ isMet names e = true then
        importOf? r p filesC ⟨names, names.foldl Path.child p.root, e⟩ else none) =
      (a.entry? (root ++ names)).bind fun e => if names = [] ∨ isMet names e = true then
        importOf? r p filesA ⟨names, names.foldl Path.child p.root, e⟩ else none := by
  have hkept := h.keeps.dirs (root ++ names)
  have hfiles := h.keeps.files (root ++ names)
  rcases hc : c.entry? (root ++ names) with _ | _ | x
  · rw [h.keeps.entry?_eq_none hc]
    rfl
  · rcases ha : a.entry? (root ++ names) with _ | _ | y
    · simp [importOf?, Entry.isDir]
    · simp [importOf?, Entry.isDir]
    · simp [FileTree.file?, hc, ha] at hfiles
  · have hnames : names ≠ [] := by
      rintro rfl
      simp [hdir] at hc
    have hfile : (c.file? (root ++ names)).isSome :=
      Option.isSome_of_eq_some (FileTree.file?_of_entry_eq hc)
    rcases ha : a.entry? (root ++ names) with _ | _ | y
    · have himports := h.imports_eq_false hroot hfile hnames (by simp [FileTree.file?, ha]) filesC
      simp [importOf?, himports]
    · simp [hc, ha] at hkept
    · have himports := h.imports_eq hroot hA hC hnames hfile
      simp [importOf?, himports, Entry.isDir, isMet]

end package

/-- The aggregator is planned as it was. -/
theorem Unlisted.planPackage_eq {r : PackageRules} (h : Unlisted p (Unimported r) a c) :
    planPackage r p c = planPackage r p a := by
  by_cases hc : c.isDir p.root = true
  · obtain ⟨root, hroot, hdir⟩ := FileTree.isDir_iff.1 hc
    by_cases hdir' : a.entry? root = some .dir
    · have hroot' := h.anchored root hroot hdir hdir'
      have ha : a.isDir p.root = true := FileTree.isDir_iff.2 ⟨root, hroot', hdir'⟩
      obtain ⟨visitsA, hwalkA⟩ := FileTree.exists_walk hroot' isMet
      obtain ⟨visitsC, hwalkC⟩ := FileTree.exists_walk hroot isMet
      have hlists := FileTree.walk_filterMap_eq hroot hroot' (h.importOf?_eq hroot
        (fun file => mem_met_files hroot' hwalkA) (fun file => mem_met_files hroot hwalkC) hdir)
      rw [planPackage_eq_walk hc, planPackage_eq_walk ha, hwalkC, hwalkA]
      rwa [hwalkC, hwalkA] at hlists
    · have ha : ¬ a.isDir p.root = true := by
        intro ha
        obtain ⟨l, hl, he⟩ := FileTree.isDir_iff.1 ha
        obtain rfl := Except.ok.inj (hroot.symm.trans (h.keeps.locate hl))
        exact hdir' he
      rw [h.planPackage_eq_nil hroot hdir hdir', planPackage, if_neg ha]
  · have ha : ¬ a.isDir p.root = true := fun ha => hc (h.keeps.isDir ha)
    rw [planPackage, planPackage, if_neg hc, if_neg ha]

end Aggregate
end WrapperGen
