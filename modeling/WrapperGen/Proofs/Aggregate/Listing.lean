import Mathlib.Data.List.Basic
import WrapperGen.Aggregate.Index
import WrapperGen.Aggregate.Package
import WrapperGen.Proofs.FileTree.Listing
import WrapperGen.Proofs.Placement.Places

/-!
# What a listing says

What is in a listing of an output tree, read off the tree: the files and directories of a directory, the
files that a walk meets, the override of a generated file, and the modules that an index exports.
-/

namespace WrapperGen

namespace Path

theorem fileName?_of_components {p : Path} {above : List Component} {name : String}
    (h : p.components = above ++ [.name name]) : p.fileName? = some name := by
  simp [fileName?, h]

theorem components_file (root : Path) {above : List String} {name : String}
    (h : ∀ n ∈ above ++ [name], Entries.isName n = true) :
    ((above ++ [name]).foldl child root).components =
      (root.components ++ above.map .name) ++ [.name name] := by
  rw [components_foldl_child root h]
  simp

theorem map_name_injective : Function.Injective (List.map Component.name) :=
  List.map_injective_iff.2 fun _ _ => Component.name.inj

theorem withFileName_components {p : Path} {above : List Component} {name other : String}
    (h : p.components = above ++ [.name name]) (hother : Entries.isName other = true) :
    (p.withFileName other).components = above ++ [.name other] := by
  obtain ⟨dir, hdir, habove⟩ := exists_parent h
  rw [withFileName, fileName?_of_components h]
  dsimp only
  rw [hdir, Option.getD_some, components_child dir hother, habove]

end Path

namespace Placement

theorem overrideFor?_of_components {p : Placement} {file : Path} {above : List Component} {stem : String}
    (h : file.components = above ++ [.name (stem ++ p.target.generatedSuffix)]) :
    p.overrideFor? file = some (file.withFileName (stem ++ p.target.moduleExtension)) := by
  have hstem : Text.beforeEnd? p.target.generatedSuffix (stem ++ p.target.generatedSuffix) = some stem :=
    (Text.beforeEnd?_eq_some_iff _ _ _).2 rfl
  rw [overrideFor?, Path.fileName?_of_components h, Option.bind_eq_bind, Option.bind_some, hstem]
  rfl

/-- Only generated files have an override. -/
theorem overrideFor?_eq_none {p : Placement} {file : Path} {above : List Component} {name : String}
    (h : file.components = above ++ [.name name])
    (hname : ∀ stem, name ≠ stem ++ p.target.generatedSuffix) :
    p.overrideFor? file = none := by
  rw [overrideFor?, Path.fileName?_of_components h, Option.bind_eq_bind, Option.bind_some]
  refine Option.bind_eq_none_iff.2 fun stem hstem => ?_
  exact absurd ((Text.beforeEnd?_eq_some_iff _ _ _).1 hstem) (hname stem)

/-- The import of a module by the root package spells the names below the root. -/
theorem modulePath?_of_components {p : Placement} {file : Path} {above : List String} {stem : String}
    (h : file.components =
      p.root.components ++ (above ++ [stem ++ p.target.moduleExtension]).map .name) :
    p.modulePath? file = some ("." ++ ".".intercalate (above ++ [stem])) := by
  have hbelow : Path.below? p.root file =
      some ((above ++ [stem ++ p.target.moduleExtension]).map .name) := by
    rw [Path.below?, h]
    simp
  have hstem : Text.beforeEnd? p.target.moduleExtension (stem ++ p.target.moduleExtension) = some stem :=
    (Text.beforeEnd?_eq_some_iff _ _ _).2 rfl
  have htext : ((above ++ [stem ++ p.target.moduleExtension]).map .name).map Component.text =
      above ++ [stem ++ p.target.moduleExtension] := by
    rw [List.map_map]
    exact List.map_id _
  rw [modulePath?, hbelow, Option.bind_eq_bind, Option.bind_some, htext]
  simp [hstem]

end Placement

namespace Aggregate

theorem mem_filesOf {t : FileTree} {dir : Location} {name : String} :
    name ∈ filesOf (t.children dir) ↔ (t.file? (dir ++ [name])).isSome := by
  unfold filesOf
  simp only [List.mem_map, List.mem_filter, Prod.exists, FileTree.mem_children]
  unfold FileTree.file?
  constructor
  · rintro ⟨n, e, ⟨he, hfile⟩, rfl⟩
    cases e with
    | dir => simp [Entry.isDir] at hfile
    | file contents => simp [he]
  · intro h
    cases he : t.entry? (dir ++ [name]) with
    | none => simp [he] at h
    | some e =>
      cases e with
      | dir => simp [he] at h
      | file contents => exact ⟨name, .file contents, ⟨he, rfl⟩, rfl⟩

theorem mem_dirsOf {t : FileTree} {dir : Location} {d : String} :
    d ∈ dirsOf (t.children dir) ↔ t.entry? (dir ++ [d]) = some .dir ∧ isSkippedDir d = false := by
  unfold dirsOf
  simp only [List.mem_map, List.mem_filter, Prod.exists, FileTree.mem_children, Bool.and_eq_true,
    Bool.not_eq_true']
  constructor
  · rintro ⟨n, e, ⟨he, hdir, hentered⟩, rfl⟩
    cases e with
    | dir => exact ⟨he, hentered⟩
    | file contents => exact absurd hdir (by simp [Entry.isDir])
  · rintro ⟨he, hentered⟩
    exact ⟨d, .dir, ⟨he, rfl, hentered⟩, rfl⟩

variable {p : Placement} {root : Location}

theorem text_overrideFor? {stem : String} (h : Entries.isName (stem ++ p.target.generatedSuffix) = true) :
    (p.overrideFor? ⟨stem ++ p.target.generatedSuffix⟩).map Path.text =
      some (stem ++ p.target.moduleExtension) := by
  obtain ⟨hempty, hdot, -, hslash⟩ := Entries.isName_iff.1 h
  have hcomponents : (⟨stem ++ p.target.generatedSuffix⟩ : Path).components = [] ++ [.name _] :=
    Path.components_of_isName h
  have hparent : (⟨stem ++ p.target.generatedSuffix⟩ : Path).parent? = some ⟨""⟩ := by
    have hpieces : (⟨stem ++ p.target.generatedSuffix⟩ : Path).pieces =
        (stem ++ p.target.generatedSuffix) :: [] := Text.pieces_eq_singleton hslash
    have hsplit : (⟨stem ++ p.target.generatedSuffix⟩ : Path).split =
        ("", [stem ++ p.target.generatedSuffix]) := by
      rcases Path.lead?_cases hpieces with ⟨-, -, -, hrest⟩ | ⟨-, -, hfirst⟩ | ⟨-, hsplit, -⟩
      · exact absurd rfl hrest
      · exact absurd hfirst hdot
      · exact hsplit
    have hvoid : Path.isVoid (stem ++ p.target.generatedSuffix) = false := by
      simp only [Path.isVoid, hempty, hdot, decide_false, Bool.or_self]
    simp [Path.parent?, hsplit, Path.trimVoid, hvoid, Path.ofPieces]
  rw [Placement.overrideFor?_of_components hcomponents, Option.map_some, Path.withFileName,
    Path.fileName?_of_components hcomponents, hparent]
  simp [Path.child, Path.join]

theorem hasOverrideAmong_iff {files : List String} {stem : String}
    (h : Entries.isName (stem ++ p.target.generatedSuffix) = true) :
    hasOverrideAmong p files (stem ++ p.target.generatedSuffix) = true ↔
      stem ++ p.target.moduleExtension ∈ files := by
  obtain ⟨o, ho, htext⟩ := Option.map_eq_some_iff.1 (text_overrideFor? h)
  rw [hasOverrideAmong, ho]
  dsimp only
  rw [htext, List.contains_iff_mem]

theorem hasOverrideAmong_eq_false {files : List String} {name : String}
    (hname : Entries.isName name = true) (h : ∀ stem, name ≠ stem ++ p.target.generatedSuffix) :
    hasOverrideAmong p files name = false := by
  have hcomponents : (⟨name⟩ : Path).components = [] ++ [.name name] := Path.components_of_isName hname
  rw [hasOverrideAmong, Placement.overrideFor?_eq_none hcomponents h]

/-- A file that is met on a walk from an output root. -/
def MetFile (p : Placement) (root : Location) (t : FileTree) (file : Path) : Prop :=
  ∃ names, (t.file? (root ++ names)).isSome ∧ names.dropLast.any isSkippedDir = false ∧
    file = names.foldl Path.child p.root

theorem mem_met_files {t : FileTree} {root : Location} {visits : List FileTree.Visit} {file : Path}
    (hroot : t.locate p.root = .ok root) (h : t.walk p.root isMet = .ok visits) :
    file ∈ (visits.filter (!·.entry.isDir)).map (·.path) ↔ MetFile p root t file := by
  unfold MetFile
  simp only [List.mem_map, List.mem_filter, FileTree.mem_walk hroot h, FileTree.file?]
  constructor
  · rintro ⟨⟨names, path, e⟩, ⟨⟨he, hmet, hpath⟩, hfile⟩, rfl⟩
    cases e with
    | dir => simp [Entry.isDir] at hfile
    | file x =>
      refine ⟨names, by rw [he]; rfl, ?_, hpath⟩
      rcases hmet with rfl | hmet
      · rfl
      · simpa [isMet] using hmet
  · rintro ⟨names, hfile, hmet, rfl⟩
    cases he : t.entry? (root ++ names) with
    | none => simp [he] at hfile
    | some e =>
      cases e with
      | dir => simp [he] at hfile
      | file x =>
        have hentered : isMet names (.file x) = true := by simpa [isMet] using hmet
        exact ⟨⟨names, _, .file x⟩, ⟨⟨he, .inr hentered, rfl⟩, rfl⟩, rfl⟩

theorem isName_moduleExtension {target : Target} {stem : String}
    (h : Entries.isName (stem ++ target.generatedSuffix) = true) :
    Entries.isName (stem ++ target.moduleExtension) = true := by
  have hslash : '/' ∉ stem.toList := by
    have := (Entries.isName_iff.1 h).2.2.2
    simp_all
  refine Entries.isName_append hslash ?_ ?_
  · cases target <;> decide
  · cases target
    · exact ⟨'j', by decide⟩
    · exact ⟨'p', by decide⟩

theorem isName_override {target : Target} {above : List String} {stem : String}
    (h : ∀ n ∈ above ++ [stem ++ target.generatedSuffix], Entries.isName n = true) :
    ∀ n ∈ above ++ [stem ++ target.moduleExtension], Entries.isName n = true := by
  intro n hn
  rcases List.mem_append.1 hn with hn | hn
  · exact h n (List.mem_append_left _ hn)
  · exact List.mem_singleton.1 hn ▸ isName_moduleExtension (h _ (by simp))

/-- A walk from a location meets a file at these names below it. -/
def Meets (t : FileTree) (l : Location) (names : List String) : Prop :=
  (t.file? (l ++ names)).isSome = true ∧ names.dropLast.any isSkippedDir = false

theorem Meets.isName {t : FileTree} {l : Location} {names : List String} (h : Meets t l names) :
    ∀ n ∈ names, Entries.isName n = true :=
  (FileTree.dirs_above (FileTree.isSome_entry?_of_file? h.1)).2

/-- What is met below a root is told by its names. -/
theorem exists_met_iff {t : FileTree} {names : List String}
    (hvalid : ∀ n ∈ names, Entries.isName n = true) :
    (∃ file, MetFile p root t file ∧ file.components = p.root.components ++ names.map .name) ↔
      Meets t root names := by
  constructor
  · rintro ⟨file, ⟨others, hfile, hmet, rfl⟩, hcomponents⟩
    have hothers := Meets.isName ⟨hfile, hmet⟩
    rw [Path.components_foldl_child p.root hothers, List.append_cancel_left_eq] at hcomponents
    obtain rfl := Path.map_name_injective hcomponents
    exact ⟨hfile, hmet⟩
  · rintro ⟨hfile, hmet⟩
    exact ⟨_, ⟨names, hfile, hmet, rfl⟩, Path.components_foldl_child p.root hvalid⟩

/-- The override of a generated module is among the files that are met if it is met. -/
theorem any_override_iff {t : FileTree} {files : List Path}
    (hfiles : ∀ file, file ∈ files ↔ MetFile p root t file) {above : List String} {stem : String}
    (hvalid : ∀ n ∈ above ++ [stem ++ p.target.generatedSuffix], Entries.isName n = true) :
    ((p.overrideFor? ((above ++ [stem ++ p.target.generatedSuffix]).foldl Path.child p.root)).any
        fun o => files.any o.same) = true ↔
      Meets t root (above ++ [stem ++ p.target.moduleExtension]) := by
  have hcomponents := Path.components_file p.root hvalid
  have hvalid' := isName_override hvalid
  have hoverride := Path.withFileName_components hcomponents
    (hvalid' (stem ++ p.target.moduleExtension) (by simp))
  rw [Placement.overrideFor?_of_components hcomponents, ← exists_met_iff (p := p) hvalid']
  simp only [Option.any_some, List.any_eq_true, hfiles, Path.same, decide_eq_true_eq, hoverride]
  refine exists_congr fun file => and_congr_right fun _ => ?_
  rw [eq_comm]
  simp

section index

variable {r : IndexRules} {inBase : Bool} {files dirs : List String} {d name : String}

/-- The module by which an index exports the index of a directory in its own. -/
def indexIn (d : String) : String := "./" ++ d ++ "/" ++ indexFile

theorem indexIn_injective {c d : String} (h : indexIn c = indexIn d) : c = d := by
  simpa [indexIn, String.append_assoc, String.append_left_inj, String.append_right_inj] using h

theorem indexIn_ne (hname : Entries.isName name = true) : "./" ++ name ≠ indexIn d := by
  intro h
  have hslash := (Entries.isName_iff.1 hname).2.2.2
  rw [indexIn, String.append_assoc, String.append_assoc, String.append_right_inj] at h
  rw [h] at hslash
  simp at hslash

theorem indexIn_mem_indexModules_iff (hfiles : ∀ f ∈ files, Entries.isName f = true) :
    indexIn d ∈ indexModules r p inBase files dirs ↔ d ∈ dirs := by
  rw [indexModules, List.mem_append]
  constructor
  · rintro (h | h)
    · obtain ⟨f, hf, hd⟩ := List.mem_map.1 h
      have hmem : f ∈ files := (Names.mem_sorted f files).1 (List.mem_filter.1 hf).1
      exact absurd hd (indexIn_ne (hfiles f hmem))
    · obtain ⟨c, hc, hd⟩ := List.mem_map.1 h
      exact indexIn_injective hd ▸ (Names.mem_sorted c dirs).1 hc
  · exact fun h => .inr (List.mem_map.2 ⟨d, (Names.mem_sorted d dirs).2 h, rfl⟩)

theorem mem_indexModules_iff (hname : Entries.isName name = true) :
    "./" ++ name ∈ indexModules r p inBase files dirs ↔
      name ∈ files ∧ r.lists p inBase files name = true := by
  have hdirs : ¬ ∃ d ∈ Names.sorted dirs, indexIn d = "./" ++ name := fun ⟨d, _, h⟩ =>
    indexIn_ne hname h.symm
  rw [indexModules, List.mem_append, or_iff_left (by simpa [indexIn] using hdirs)]
  simp only [List.mem_map, List.mem_filter, Names.mem_sorted, String.append_right_inj, exists_eq_right]

end index

end Aggregate
end WrapperGen
