import Mathlib.Logic.Basic
import WrapperGen.Generation.Aggregation
import WrapperGen.Proofs.Aggregate.Listing
import WrapperGen.Proofs.FileTree.Writes

/-!
# Overrides take precedence

Aggregation takes one of a generated module and its override: the override where it stands, or else the
generated module. The one that stands is taken unless its name is barred from being listed at all.
-/

namespace WrapperGen

namespace Target

theorem endsWith_generatedSuffix (target : Target) (stem : String) :
    Text.endsWith target.generatedSuffix (stem ++ target.generatedSuffix) = true :=
  Text.endsWith_iff.2 ⟨stem, rfl⟩

theorem endsWith_moduleExtension (target : Target) (stem : String) :
    Text.endsWith target.moduleExtension (stem ++ target.moduleExtension) = true :=
  Text.endsWith_iff.2 ⟨stem, rfl⟩

theorem endsWith_module_generatedSuffix (target : Target) (stem : String) :
    Text.endsWith target.moduleExtension (stem ++ target.generatedSuffix) = true := by
  rw [target.generatedSuffix_eq, ← String.append_assoc]
  exact target.endsWith_moduleExtension _

end Target

namespace Aggregate

/-- A name of modules ends in none of the ways in which leftovers of editors end. -/
theorem isArtifact_module (target : Target) (stem : String) :
    isArtifact (stem ++ target.moduleExtension) =
      (Text.startsWith "." (stem ++ target.moduleExtension) ||
        Text.startsWith "#" (stem ++ target.moduleExtension)) := by
  have hlast : ∀ ending : String, ending.toList.getLast? ≠ target.moduleExtension.toList.getLast? →
      ending ≠ "" → ¬ ∃ rest, stem ++ target.moduleExtension = rest ++ ending := by
    rintro ending hdiffer hempty ⟨rest, h⟩
    have hchars := congrArg (fun s : String => s.toList.getLast?) h
    have hending : ending.toList ≠ [] := by simpa using hempty
    have hextension : target.moduleExtension.toList ≠ [] := by cases target <;> decide
    simp only [String.toList_append, List.getLast?_append_of_ne_nil _ hending,
      List.getLast?_append_of_ne_nil _ hextension] at hchars
    exact hdiffer hchars.symm
  have hends : ∀ ending : String, ending.toList.getLast? ≠ target.moduleExtension.toList.getLast? →
      ending ≠ "" → Text.endsWith ending (stem ++ target.moduleExtension) = false := by
    intro ending hdiffer hempty
    rw [← Bool.not_eq_true, Text.endsWith_iff]
    exact hlast ending hdiffer hempty
  have hthumbs : stem ++ target.moduleExtension ≠ "Thumbs.db" := fun h =>
    hlast "Thumbs.db" (by cases target <;> decide) (by decide) ⟨"", by rw [h]; rfl⟩
  rw [isArtifact, hends "~" (by cases target <;> decide) (by decide),
    hends ".swp" (by cases target <;> decide) (by decide),
    hends ".swo" (by cases target <;> decide) (by decide),
    hends ".bak" (by cases target <;> decide) (by decide), decide_eq_false hthumbs]
  simp only [Bool.or_false]

/-- The override of a generated module is no leftover of an editor either, unless it is all extension. -/
theorem isArtifact_override {target : Target} {stem : String} (hstem : stem ≠ "")
    (h : isArtifact (stem ++ target.generatedSuffix) = false) :
    isArtifact (stem ++ target.moduleExtension) = false := by
  have hne : stem.toList ≠ [] := by simpa using hstem
  obtain ⟨c, cs, hcs⟩ := List.exists_cons_of_ne_nil hne
  rw [target.generatedSuffix_eq, ← String.append_assoc, isArtifact_module] at h
  rw [isArtifact_module]
  simpa [Text.startsWith, Text.dropPrefix?, hcs] using h

theorem stem_ne_of_isArtifact {stem : String}
    (h : isArtifact (stem ++ Target.javascript.generatedSuffix) = false) : stem ≠ "" := by
  rintro rfl
  exact absurd h (by decide)

variable {p : Placement} {stem : String}

/-- An override that is named like a generated module comes from a name that has the mark twice. -/
theorem exists_of_isGenerated_override (h : p.isGenerated (stem ++ p.target.moduleExtension) = true) :
    ∃ s, stem = s ++ p.target.mark := by
  obtain ⟨s, hs⟩ := Text.endsWith_iff.1 h
  rw [p.target.generatedSuffix_eq, ← String.append_assoc] at hs
  exact ⟨s, String.append_left_inj _ |>.1 hs⟩

/-- The rule of overrides keeps an override, unless it is named like a generated module and one is present
for it in its turn. -/
theorem kept_override {present : Bool} (hlast : ∀ s, stem = s ++ p.target.mark → present = false) :
    (!p.isGenerated (stem ++ p.target.moduleExtension) || !present) = true := by
  cases hgenerated : p.isGenerated (stem ++ p.target.moduleExtension) with
  | false => rfl
  | true =>
    obtain ⟨s, hs⟩ := exists_of_isGenerated_override hgenerated
    rw [hlast s hs]
    rfl

/-- Of a generated module and its override one is taken exactly if the one that counts is not barred. -/
theorem xor_iff_of_precedence {generated override stands barredGenerated barredOverride : Prop}
    (hgenerated : generated ↔ ¬ stands ∧ ¬ barredGenerated)
    (hoverride : override ↔ stands ∧ ¬ barredOverride) :
    Xor generated override ↔ (stands → ¬ barredOverride) ∧ (¬ stands → ¬ barredGenerated) := by
  by_cases h : stands
  · simp [xor_def, hgenerated, hoverride, h]
  · simp [xor_def, hgenerated, hoverride, h]

section index

variable {r : IndexRules} {files dirs : List String}

def IndexRules.Bars (r : IndexRules) (name : String) : Prop := name = indexFile ∨ name ∈ r.entryPoints

instance (name : String) : Decidable (r.Bars name) := inferInstanceAs (Decidable (_ ∨ _))

theorem IndexRules.lists_generated_iff
    (hname : Entries.isName (stem ++ p.target.generatedSuffix) = true)
    (hplain : isArtifact (stem ++ p.target.generatedSuffix) = false) :
    r.lists p false files (stem ++ p.target.generatedSuffix) = true ↔
      stem ++ p.target.moduleExtension ∉ files ∧ ¬ r.Bars (stem ++ p.target.generatedSuffix) := by
  have hgenerated : p.isGenerated (stem ++ p.target.generatedSuffix) = true :=
    p.target.endsWith_generatedSuffix stem
  rw [← hasOverrideAmong_iff hname]
  simp only [lists, hplain, p.target.endsWith_module_generatedSuffix, hgenerated, Bars, Bool.not_false,
    Bool.not_true, Bool.true_and, Bool.false_or, Bool.and_eq_true, Bool.not_eq_true', decide_eq_true_eq,
    List.contains_eq_mem, decide_eq_false_iff_not, not_or, Bool.not_eq_true]
  exact and_comm

/-- An index lists an override whose name is not barred, unless it is itself left to another one. -/
theorem IndexRules.lists_override_iff
    (hname : Entries.isName (stem ++ p.target.moduleExtension) = true)
    (hplain : isArtifact (stem ++ p.target.moduleExtension) = false)
    (hlast : ∀ s, stem = s ++ p.target.mark → s ++ p.target.moduleExtension ∉ files) :
    r.lists p false files (stem ++ p.target.moduleExtension) = true ↔
      ¬ r.Bars (stem ++ p.target.moduleExtension) := by
  have hextension := p.target.endsWith_moduleExtension stem
  have hkept : (!p.isGenerated (stem ++ p.target.moduleExtension) ||
      !hasOverrideAmong p files (stem ++ p.target.moduleExtension)) = true := by
    refine kept_override fun s hs => ?_
    subst hs
    rw [String.append_assoc, ← p.target.generatedSuffix_eq] at hname ⊢
    rw [← Bool.not_eq_true, hasOverrideAmong_iff hname]
    exact hlast s rfl
  simp only [lists, hplain, hextension, hkept, Bars, Bool.not_false, Bool.true_and, Bool.and_true,
    Bool.and_eq_true, Bool.not_eq_true', decide_eq_true_eq, List.contains_eq_mem,
    decide_eq_false_iff_not, not_or]

theorem not_mem_indexModules_generated (stem : String)
    (hname : Entries.isName (stem ++ p.target.generatedSuffix) = true)
    (hplain : isArtifact (stem ++ p.target.generatedSuffix) = false)
    (hoverride : stem ++ p.target.moduleExtension ∈ files) :
    "./" ++ (stem ++ p.target.generatedSuffix) ∉ indexModules r p false files dirs := by
  rw [mem_indexModules_iff hname, IndexRules.lists_generated_iff hname hplain]
  exact fun h => h.2.1 hoverride

theorem xor_mem_indexModules_iff (stem : String)
    (hname : Entries.isName (stem ++ p.target.generatedSuffix) = true)
    (hstands : stem ++ p.target.generatedSuffix ∈ files)
    (hplain : isArtifact (stem ++ p.target.generatedSuffix) = false)
    (hplain' : isArtifact (stem ++ p.target.moduleExtension) = false)
    (hlast : ∀ s, stem = s ++ p.target.mark → s ++ p.target.moduleExtension ∉ files) :
    Xor ("./" ++ (stem ++ p.target.generatedSuffix) ∈ indexModules r p false files dirs)
        ("./" ++ (stem ++ p.target.moduleExtension) ∈ indexModules r p false files dirs) ↔
      (stem ++ p.target.moduleExtension ∈ files → ¬ r.Bars (stem ++ p.target.moduleExtension)) ∧
      (stem ++ p.target.moduleExtension ∉ files → ¬ r.Bars (stem ++ p.target.generatedSuffix)) := by
  have hname' := isName_moduleExtension hname
  refine xor_iff_of_precedence ?_ ?_
  · rw [mem_indexModules_iff hname, IndexRules.lists_generated_iff hname hplain]
    exact and_iff_right hstands
  · rw [mem_indexModules_iff hname', IndexRules.lists_override_iff hname' hplain' hlast]

end index

section package

variable {r : PackageRules} {t : FileTree} {l : Location} {names above : List String}

def PackageRules.Bars (r : PackageRules) (name : String) : Prop :=
  isArtifact name = true ∨ name = packageMarker ∨ name = r.aggregator ∨ name ∈ r.denied

instance (name : String) : Decidable (r.Bars name) := inferInstanceAs (Decidable (_ ∨ _))

/-- The files whose modules the aggregator imports, in walk order. -/
def importedFiles (r : PackageRules) (p : Placement) (t : FileTree) : Except Error (List Path) :=
  if t.isDir p.root then
    (t.walk p.root isMet).map fun visits =>
      let files := (visits.filter (!·.entry.isDir)).map (·.path)
      files.filter (r.imports p files)
  else .ok []

theorem planPackage_eq_map (r : PackageRules) (p : Placement) (t : FileTree) :
    planPackage r p t = (importedFiles r p t).map (·.filterMap p.modulePath?) := by
  unfold planPackage importedFiles
  split
  · cases t.walk p.root isMet <;> rfl
  · rfl

/-- Of an output tree that stands the aggregator imports some of the files that are met. -/
theorem exists_importedFiles (hroot : t.locate p.root = .ok l) (hdir : t.entry? l = some .dir) :
    ∃ files : List Path, (∀ file, file ∈ files ↔ MetFile p l t file) ∧
      importedFiles r p t = .ok (files.filter (r.imports p files)) := by
  obtain ⟨visits, hwalk⟩ := FileTree.exists_walk hroot isMet
  refine ⟨_, fun file => mem_met_files hroot hwalk, ?_⟩
  rw [importedFiles, if_pos (FileTree.isDir_iff.2 ⟨l, hroot, hdir⟩), hwalk]
  rfl

theorem modulePath?_file (stem : String)
    (h : ∀ n ∈ above ++ [stem ++ p.target.moduleExtension], Entries.isName n = true) :
    p.modulePath? ((above ++ [stem ++ p.target.moduleExtension]).foldl Path.child p.root) =
      some ("." ++ ".".intercalate (above ++ [stem])) :=
  Placement.modulePath?_of_components (Path.components_foldl_child p.root h)

variable {files : List Path} (hfiles : ∀ file, file ∈ files ↔ MetFile p l t file)

include hfiles

theorem mem_files_iff (hvalid : ∀ n ∈ names, Entries.isName n = true) :
    names.foldl Path.child p.root ∈ files ↔ Meets t l names := by
  rw [hfiles]
  refine ⟨fun hmet => (exists_met_iff hvalid).1 ⟨_, hmet, Path.components_foldl_child p.root hvalid⟩, ?_⟩
  exact fun ⟨hfile, hmet⟩ => ⟨names, hfile, hmet, rfl⟩

theorem PackageRules.imports_generated_iff
    (hvalid : ∀ n ∈ above ++ [stem ++ p.target.generatedSuffix], Entries.isName n = true) :
    r.imports p files ((above ++ [stem ++ p.target.generatedSuffix]).foldl Path.child p.root) = true ↔
      ¬ Meets t l (above ++ [stem ++ p.target.moduleExtension]) ∧
        ¬ r.Bars (stem ++ p.target.generatedSuffix) := by
  have hgenerated : p.isGenerated (stem ++ p.target.generatedSuffix) = true :=
    p.target.endsWith_generatedSuffix stem
  rw [← any_override_iff hfiles hvalid, imports,
    Path.fileName?_of_components (Path.components_file p.root hvalid)]
  simp only [p.target.endsWith_module_generatedSuffix, hgenerated, Bars, Bool.not_true, Bool.false_or,
    Bool.and_eq_true, Bool.and_true, Bool.not_eq_true', decide_eq_true_eq, List.contains_eq_mem,
    decide_eq_false_iff_not, not_or, Bool.not_eq_true, and_assoc]
  tauto

/-- The aggregator imports an override whose name is not barred, unless it is itself left to another
one. -/
theorem PackageRules.imports_override_iff
    (hvalid : ∀ n ∈ above ++ [stem ++ p.target.moduleExtension], Entries.isName n = true)
    (hlast : ∀ s, stem = s ++ p.target.mark → ¬ Meets t l (above ++ [s ++ p.target.moduleExtension])) :
    r.imports p files ((above ++ [stem ++ p.target.moduleExtension]).foldl Path.child p.root) = true ↔
      ¬ r.Bars (stem ++ p.target.moduleExtension) := by
  have hextension := p.target.endsWith_moduleExtension stem
  have hkept : (!p.isGenerated (stem ++ p.target.moduleExtension) ||
      !((p.overrideFor? ((above ++ [stem ++ p.target.moduleExtension]).foldl Path.child p.root)).any
        fun o => files.any o.same)) = true := by
    refine kept_override fun s hs => ?_
    subst hs
    rw [String.append_assoc, ← p.target.generatedSuffix_eq] at hvalid ⊢
    rw [← Bool.not_eq_true, any_override_iff hfiles hvalid]
    exact hlast s rfl
  rw [imports, Path.fileName?_of_components (Path.components_file p.root hvalid)]
  simp only [hextension, hkept, Bars, Bool.and_true, Bool.and_eq_true, Bool.not_eq_true',
    decide_eq_true_eq, List.contains_eq_mem, decide_eq_false_iff_not, not_or, Bool.not_eq_true, and_assoc]

theorem PackageRules.imports_iff
    (hvalid : ∀ n ∈ above ++ [stem ++ p.target.moduleExtension], Entries.isName n = true) :
    r.imports p files ((above ++ [stem ++ p.target.moduleExtension]).foldl Path.child p.root) = true ↔
      ¬ r.Bars (stem ++ p.target.moduleExtension) ∧
        ∀ s, stem = s ++ p.target.mark → ¬ Meets t l (above ++ [s ++ p.target.moduleExtension]) := by
  by_cases hgenerated : ∃ s, stem = s ++ p.target.mark
  · obtain ⟨s, rfl⟩ := hgenerated
    rw [String.append_assoc, ← p.target.generatedSuffix_eq] at hvalid ⊢
    rw [imports_generated_iff hfiles hvalid, and_comm]
    refine and_congr_right fun _ => ⟨fun hmeets s' hs => ?_, fun hlast => hlast s rfl⟩
    rwa [← (String.append_left_inj _).1 hs]
  · rw [not_exists] at hgenerated
    rw [imports_override_iff hfiles hvalid fun s hs => absurd hs (hgenerated s)]
    exact (and_iff_left fun s hs => absurd hs (hgenerated s)).symm

theorem not_mem_imported_generated (stem : String)
    (hvalid : ∀ n ∈ above ++ [stem ++ p.target.generatedSuffix], Entries.isName n = true)
    (hoverride : Meets t l (above ++ [stem ++ p.target.moduleExtension])) :
    (above ++ [stem ++ p.target.generatedSuffix]).foldl Path.child p.root ∉
      files.filter (r.imports p files) := by
  rw [List.mem_filter, PackageRules.imports_generated_iff hfiles hvalid]
  exact fun h => h.2.1 hoverride

theorem mem_imported_override_iff (stem : String)
    (hvalid : ∀ n ∈ above ++ [stem ++ p.target.moduleExtension], Entries.isName n = true)
    (hlast : ∀ s, stem = s ++ p.target.mark → ¬ Meets t l (above ++ [s ++ p.target.moduleExtension])) :
    (above ++ [stem ++ p.target.moduleExtension]).foldl Path.child p.root ∈
        files.filter (r.imports p files) ↔
      Meets t l (above ++ [stem ++ p.target.moduleExtension]) ∧
        ¬ r.Bars (stem ++ p.target.moduleExtension) := by
  rw [List.mem_filter, mem_files_iff hfiles hvalid, PackageRules.imports_override_iff hfiles hvalid hlast]

theorem xor_mem_imported_iff (stem : String)
    (hmet : Meets t l (above ++ [stem ++ p.target.generatedSuffix]))
    (hlast : ∀ s, stem = s ++ p.target.mark → ¬ Meets t l (above ++ [s ++ p.target.moduleExtension])) :
    Xor ((above ++ [stem ++ p.target.generatedSuffix]).foldl Path.child p.root ∈
          files.filter (r.imports p files))
        ((above ++ [stem ++ p.target.moduleExtension]).foldl Path.child p.root ∈
          files.filter (r.imports p files)) ↔
      (Meets t l (above ++ [stem ++ p.target.moduleExtension]) →
        ¬ r.Bars (stem ++ p.target.moduleExtension)) ∧
      (¬ Meets t l (above ++ [stem ++ p.target.moduleExtension]) →
        ¬ r.Bars (stem ++ p.target.generatedSuffix)) := by
  have hvalid := hmet.isName
  refine xor_iff_of_precedence ?_ ?_
  · rw [List.mem_filter, mem_files_iff hfiles hvalid, PackageRules.imports_generated_iff hfiles hvalid]
    exact and_iff_right hmet
  · exact mem_imported_override_iff hfiles stem (isName_override hvalid) hlast

end package

section modules

variable {r : PackageRules} {t : FileTree} {root : Location} {above : List String}

/-- Whether the aggregator imports a module below the location of the output root. -/
structure Imported (r : PackageRules) (p : Placement) (t : FileTree) (root : Location)
    (above : List String) (stem : String) : Prop where
  met : Meets t root (above ++ [stem ++ p.target.moduleExtension])
  free : ¬ r.Bars (stem ++ p.target.moduleExtension)
  /-- A generated module has no override. -/
  last : ∀ s, stem = s ++ p.target.mark → ¬ Meets t root (above ++ [s ++ p.target.moduleExtension])

/-- The files that the aggregator imports. -/
theorem mem_importedFiles_iff {imported : List Path} (h : importedFiles r p t = .ok imported)
    {file : Path} : file ∈ imported ↔ ∃ root above stem, t.locate p.root = .ok root ∧
      Imported r p t root above stem ∧
      file = (above ++ [stem ++ p.target.moduleExtension]).foldl Path.child p.root := by
  constructor
  · intro hfile
    by_cases hdir : t.isDir p.root = true
    · obtain ⟨root, hroot, hentry⟩ := FileTree.isDir_iff.1 hdir
      obtain ⟨files, hfiles, himported⟩ := exists_importedFiles (r := r) hroot hentry
      obtain rfl := Except.ok.inj (himported.symm.trans h)
      obtain ⟨hmem, himports⟩ := List.mem_filter.1 hfile
      obtain ⟨names, hstands, hmet, rfl⟩ := (hfiles file).1 hmem
      rcases List.eq_nil_or_concat names with rfl | ⟨above, name, rfl⟩
      · -- The root is a directory.
        simp [FileTree.file?, hentry] at hstands
      · rw [List.concat_eq_append] at hstands hmet himports ⊢
        have hvalid := Meets.isName ⟨hstands, hmet⟩
        have hends : Text.endsWith p.target.moduleExtension name = true := by
          rw [PackageRules.imports,
            Path.fileName?_of_components (Path.components_file p.root hvalid)] at himports
          simp only [Bool.and_eq_true] at himports
          exact himports.1.1.1.1.2
        obtain ⟨stem, rfl⟩ := Text.endsWith_iff.1 hends
        obtain ⟨hfree, hlast⟩ := (PackageRules.imports_iff hfiles hvalid).1 himports
        exact ⟨root, above, stem, hroot, ⟨⟨hstands, hmet⟩, hfree, hlast⟩, rfl⟩
    · rw [importedFiles, if_neg hdir] at h
      rw [← Except.ok.inj h] at hfile
      cases hfile
  · rintro ⟨root, above, stem, hroot, ⟨hmet, hfree, hlast⟩, rfl⟩
    have hvalid := hmet.isName
    have hentry := (FileTree.dirs_above (FileTree.isSome_entry?_of_file? hmet.1)).1 (by simp)
    obtain ⟨files, hfiles, himported⟩ := exists_importedFiles (r := r) hroot hentry
    obtain rfl := Except.ok.inj (himported.symm.trans h)
    exact List.mem_filter.2 ⟨(mem_files_iff hfiles hvalid).2 hmet,
      (PackageRules.imports_iff hfiles hvalid).2 ⟨hfree, hlast⟩⟩

/-- The modules that the aggregator imports. -/
theorem mem_planPackage_iff {modules : List String} (h : planPackage r p t = .ok modules) {m : String} :
    m ∈ modules ↔ ∃ root above stem, t.locate p.root = .ok root ∧ Imported r p t root above stem ∧
      m = "." ++ ".".intercalate (above ++ [stem]) := by
  rw [planPackage_eq_map] at h
  obtain ⟨imported, himported, rfl⟩ : ∃ imported, importedFiles r p t = .ok imported ∧
      imported.filterMap p.modulePath? = modules := by
    cases himported : importedFiles r p t with
    | error e => exact nomatch himported ▸ h
    | ok imported => exact ⟨imported, rfl, Except.ok.inj (himported ▸ h)⟩
  rw [List.mem_filterMap]
  constructor
  · rintro ⟨file, hfile, hmodule⟩
    obtain ⟨root, above, stem, hroot, himp, rfl⟩ := (mem_importedFiles_iff himported).1 hfile
    rw [modulePath?_file stem himp.met.isName] at hmodule
    exact ⟨root, above, stem, hroot, himp, (Option.some.inj hmodule).symm⟩
  · rintro ⟨root, above, stem, hroot, himp, rfl⟩
    exact ⟨_, (mem_importedFiles_iff himported).2 ⟨root, above, stem, hroot, himp, rfl⟩,
      modulePath?_file stem himp.met.isName⟩

/-- No other module that is met below a location is imported by the same text. Where a name has a dot in it,
another one may be. -/
def Unshared (p : Placement) (t : FileTree) (root : Location) (names : List String) : Prop :=
  ∀ above stem, Meets t root (above ++ [stem ++ p.target.moduleExtension]) →
    ".".intercalate (above ++ [stem]) = ".".intercalate names → above ++ [stem] = names

theorem unshared_of_plain {names : List String} (hnames : ∀ n ∈ names, '.' ∉ n.toList) (hne : names ≠ [])
    (h : ∀ above stem, Meets t root (above ++ [stem ++ p.target.moduleExtension]) →
      ∀ n ∈ above ++ [stem], '.' ∉ n.toList) : Unshared p t root names := by
  intro above stem hmet heq
  have hdot : ".".toList = ['.'] := rfl
  rw [← Text.pieces_intercalate hdot hne hnames, ← heq]
  exact (Text.pieces_intercalate hdot (by simp) (h above stem hmet)).symm

/-- A text that no other module shares is imported exactly if the file of its module is selected. -/
theorem mem_modules_iff {imported : List Path} (h : importedFiles r p t = .ok imported)
    (hroot : t.locate p.root = .ok root)
    (hvalid : ∀ n ∈ above ++ [stem ++ p.target.moduleExtension], Entries.isName n = true)
    (hunshared : Unshared p t root (above ++ [stem])) :
    "." ++ ".".intercalate (above ++ [stem]) ∈ imported.filterMap p.modulePath? ↔
      (above ++ [stem ++ p.target.moduleExtension]).foldl Path.child p.root ∈ imported := by
  rw [List.mem_filterMap]
  refine ⟨fun ⟨file, hfile, hmodule⟩ => ?_, fun hfile => ⟨_, hfile, modulePath?_file stem hvalid⟩⟩
  obtain ⟨root', above', stem', hroot', himp, rfl⟩ := (mem_importedFiles_iff h).1 hfile
  obtain rfl := Except.ok.inj (hroot'.symm.trans hroot)
  rw [modulePath?_file stem' himp.met.isName, Option.some.injEq, String.append_right_inj] at hmodule
  obtain ⟨rfl, hlast⟩ := List.append_inj' (hunshared above' stem' himp.met hmodule) rfl
  rwa [← List.singleton_inj.1 hlast]

end modules

/-- Aggregation takes exactly one of a generated module and its override.

Of a directory that is not the base directory an index never exports both, and exports exactly one of them
if the one that counts, the override where it stands among the files, is no entry point and not the index.
Of an output tree the aggregator never imports both files, and imports exactly one of them if the one that
counts is no leftover of an editor, no marker, not the aggregator and not denied; then the import of an
override that is met is among the modules. The same holds of the module paths that it imports, unless further
files share them. All this holds of an override that is not itself left to another one because it has the mark
of generated modules twice. -/
theorem takes_one_of_generated_and_override :
    (∀ (r : IndexRules) (root : Path) (files dirs : List String) (stem : String),
      let modules := indexModules r ⟨.javascript, root⟩ false files dirs
      let generated := stem ++ ".autogen.js"
      let override := stem ++ ".js"
      Entries.isName generated = true → generated ∈ files → isArtifact generated = false →
        ¬ ("./" ++ generated ∈ modules ∧ "./" ++ override ∈ modules) ∧
        ((∀ s, stem = s ++ ".autogen" → s ++ ".js" ∉ files) →
          (Xor ("./" ++ generated ∈ modules) ("./" ++ override ∈ modules) ↔
            (override ∈ files → ¬ r.Bars override) ∧ (override ∉ files → ¬ r.Bars generated)))) ∧
    (∀ (r : PackageRules) (root : Path) (t : FileTree) (l : Location),
      t.locate root = .ok l → t.entry? l = some .dir →
        ∃ imported modules, importedFiles r ⟨.python, root⟩ t = .ok imported ∧
          modules = imported.filterMap (Placement.modulePath? ⟨.python, root⟩) ∧
          planPackage r ⟨.python, root⟩ t = .ok modules ∧
          ∀ (above : List String) (stem : String),
            let file := fun ending => (above ++ [stem ++ ending]).foldl Path.child root
            let met := fun ending => Meets t l (above ++ [stem ++ ending])
            let generated := "." ++ ".".intercalate (above ++ [stem ++ "_autogen"])
            let override := "." ++ ".".intercalate (above ++ [stem])
            let unshared := Unshared ⟨.python, root⟩ t l (above ++ [stem ++ "_autogen"]) ∧
              Unshared ⟨.python, root⟩ t l (above ++ [stem])
            met "_autogen.py" →
              ¬ (file "_autogen.py" ∈ imported ∧ file ".py" ∈ imported) ∧
              (met ".py" → file "_autogen.py" ∉ imported) ∧
              (unshared → ¬ (generated ∈ modules ∧ override ∈ modules)) ∧
              ((∀ s, stem = s ++ "_autogen" → ¬ Meets t l (above ++ [s ++ ".py"])) →
                let free := (met ".py" → ¬ r.Bars (stem ++ ".py")) ∧
                  (¬ met ".py" → ¬ r.Bars (stem ++ "_autogen.py"))
                (Xor (file "_autogen.py" ∈ imported) (file ".py" ∈ imported) ↔ free) ∧
                (unshared → (Xor (generated ∈ modules) (override ∈ modules) ↔ free)) ∧
                (met ".py" → ¬ r.Bars (stem ++ ".py") → override ∈ modules))) := by
  constructor
  · intro r root files dirs stem modules generated override hname hstands hplain
    let p : Placement := ⟨.javascript, root⟩
    have hplain' := @isArtifact_override .javascript stem (stem_ne_of_isArtifact hplain) hplain
    have hname' := @isName_moduleExtension .javascript stem hname
    constructor
    · rintro ⟨hgenerated, hoverride⟩
      have hstands' : override ∈ files := ((mem_indexModules_iff hname').1 hoverride).1
      exact not_mem_indexModules_generated (p := p) stem hname hplain hstands' hgenerated
    · exact xor_mem_indexModules_iff (p := p) stem hname hstands hplain hplain'
  · intro r root t l hroot hdir
    let p : Placement := ⟨.python, root⟩
    obtain ⟨files, hfiles, himported⟩ := exists_importedFiles (r := r) (p := p) hroot hdir
    refine ⟨_, _, himported, rfl, by rw [planPackage_eq_map, himported]; rfl, ?_⟩
    intro above stem file met generated override unshared hmet
    have hvalid := @isName_override .python above stem hmet.isName
    have hleft : met ".py" → file "_autogen.py" ∉ files.filter (r.imports p files) :=
      not_mem_imported_generated (p := p) hfiles stem hmet.isName
    have hone : ¬ (file "_autogen.py" ∈ files.filter (r.imports p files) ∧
        file ".py" ∈ files.filter (r.imports p files)) := fun ⟨hgenerated, hoverride⟩ =>
      hleft ((mem_files_iff (p := p) hfiles hvalid).1 (List.mem_of_mem_filter hoverride)) hgenerated
    have hspelled : unshared →
        (generated ∈ (files.filter (r.imports p files)).filterMap p.modulePath? ↔
          file "_autogen.py" ∈ files.filter (r.imports p files)) ∧
        (override ∈ (files.filter (r.imports p files)).filterMap p.modulePath? ↔
          file ".py" ∈ files.filter (r.imports p files)) := by
      rintro ⟨hgenerated, hoverride⟩
      have hname : stem ++ "_autogen" ++ ".py" = stem ++ "_autogen.py" := String.append_assoc ..
      have hfirst := mem_modules_iff (p := p) himported hroot (hname.symm ▸ hmet.isName) hgenerated
      dsimp only [p, Target.moduleExtension] at hfirst
      rw [hname] at hfirst
      exact ⟨hfirst, mem_modules_iff (p := p) himported hroot hvalid hoverride⟩
    refine ⟨hone, hleft, fun h => ?_, fun hlast => ?_⟩
    · rw [(hspelled h).1, (hspelled h).2]
      exact hone
    · have hxor := xor_mem_imported_iff (p := p) (r := r) hfiles stem hmet hlast
      refine ⟨hxor, fun h => ?_, fun hoverride hfree => ?_⟩
      · rw [(hspelled h).1, (hspelled h).2]
        exact hxor
      · refine List.mem_filterMap.2 ⟨file ".py", ?_, modulePath?_file (p := p) stem hvalid⟩
        exact (mem_imported_override_iff (p := p) hfiles stem hvalid hlast).2 ⟨hoverride, hfree⟩

/-- An output tree of the package with these files in its root. -/
def packageOf (names : List String) : FileTree :=
  names.foldl (fun t name => t.put ["python", name] (.file .empty)) (FileTree.empty.put ["python"] .dir)

/-- The modules in such a root are known by their names. -/
theorem unshared_ring {name : String} (h : '.' ∉ name.toList) :
    Unshared ⟨.python, ⟨"python"⟩⟩ (packageOf ["Ring_autogen.py", "Ring.py"]) ["python"] [name] := by
  refine unshared_of_plain (by simpa using h) (by simp) fun above stem hmet => ?_
  have hbelow : ∀ e ∈ (packageOf ["Ring_autogen.py", "Ring.py"]).below ["python"],
      e.1 = [] ++ ["Ring_autogen" ++ ".py"] ∨ e.1 = [] ++ ["Ring" ++ ".py"] := by decide +kernel
  obtain ⟨e, he⟩ := Option.isSome_iff_exists.1 (FileTree.isSome_entry?_of_file? hmet.1)
  rcases hbelow _ (FileTree.mem_below.2 ⟨by simp, he⟩) with heq | heq
  all_goals
    obtain ⟨rfl, hlast⟩ := List.append_inj' heq rfl
    rw [(String.append_left_inj _).1 (List.singleton_inj.1 hlast)]
    decide

theorem takes_one_of_ring :
    let modules := indexModules (.ofSettings {}) ⟨.javascript, ⟨"js/src"⟩⟩ false
      ["Ring.autogen.js", "Ring.js"] []
    Xor ("./Ring.autogen.js" ∈ modules) ("./Ring.js" ∈ modules) ∧
      ∃ modules, planPackage (.ofSettings {}) ⟨.python, ⟨"python"⟩⟩
          (packageOf ["Ring_autogen.py", "Ring.py"]) = .ok modules ∧
        Xor (".Ring_autogen" ∈ modules) (".Ring" ∈ modules) := by
  intro modules
  have hshort : ∀ s mark : String, mark.toList.length = 8 → "Ring" ≠ s ++ mark := by
    intro s mark hmark h
    have hlength := congrArg (fun s : String => s.toList.length) h
    simp only [String.toList_append, List.length_append, hmark] at hlength
    exact absurd hlength (by simp)
  obtain ⟨hindex, hpackage⟩ := takes_one_of_generated_and_override
  constructor
  · refine ((hindex (.ofSettings {}) ⟨"js/src"⟩ ["Ring.autogen.js", "Ring.js"] [] "Ring" (by decide)
      (by decide) (by decide)).2 fun s h => absurd h (hshort s _ (by decide))).2 ?_
    exact ⟨fun _ => by decide, fun h => absurd (by decide) h⟩
  · obtain ⟨imported, modules, -, -, hmodules, htaken⟩ := hpackage (.ofSettings {}) ⟨"python"⟩
      (packageOf ["Ring_autogen.py", "Ring.py"]) ["python"] (by decide +kernel) (by decide +kernel)
    refine ⟨modules, hmodules, ?_⟩
    have hmet : Meets (packageOf ["Ring_autogen.py", "Ring.py"]) ["python"] ["Ring_autogen.py"] :=
      ⟨by decide +kernel, by decide⟩
    have hmet' : Meets (packageOf ["Ring_autogen.py", "Ring.py"]) ["python"] ["Ring.py"] :=
      ⟨by decide +kernel, by decide⟩
    obtain ⟨-, -, -, hone⟩ := htaken [] "Ring" hmet
    obtain ⟨-, hxor, -⟩ := hone fun s h => absurd h (hshort s _ (by decide))
    refine (hxor ⟨unshared_ring (by decide), unshared_ring (by decide)⟩).2 ?_
    exact ⟨fun _ => by decide, fun h => absurd hmet' h⟩

/-- The module path of a generated module that is left to its override is that of another file. -/
def dottedTree : FileTree :=
  (((packageOf ["d.a_autogen.py"]).put ["python", "d"] .dir).put ["python", "d", "a.py"] (.file .empty)).put
    ["python", "d", "a_autogen.py"] (.file .empty)

/-- Neither is taken where the override is an entry point or denied, of three files the middle one is an
override and left to an override as well, and with a dot in a name both module paths are listed. -/
theorem takes_none_of_barred :
    indexModules (.ofSettings {}) ⟨.javascript, ⟨"js/src"⟩⟩ false
        ["embed.autogen.js", "embed.js"] [] = [] ∧
      indexModules (.ofSettings {}) ⟨.javascript, ⟨"js/src"⟩⟩ false
        ["A.autogen.autogen.js", "A.autogen.js", "A.js"] [] = ["./A.js"] ∧
      planPackage (.ofSettings {}) ⟨.python, ⟨"python"⟩⟩
        (packageOf ["Mesh.py", "Mesh_autogen.py", "install.py", "install_autogen.py"]) = .ok [".Mesh"] ∧
      planPackage (.ofSettings {}) ⟨.python, ⟨"python"⟩⟩ dottedTree = .ok [".d.a", ".d.a_autogen"] := by
  decide +kernel

end Aggregate
end WrapperGen
