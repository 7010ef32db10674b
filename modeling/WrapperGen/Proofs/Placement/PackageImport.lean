import WrapperGen.Proofs.Placement.Places

/-!
# Imports of the package

An import of the package has one sign for three things: leading dots go up, the dots after them
separate names, and names are written as they are. It therefore leads to the file it was written for
only where no dot stands in the names that it has to spell, and where there is a name to spell.
-/

namespace WrapperGen

namespace Placement

/-- How many dots a text begins with. -/
def leading (text : String) : Nat := (text.toList.takeWhile (· = '.')).length

/-- Where a dotted import leads from the package directory it stands in: `n` leading dots go up `n - 1`
directories, and every dot after them ends a name. -/
def readModule (here : List Component) (text : String) : List Component :=
  let rest := text.toList.dropWhile (· = '.')
  here.take (here.length - (leading text - 1)) ++ (Text.pieces '.' (.ofList rest)).map .name

/-- A dotted import denotes a file when it leads to the module that the file holds. -/
def Denotes (here : List Component) (text : String) (file : Path) : Prop :=
  ∃ dir module, module ≠ "" ∧ file.place = dir ++ [.name (module ++ ".py")] ∧
    readModule here text = dir ++ [.name module]

/-- What it takes for a module to be imported from the directories of another one. -/
structure Spellable (sourceDirs fileDirs : List String) (module : String) : Prop where
  nonempty : module ≠ ""
  plain : '.' ∉ module.toList
  dirs : ∀ n ∈ beyond sourceDirs fileDirs, '.' ∉ n.toList
  /-- The importing module does not lie below a directory with the name of the imported file. -/
  apart : ¬ fileDirs ++ [module ++ ".py"] <+: sourceDirs

section Beyond

variable {α : Type} [DecidableEq α]

theorem beyond_eq_nil_iff {a b : List α} : beyond a b = [] ↔ b <+: a := by
  induction a generalizing b with
  | nil => cases b <;> simp [beyond]
  | cons c a ih =>
    cases b with
    | nil => simp [beyond]
    | cons d b =>
      by_cases h : c = d
      · subst h
        simpa [beyond, List.cons_prefix_cons] using ih
      · simp [beyond, h, List.cons_prefix_cons, Ne.symm h]

theorem beyond_concat {a b : List α} {x : α} (h : ¬ b ++ [x] <+: a) :
    beyond a (b ++ [x]) = beyond a b ++ [x] ∧ beyond (b ++ [x]) a = beyond b a := by
  induction a generalizing b with
  | nil => cases b <;> simp [beyond]
  | cons c a ih =>
    cases b with
    | nil =>
      have hne : c ≠ x := by simpa [List.cons_prefix_cons, eq_comm] using h
      simp [beyond, hne, Ne.symm hne]
    | cons d b =>
      by_cases hc : c = d
      · subst hc
        have hrest : ¬ b ++ [x] <+: a := by simpa [List.cons_prefix_cons] using h
        simpa [beyond] using ih hrest
      · simp [beyond, hc, Ne.symm hc]

end Beyond

theorem mapLast_concat (f : String → String) (names : List String) (last : String) :
    mapLast f (names ++ [last]) = names ++ [f last] := by
  induction names with
  | nil => rfl
  | cons n names ih =>
    cases names with
    | nil => rfl
    | cons m names => simpa [mapLast] using ih

/-- The text of an import that goes up some steps and spells some names. -/
def dotted (ups : Nat) (names : List String) : String :=
  String.ofList (List.replicate (ups + 1) '.') ++ ".".intercalate names

theorem importPath_python {root source dir file : Path} {ups : Nat} {names : List String}
    (hparent : source.parent? = some dir) (hsteps : steps dir file = (ups, names)) :
    (⟨.python, root⟩ : Placement).importPath source file = dotted ups (mapLast moduleName names) := by
  simp [importPath, hparent, hsteps, dotted]

theorem toList_dotted (ups : Nat) (names : List String) :
    (dotted ups names).toList = List.replicate (ups + 1) '.' ++ (".".intercalate names).toList := by
  simp [dotted]

theorem lt_leading_dotted (ups : Nat) (names : List String) : ups < leading (dotted ups names) := by
  have hdots : ∀ c ∈ List.replicate (ups + 1) '.', decide (c = '.') = true := by simp
  rw [leading, toList_dotted, List.takeWhile_append_of_pos hdots, List.length_append,
    List.length_replicate]
  omega

theorem readModule_eq (here : List Component) (text : String) :
    ∃ read : List String, (∀ n ∈ read, '.' ∉ n.toList) ∧
      readModule here text = here.take (here.length - (leading text - 1)) ++ read.map .name :=
  ⟨_, fun _ hn => Text.not_mem_of_mem_pieces hn, rfl⟩

/-- A text whose pieces are not empty has no dot where it begins. -/
theorem leading_of_pieces {text : String} (h : "" ∉ Text.pieces '.' text) :
    text.toList.takeWhile (· = '.') = [] ∧ text.toList.dropWhile (· = '.') = text.toList := by
  cases hchars : text.toList with
  | nil => simp
  | cons c cs =>
    have hc : c ≠ '.' := by
      rintro rfl
      rw [Text.pieces, hchars, List.splitOn_cons_eq_if_modifyHead] at h
      simp at h
    simp [hc]

/-- Names without dots are read back as they were written. -/
theorem readModule_dotted {here : List Component} {ups : Nat} {names : List String}
    (hne : names ≠ []) (hnames : ∀ n ∈ names, n ≠ "" ∧ '.' ∉ n.toList) :
    readModule here (dotted ups names) = here.take (here.length - ups) ++ names.map .name := by
  have hpieces : Text.pieces '.' (".".intercalate names) = names :=
    Text.pieces_intercalate rfl hne fun n hn => (hnames n hn).2
  have hempty : "" ∉ Text.pieces '.' (".".intercalate names) := by
    rw [hpieces]
    exact fun h => (hnames "" h).1 rfl
  obtain ⟨htake, hdrop⟩ := leading_of_pieces hempty
  have hdots : ∀ c ∈ List.replicate (ups + 1) '.', decide (c = '.') = true := by simp
  rw [readModule, leading, toList_dotted, List.takeWhile_append_of_pos hdots,
    List.dropWhile_append_of_pos hdots, htake, hdrop, String.ofList_toList, hpieces]
  simp

/-- What is read as names has no dots, and what is written as steps up is read so, at least. A text that
leads to names beyond a directory therefore has none that holds a dot. -/
theorem not_mem_of_readModule {above : List Component} {below written names : List String}
    (h : readModule (above ++ below.map .name) (dotted below.length written) =
      above ++ names.map .name) : ∀ n ∈ names, '.' ∉ n.toList := by
  obtain ⟨read, hpieces, hread⟩ :=
    readModule_eq (above ++ below.map .name) (dotted below.length written)
  have hdots := lt_leading_dotted below.length written
  rw [h] at hread
  have hlength : names.length ≤ read.length := by
    have := congrArg List.length hread
    simp only [List.length_append, List.length_take, List.length_map] at this
    omega
  have hsuffix : names.map Component.name <:+ read.map .name := by
    refine List.suffix_of_suffix_length_le (List.suffix_append above _) ?_ (by simpa using hlength)
    rw [hread]
    exact List.suffix_append _ _
  intro n hn
  have hmem := hsuffix.subset (List.mem_map_of_mem hn)
  obtain ⟨m, hm, rfl⟩ : ∃ m ∈ read, m = n := by simpa using hmem
  exact hpieces m hm

theorem moduleName_append (module : String) : moduleName (module ++ ".py") = module := by
  rw [moduleName, (Text.beforeEnd?_eq_some_iff _ _ _).2 rfl, Option.getD_some]

/-- A text with no names to spell denotes no file. -/
theorem not_denotes_dotted_nil (here : List Component) (ups : Nat) (file : Path) :
    ¬ Denotes here (dotted ups []) file := by
  rintro ⟨dir, module, hne, -, hread⟩
  have hdots : (dotted ups []).toList.dropWhile (· = '.') = [] := by
    rw [toList_dotted]
    simp
  rw [readModule, hdots] at hread
  have hempty := List.append_inj_right' hread (by simp [Text.pieces])
  exact hne (by simpa [Text.pieces, eq_comm] using hempty)

/-- Written names denote their module in just those cases where none of them holds a dot. -/
theorem denotes_dotted_iff {above : List Component} {back names : List String} {module : String}
    {file : Path} (hplace : file.place = above ++ (names ++ [module ++ ".py"]).map .name)
    (hnames : "" ∉ names) :
    Denotes (above ++ back.map .name) (dotted back.length (names ++ [module])) file ↔
      module ≠ "" ∧ ∀ n ∈ names ++ [module], '.' ∉ n.toList := by
  constructor
  · rintro ⟨dir, read, hne, hread, hmodule⟩
    obtain ⟨rfl, rfl⟩ : above ++ names.map .name = dir ∧ module = read := by
      rw [hplace, List.map_append, ← List.append_assoc] at hread
      obtain ⟨hdir, hlast⟩ := List.append_inj' hread rfl
      exact ⟨hdir, by simpa using hlast⟩
    rw [List.append_assoc, ← List.map_singleton, ← List.map_append] at hmodule
    exact ⟨hne, not_mem_of_readModule hmodule⟩
  · rintro ⟨hne, hplain⟩
    have hspelled : ∀ n ∈ names ++ [module], n ≠ "" ∧ '.' ∉ n.toList := by
      intro n hn
      refine ⟨fun he => ?_, hplain n hn⟩
      rcases List.mem_append.1 hn with hn | hn
      · exact hnames (he ▸ hn)
      · exact hne ((List.mem_singleton.1 hn).symm.trans he)
    refine ⟨above ++ names.map .name, module, hne, by simp [hplace], ?_⟩
    rw [readModule_dotted (by simp) hspelled, take_above]
    simp

/-- Which modules of an output tree an import of the package leads to: those without dots in the names to
spell. -/
theorem denotes_iff {root source file : Path} {dirs fileDirs : List String} {name module : String}
    (hsource : source.components = root.components ++ (dirs ++ [name]).map .name)
    (hfile : file.components = root.components ++ (fileDirs ++ [module ++ ".py"]).map .name) :
    ∃ here, source.parent? = some here ∧
      (Denotes here.place ((⟨.python, root⟩ : Placement).importPath source file) file ↔
        Spellable dirs fileDirs module) := by
  obtain ⟨here, hparent, hdir⟩ := exists_parent_of_file hsource
  refine ⟨here, hparent, ?_⟩
  rw [importPath_python hparent (steps_eq hdir hfile)]
  by_cases hbegin : fileDirs ++ [module ++ ".py"] <+: dirs
  · rw [beyond_eq_nil_iff.2 hbegin]
    exact ⟨fun h => absurd h (not_denotes_dotted_nil _ _ _), fun h => absurd hbegin h.apart⟩
  -- The file itself is beyond what the two ways have in common, so it is among the names to spell.
  obtain ⟨hnames, hups⟩ := beyond_concat hbegin
  obtain ⟨shared, -, -, hhere, hplace⟩ := exists_parting hdir hfile
  have hvalid : ∀ n ∈ beyond dirs (fileDirs ++ [module ++ ".py"]), Entries.isName n = true :=
    isName_of_mem_beyond hfile
  rw [hnames] at hplace hvalid
  rw [hups] at hhere
  have hempty : "" ∉ beyond dirs fileDirs :=
    fun hmem => absurd (hvalid "" (List.mem_append_left _ hmem)) (by decide)
  rw [hnames, hups, mapLast_concat, moduleName_append, hhere, denotes_dotted_iff hplace hempty]
  constructor
  · rintro ⟨hne, hplain⟩
    exact ⟨hne, hplain module (by simp), fun n hn => hplain n (by simp [hn]), hbegin⟩
  · intro h
    refine ⟨h.nonempty, fun n hn => ?_⟩
    rcases List.mem_append.1 hn with hn | hn
    · exact h.dirs n hn
    · rw [List.mem_singleton.1 hn]
      exact h.plain

/-- An import of the package, from the generated file of one class to the generated file or the override of
another, denotes that file in just those cases where its names can be spelled. -/
theorem package_import_denotes_iff (root : Path) {source target : String} (hsource : '/' ∉ source.toList)
    (htarget : '/' ∉ target.toList) (sourceUnit targetUnit : String) :
    let p : Placement := ⟨.python, root⟩
    let file := p.generatedPath source sourceUnit
    let dirs := UnitPath.dirs sourceUnit
    let targetDirs := UnitPath.dirs targetUnit
    ∃ here, file.parent? = some here ∧
      (let generated := p.generatedPath target targetUnit
       Denotes here.place (p.importPath file generated) generated ↔
        Spellable dirs targetDirs (target ++ "_autogen")) ∧
      (let override := p.overridePath target targetUnit
       Denotes here.place (p.importPath file override) override ↔
        Spellable dirs targetDirs target) := by
  intro p file dirs targetDirs
  have hgenerated : (p.generatedPath target targetUnit).components =
      root.components ++ (targetDirs ++ [target ++ "_autogen" ++ ".py"]).map .name := by
    rw [String.append_assoc]
    exact p.components_generatedPath htarget targetUnit
  have hfile := p.components_generatedPath hsource sourceUnit
  obtain ⟨here, hparent, hiff⟩ := denotes_iff hfile hgenerated
  obtain ⟨here', hparent', hiff'⟩ := denotes_iff hfile (p.components_overridePath htarget targetUnit)
  obtain rfl := Option.some.inj (hparent.symm.trans hparent')
  exact ⟨here, hparent, hiff, hiff'⟩

theorem package_import_denotes_shape :
    let p : Placement := ⟨.python, ⟨"../pkg"⟩⟩
    let ring := p.generatedPath "Ring" "geometries/Ring"
    let shape := p.overridePath "Shape" "core/Shape.py"
    p.importPath ring shape = "..core.Shape" ∧
      ∃ here, ring.parent? = some here ∧ Denotes here.place "..core.Shape" shape := by
  intro p ring shape
  have htext : p.importPath ring shape = "..core.Shape" := by decide
  have hspellable :
      Spellable (UnitPath.dirs "geometries/Ring") (UnitPath.dirs "core/Shape.py") "Shape" :=
    ⟨by decide, by decide, by decide, by decide⟩
  have hring : '/' ∉ "Ring".toList := by decide
  have hshape : '/' ∉ "Shape".toList := by decide
  obtain ⟨here, hparent, -, hoverride⟩ :=
    package_import_denotes_iff ⟨"../pkg"⟩ hring hshape "geometries/Ring" "core/Shape.py"
  have hdenotes : Denotes here.place (p.importPath ring shape) shape := hoverride.2 hspellable
  rw [htext] at hdenotes
  exact ⟨htext, here, hparent, hdenotes⟩

/-- A directory whose name holds a dot is read as two directories, and a file whose name a directory above
the importing module has is not named at all. -/
theorem package_import_misses_sphere_and_base :
    let p : Placement := ⟨.python, ⟨"pkg"⟩⟩
    let mesh := p.generatedPath "Mesh" "Mesh"
    let sphere := p.generatedPath "Sphere" "v1.2/Sphere"
    let ring := p.generatedPath "Ring" "Base_autogen.py/Ring"
    let base := p.generatedPath "Base" "Base"
    p.importPath mesh sphere = ".v1.2.Sphere_autogen" ∧
      (∃ here, mesh.parent? = some here ∧ ¬ Denotes here.place ".v1.2.Sphere_autogen" sphere) ∧
      p.importPath ring base = "." ∧
      ∃ here, ring.parent? = some here ∧ ¬ Denotes here.place "." base := by
  intro p mesh sphere ring base
  have hsphere : p.importPath mesh sphere = ".v1.2.Sphere_autogen" := by decide
  have hbase : p.importPath ring base = "." := by decide
  have hmesh : mesh.components = p.root.components ++ ([] ++ ["Mesh_autogen.py"]).map .name := by
    decide
  have hfar : sphere.components =
      p.root.components ++ (["v1.2"] ++ ["Sphere_autogen" ++ ".py"]).map .name := by decide
  have hring : ring.components =
      p.root.components ++ (["Base_autogen.py"] ++ ["Ring_autogen.py"]).map .name := by decide
  have hnear : base.components = p.root.components ++ ([] ++ ["Base_autogen" ++ ".py"]).map .name := by
    decide
  obtain ⟨here, hparent, hiff⟩ := denotes_iff hmesh hfar
  obtain ⟨below, hbelow, hiff'⟩ := denotes_iff hring hnear
  refine ⟨hsphere, ⟨here, hparent, fun h => ?_⟩, hbase, below, hbelow, fun h => ?_⟩
  · have hdirs := (hiff.1 (hsphere.symm ▸ h)).dirs
    exact absurd (hdirs "v1.2" (by decide)) (by decide)
  · exact (hiff'.1 (hbase.symm ▸ h)).apart (by decide)

end Placement
end WrapperGen
