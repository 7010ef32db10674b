import WrapperGen.Proofs.Aggregate.Imports
import WrapperGen.Proofs.Placement.FrontImport
import WrapperGen.Proofs.Placement.PackageImport

/-!
# Specifiers of aggregation

The indexes and the aggregator write their imports in their own ways: an index puts `./` before a name, the
aggregator takes the output root off a path. Both write what a module in the place of the aggregating file
would write. From there on the way to what is imported leads down only, so the names of that way are all
there is to spell.
-/

namespace WrapperGen

namespace Placement

/-- From a directory to a file below it there is no step up. -/
theorem steps_of_below {dir file : Path} {names : List String}
    (h : file.components = dir.components ++ names.map .name) : steps dir file = (0, names) := by
  have hdir : dir.components = dir.components ++ ([] : List String).map .name := by simp
  rw [steps_eq hdir h]
  cases names <;> simp [beyond]

/-- What a module in a directory writes to import a module below that directory. -/
theorem importPath_python_of_below {root dir source file : Path} {above : List String}
    {module : String} (hsource : source.parent?.map Path.components = some dir.components)
    (h : file.components = dir.components ++ (above ++ [module ++ ".py"]).map .name) :
    (⟨.python, root⟩ : Placement).importPath source file =
      "." ++ ".".intercalate (above ++ [module]) := by
  obtain ⟨here, hparent, hhere⟩ := Option.map_eq_some_iff.1 hsource
  rw [← hhere] at h
  rw [importPath_python hparent (steps_of_below h), mapLast_concat, moduleName_append]
  rfl

theorem importPath_javascript_of_below {root dir source file : Path} {names : List String}
    (hsource : source.parent?.map Path.components = some dir.components)
    (h : file.components = dir.components ++ names.map .name) :
    (⟨.javascript, root⟩ : Placement).importPath source file = "./" ++ "/".intercalate names := by
  obtain ⟨here, hparent, hhere⟩ := Option.map_eq_some_iff.1 hsource
  rw [← hhere] at h
  rw [importPath_javascript hparent (steps_of_below h), if_pos rfl]

end Placement

theorem Path.components_parent?_child (dir : Path) {name : String} (h : Entries.isName name = true) :
    (dir.child name).parent?.map Path.components = some dir.components := by
  obtain ⟨above, hparent, habove⟩ := exists_parent (components_child dir h)
  rw [hparent, Option.map_some, habove]

namespace Aggregate

open Placement (importPath_python_of_below importPath_javascript_of_below)

variable {root : Path} {aggregator : String}

/-- The aggregator imports a module as a module in its own place would. -/
theorem modulePath?_eq_importPath (h : Entries.isName aggregator = true) {file : Path}
    {above : List String} {name : String}
    (hfile : file.components = root.components ++ (above ++ [name]).map .name)
    (hends : Text.endsWith ".py" name = true) :
    (⟨.python, root⟩ : Placement).modulePath? file =
      some ((⟨.python, root⟩ : Placement).importPath (root.child aggregator) file) := by
  obtain ⟨module, rfl⟩ := Text.endsWith_iff.1 hends
  rw [Placement.modulePath?_of_components (p := ⟨.python, root⟩) hfile,
    importPath_python_of_below (Path.components_parent?_child root h) hfile]

/-- A file that the aggregator imports is a module below the output root. -/
theorem exists_of_mem_importedFiles {r : PackageRules} {p : Placement} {t : FileTree}
    {imported : List Path} (h : importedFiles r p t = .ok imported) {file : Path}
    (hfile : file ∈ imported) : ∃ above name,
      file.components = p.root.components ++ (above ++ [name]).map .name ∧
      Text.endsWith p.target.moduleExtension name = true := by
  obtain ⟨root, above, stem, -, himp, rfl⟩ := (mem_importedFiles_iff h).1 hfile
  exact ⟨above, _, Path.components_foldl_child p.root himp.met.isName,
    p.target.endsWith_moduleExtension stem⟩

/-- No file that the aggregator selects is without a module. -/
theorem planPackage_eq_importPath (h : Entries.isName aggregator = true) (r : PackageRules)
    (t : FileTree) : planPackage r ⟨.python, root⟩ t =
      (importedFiles r ⟨.python, root⟩ t).map
        (·.map ((⟨.python, root⟩ : Placement).importPath (root.child aggregator))) := by
  rw [planPackage_eq_map]
  cases himported : importedFiles r ⟨.python, root⟩ t with
  | error e => rfl
  | ok imported =>
    refine congrArg Except.ok ?_
    rw [← List.filterMap_eq_map]
    refine List.filterMap_congr fun file hfile => ?_
    obtain ⟨above, name, hcomponents, hends⟩ := exists_of_mem_importedFiles himported hfile
    exact modulePath?_eq_importPath h hcomponents hends

variable {dir : Path} {name : String}

/-- An index exports a module next to it as it would import it. -/
theorem importPath_in_index (h : Entries.isName name = true) :
    (⟨.javascript, root⟩ : Placement).importPath (dir.child indexFile) (dir.child name) = "./" ++ name := by
  have hfile : (dir.child name).components = dir.components ++ [name].map .name :=
    Path.components_child dir h
  rw [importPath_javascript_of_below (Path.components_parent?_child dir (by decide)) hfile,
    String.intercalate_singleton]

theorem importPath_to_index (h : Entries.isName name = true) :
    (⟨.javascript, root⟩ : Placement).importPath (dir.child indexFile)
      ((dir.child name).child indexFile) = indexIn name := by
  have hfile : ((dir.child name).child indexFile).components =
      dir.components ++ [name, indexFile].map .name := by
    rw [Path.components_child _ (by decide), Path.components_child dir h]
    simp
  rw [importPath_javascript_of_below (Path.components_parent?_child dir (by decide)) hfile]
  simp [indexIn, String.append_assoc]

/-- What aggregation writes to import a module is what a module in the place of the aggregating file would
write.

Below any output root the aggregator has a module for every file that ends as a module does, and it is what
a module in the root writes to import that file; so each file that it selects gives one import. In any
directory an index exports its files, and the indexes of its directories, by their imports from the index. -/
theorem specifiers_eq_importPath :
    (∀ (root : Path) (aggregator : String), Entries.isName aggregator = true →
      let p : Placement := ⟨.python, root⟩
      (∀ (file : Path) (above : List String) (name : String),
        file.components = root.components ++ (above ++ [name]).map .name →
          Text.endsWith ".py" name = true →
            p.modulePath? file = some (p.importPath (root.child aggregator) file)) ∧
      ∀ (r : PackageRules) (t : FileTree), planPackage r p t =
        (importedFiles r p t).map (·.map (p.importPath (root.child aggregator)))) ∧
    (∀ (root dir : Path) (r : IndexRules) (inBase : Bool) (files dirs : List String),
      (∀ f ∈ files, Entries.isName f = true) → (∀ d ∈ dirs, Entries.isName d = true) →
        let p : Placement := ⟨.javascript, root⟩
        let index := dir.child indexFile
        indexModules r p inBase files dirs =
          ((Names.sorted files).filter (r.lists p inBase files)).map
              (fun f => p.importPath index (dir.child f)) ++
            (Names.sorted dirs).map fun d => p.importPath index ((dir.child d).child indexFile)) := by
  constructor
  · intro root aggregator haggregator p
    exact ⟨fun _ _ _ => modulePath?_eq_importPath haggregator, planPackage_eq_importPath haggregator⟩
  · intro root dir r inBase files dirs hfiles hdirs p index
    refine congrArg₂ (· ++ ·) ?_ ?_
    · refine List.map_congr_left fun f hf => (importPath_in_index (hfiles f ?_)).symm
      exact (Names.mem_sorted f files).1 (List.mem_filter.1 hf).1
    · exact List.map_congr_left fun d hd =>
        (importPath_to_index (hdirs d ((Names.mem_sorted d dirs).1 hd))).symm

/-- An output root that begins with a dot and ends in separators, and the working directory. -/
theorem specifiers_of_ring :
    let p : Placement := ⟨.python, ⟨"./python//"⟩⟩
    let front : Placement := ⟨.javascript, ⟨""⟩⟩
    let rules : IndexRules := ⟨"_base", []⟩
    p.modulePath? ⟨"./python/geometries/Ring.py"⟩ = some ".geometries.Ring" ∧
      p.importPath (p.root.child "_package.py") ⟨"./python/geometries/Ring.py"⟩ = ".geometries.Ring" ∧
      rules.lists front false ["Ring.js"] "Ring.js" = true ∧
      indexModules rules front false ["Ring.js"] ["core"] =
        [front.importPath (front.root.child indexFile) (front.root.child "Ring.js"),
          front.importPath (front.root.child indexFile) ((front.root.child "core").child indexFile)] := by
  intro p front rules
  obtain ⟨hpackage, hindex⟩ := specifiers_eq_importPath
  have hmodule : p.modulePath? ⟨"./python/geometries/Ring.py"⟩ = some ".geometries.Ring" := by decide
  have himport := (hpackage p.root "_package.py" (by decide)).1
    ⟨"./python/geometries/Ring.py"⟩ ["geometries"] "Ring.py" (by decide) (by decide)
  have hlists : rules.lists front false ["Ring.js"] "Ring.js" = true := by decide
  have hfiles : (Names.sorted ["Ring.js"]).filter (rules.lists front false ["Ring.js"]) = ["Ring.js"] := by
    decide
  have hdirs : Names.sorted ["core"] = ["core"] := by decide
  have hmodules : indexModules rules front false ["Ring.js"] ["core"] =
      ((Names.sorted ["Ring.js"]).filter (rules.lists front false ["Ring.js"])).map
          (fun f => front.importPath (front.root.child indexFile) (front.root.child f)) ++
        (Names.sorted ["core"]).map
          (fun d => front.importPath (front.root.child indexFile)
            ((front.root.child d).child indexFile)) :=
    hindex front.root front.root rules false ["Ring.js"] ["core"] (by decide) (by decide)
  rw [hfiles, hdirs] at hmodules
  exact ⟨hmodule, Option.some.inj (himport.symm.trans hmodule), hlists, hmodules⟩

end Aggregate
end WrapperGen
