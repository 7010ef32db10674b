import WrapperGen.FileTree
import WrapperGen.Placement
import WrapperGen.Text.Shown
import WrapperGen.Toml.Reader

/-!
# Settings

The settings of a run come from a TOML text with one section for the run, one for the layout of the
output and one per target language. Whatever is not set has a default.
-/

namespace WrapperGen

/-- What a run reads. -/
structure RunSettings where
  /-- The file of the class table. -/
  classes : Path := ⟨"class-config.json"⟩
  /-- The root of the wrapped library; without one the class table names the units itself. -/
  sourceRoot : Option Path := none
  sourceExtension : String := "js"
  included : List String := []
  excluded : List String := []
  logLevel : String := "info"
  docsBase : String := "https://threejs.org/docs/#api/"
deriving DecidableEq, Repr, Inhabited

/-- Where in an output tree the parts written by hand stand. -/
structure LayoutSettings where
  /-- The class at which every chain of superclasses ends. -/
  baseClass : String := "Three"
  /-- The unit path of the base type. -/
  basePath : String := "_base/Three"
  /-- The directory whose generated modules are not indexed. -/
  baseDir : String := "_base"
  traitsPath : String := "traits"
  enumsPath : String := "enums"
deriving DecidableEq, Repr, Inhabited

/-- How modules of the front end are generated. -/
structure FrontSettings where
  enabled : Bool := true
  outputDir : Path := ⟨"js/src"⟩
  libraryModule : String := "three"
  libraryNamespace : String := "THREE"
  entryPoints : List String := ["embed.js", "extension.js", "jupyterlab-plugin.js"]
deriving DecidableEq, Repr, Inhabited

/-- How modules of the package are generated. -/
structure PackageSettings where
  enabled : Bool := true
  outputDir : Path := ⟨"python"⟩
  aggregator : String := "_package.py"
  denied : List String := ["_package.py", "_version.py", "install.py"]
deriving DecidableEq, Repr, Inhabited

/-- The wrapped library: its module and the name it is imported as. -/
structure Library where
  module : String
  space : String
deriving DecidableEq, Repr, Inhabited

def Library.value (l : Library) : Value :=
  .record [("module", .text l.module), ("namespace", .text l.space)]

/-- The settings of a run. -/
structure Settings where
  run : RunSettings := {}
  layout : LayoutSettings := {}
  javascript : FrontSettings := {}
  python : PackageSettings := {}
deriving DecidableEq, Repr, Inhabited

open Document (orElse? asBool? asText? asTexts?)

def Document.asPath? (d : Document) : Option Path := d.asText?.map Path.mk

namespace RunSettings

def fieldNames : List String :=
  ["classes", "source_root", "source_extension", "include", "exclude", "log_level", "docs_base_url"]

def ofDocument? (d : Document) : Option RunSettings := do
  let standard : RunSettings := {}
  match ← d.slots? fieldNames .items with
  | [classes, root, extension, incl, excl, level, docs] =>
    return {
      classes := ← orElse? Document.asPath? standard.classes classes
      sourceRoot := ← Document.optional? Document.asPath? root
      sourceExtension := ← orElse? asText? standard.sourceExtension extension
      included := ← orElse? asTexts? standard.included incl
      excluded := ← orElse? asTexts? standard.excluded excl
      logLevel := ← orElse? asText? standard.logLevel level
      docsBase := ← orElse? asText? standard.docsBase docs }
  | _ => none

def value (s : RunSettings) : Value :=
  .record (fieldNames.zip
    [.text s.classes.text, .ofOption (.text ·.text) s.sourceRoot, .text s.sourceExtension,
      .ofTexts s.included, .ofTexts s.excluded, .text s.logLevel, .text s.docsBase])

end RunSettings

namespace LayoutSettings

def fieldNames : List String := ["base_class", "base_path", "base_dir", "traits_path", "enums_path"]

def ofDocument? (d : Document) : Option LayoutSettings := do
  let standard : LayoutSettings := {}
  match ← d.slots? fieldNames .items with
  | [cls, path, dir, traits, enums] =>
    return {
      baseClass := ← orElse? asText? standard.baseClass cls
      basePath := ← orElse? asText? standard.basePath path
      baseDir := ← orElse? asText? standard.baseDir dir
      traitsPath := ← orElse? asText? standard.traitsPath traits
      enumsPath := ← orElse? asText? standard.enumsPath enums }
  | _ => none

def value (s : LayoutSettings) : Value :=
  .record (fieldNames.zip
    [.text s.baseClass, .text s.basePath, .text s.baseDir, .text s.traitsPath, .text s.enumsPath])

end LayoutSettings

namespace FrontSettings

def fieldNames : List String :=
  ["enabled", "output_dir", "library_module", "library_namespace", "entry_points"]

def ofDocument? (d : Document) : Option FrontSettings := do
  let standard : FrontSettings := {}
  match ← d.slots? fieldNames .items with
  | [enabled, dir, lib, space, entries] =>
    return {
      enabled := ← orElse? asBool? standard.enabled enabled
      outputDir := ← orElse? Document.asPath? standard.outputDir dir
      libraryModule := ← orElse? asText? standard.libraryModule lib
      libraryNamespace := ← orElse? asText? standard.libraryNamespace space
      entryPoints := ← orElse? asTexts? standard.entryPoints entries }
  | _ => none

def value (s : FrontSettings) : Value :=
  .record (fieldNames.zip
    [.bool s.enabled, .text s.outputDir.text, .text s.libraryModule, .text s.libraryNamespace,
      .ofTexts s.entryPoints])

end FrontSettings

namespace PackageSettings

def fieldNames : List String := ["enabled", "output_dir", "aggregator", "deny_list"]

def ofDocument? (d : Document) : Option PackageSettings := do
  let standard : PackageSettings := {}
  match ← d.slots? fieldNames .items with
  | [enabled, dir, aggregator, denied] =>
    return {
      enabled := ← orElse? asBool? standard.enabled enabled
      outputDir := ← orElse? Document.asPath? standard.outputDir dir
      aggregator := ← orElse? asText? standard.aggregator aggregator
      denied := ← orElse? asTexts? standard.denied denied }
  | _ => none

def value (s : PackageSettings) : Value :=
  .record (fieldNames.zip
    [.bool s.enabled, .text s.outputDir.text, .text s.aggregator, .ofTexts s.denied])

end PackageSettings

namespace Settings

def sectionNames : List String := ["generator", "layout", "javascript", "python"]

/-- The settings a document describes, not yet checked. -/
def ofDocument? (d : Document) : Option Settings := do
  match ← d.slots? sectionNames .items with
  | [run, layout, front, package] =>
    return {
      run := ← orElse? RunSettings.ofDocument? {} run
      layout := ← orElse? LayoutSettings.ofDocument? {} layout
      javascript := ← orElse? FrontSettings.ofDocument? {} front
      python := ← orElse? PackageSettings.ofDocument? {} package }
  | _ => none

/-- Settings as a value with every field present. -/
def value (s : Settings) : Value :=
  .record (sectionNames.zip [s.run.value, s.layout.value, s.javascript.value, s.python.value])

/-- The first fault of settings, if there is one. -/
def fault? (s : Settings) : Option SettingsFault :=
  if s.layout.baseClass = "" then some .emptyBaseClass
  else if s.run.sourceExtension = "" then some .emptySourceExtension
  else if !Text.endsWith ".py" s.python.aggregator then
    some (.aggregatorName (Text.shown s.python.aggregator))
  else if !s.javascript.enabled && !s.python.enabled then some .nothingEnabled
  else none

/-- The settings a text describes, without fault. -/
def ofText (text : String) : Except Error Settings :=
  match (Toml.read? text).bind ofDocument? with
  | none => .error (.settings .malformed)
  | some s =>
    match s.fault? with
    | some f => .error (.settings f)
    | none => .ok s

/-- Take every relative path as relative to a directory. -/
def rebase (s : Settings) (base : Path) : Settings :=
  { s with
    run := { s.run with
      classes := base.join s.run.classes
      sourceRoot := s.run.sourceRoot.map base.join }
    javascript := { s.javascript with outputDir := base.join s.javascript.outputDir }
    python := { s.python with outputDir := base.join s.python.outputDir } }

/-- The settings in a file, whose paths are relative to its directory. -/
def ofFile (tree : FileTree) (path : Path) : Except Error Settings := do
  let text ← (tree.readText path).mapError (.io path)
  let s ← ofText text
  return match path.parent? with
    | some dir => s.rebase dir
    | none => s

def isEnabled (s : Settings) : Target → Bool
  | .javascript => s.javascript.enabled
  | .python => s.python.enabled

def placement (s : Settings) : Target → Placement
  | .javascript => ⟨.javascript, s.javascript.outputDir⟩
  | .python => ⟨.python, s.python.outputDir⟩

theorem placement_target (s : Settings) (target : Target) : (s.placement target).target = target := by
  cases target <;> rfl

def library (s : Settings) : Library := ⟨s.javascript.libraryModule, s.javascript.libraryNamespace⟩

/-- The address of a class's documentation. -/
def docsUrl (s : Settings) (docPath : String) : String := s.run.docsBase ++ docPath

end Settings
end WrapperGen
