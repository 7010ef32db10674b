import WrapperGen.Template.Catalog
import WrapperGen.Wrapper.Construction
import WrapperGen.Wrapper.Declaration

/-!
# Building wrappers

A wrapper is built from a resolved class and its references. It fails if a property has a name that is
not an identifier or lacks a default literal, or if a constructor argument cannot be written.
-/

namespace WrapperGen

/-- What a wrapper is built from. -/
structure Subject where
  resolved : Resolved
  references : References
  superclass : Reference
  base : Reference
  /-- The file the wrapper is written to. -/
  file : Path
  overrideImport : Option String

namespace Wrapper

/-- Refuse own properties whose names are not identifiers. -/
def checkNames (r : Resolved) : Except Error Unit :=
  match r.ownProperties.entries.find? fun e => !Symbol.isIdentifier e.1 with
  | some (name, _) => .error (.render r.className (.notIdentifier name))
  | none => .ok ()

/-- An own property as a field. -/
def fieldOf (target : Target) (r : Resolved) (base : String) (name : String) (p : Property) :
    Except Error Field :=
  match p.defaultLiteral? target with
  | none => .error (.render r.className (.noDefault name p.kind target.name))
  | some literal =>
    .ok {
      name
      property := p
      default := literal
      serializer := p.serializer? target
      external := r.external.contains name
      declaration := match target with
        | .javascript => ""
        | .python => declaration r.className base literal p }

def fieldsOf (target : Target) (r : Resolved) (base : String) : Except Error (List Field) :=
  r.ownProperties.entries.mapM fun (e : String × Property) => fieldOf target r base e.1 e.2

/-- The imports of a class besides its superclass. -/
def importsOf (target : Target) (s : Subject) : List Import :=
  ((s.references.toList.map (·.2)).filter (·.className ≠ s.superclass.className)).map
    (Import.ofReference target)

/-- How a package module imports one of the modules written by hand at a configured path. -/
def handImport (settings : Settings) (s : Subject) (path : String) : String :=
  let p := settings.placement .python
  p.importPath s.file (p.root.child (UnitPath.normalize path ++ Target.python.moduleExtension))

/-- What both target languages write alike. -/
def common (settings : Settings) (target : Target) (s : Subject) (fields : List Field) : Wrapper :=
  { className := s.resolved.className
    exportName := Symbol.exported target s.resolved.className s.overrideImport.isSome
    superClass := Import.ofReference target s.superclass
    imports := importsOf target s
    library := settings.library
    arguments := []
    parameters := []
    fields
    helpersImport := s.base.importPath
    traitsImport := ""
    enumsImport := ""
    overrideImport := s.overrideImport
    docsUrl := settings.docsUrl s.resolved.docPath }

def build (settings : Settings) (target : Target) (s : Subject) : Except Error Wrapper := do
  checkNames s.resolved
  let w := common settings target s (← fieldsOf target s.resolved s.base.className)
  match target with
  | .javascript =>
    return { w with arguments := ← argumentExpressions s.resolved }
  | .python =>
    return { w with
      parameters := ← initParameters s.resolved
      traitsImport := handImport settings s settings.layout.traitsPath
      enumsImport := handImport settings s settings.layout.enumsPath }

/-- The template of a target language's wrappers. -/
def template : Target → Template
  | .javascript => Template.jsWrapper
  | .python => Template.pyWrapper

def text (target : Target) (w : Wrapper) : Except Error String :=
  (template target).render w.className w.value

end Wrapper
end WrapperGen
