import WrapperGen.ClassRecord
import WrapperGen.Reference
import WrapperGen.Settings
import WrapperGen.Symbol

/-!
# Wrappers

A wrapper is all that the module generated for a class says, before it is put into the words of a
template. Both target languages share it; what only one of them writes is empty for the other.
-/

namespace WrapperGen

/-- The version that generated files name. -/
def version : String := "0.3.0"

/-- An import of one symbol. -/
structure Import where
  symbol : String
  path : String
deriving DecidableEq, Repr, Inhabited

/-- A named parameter and the literal it defaults to. -/
structure Parameter where
  name : String
  default : String
deriving DecidableEq, Repr, Inhabited

/-- A property as a wrapper writes it. -/
structure Field where
  name : String
  property : Property
  /-- The literal of its default value. -/
  default : String
  serializer : Option String
  /-- Whether the library sets the property itself. -/
  external : Bool
  declaration : String
deriving DecidableEq, Repr, Inhabited

/-- What the generated module of a class says. -/
structure Wrapper where
  className : String
  exportName : String
  superClass : Import
  imports : List Import
  library : Library
  /-- The expressions an instance of the library's class is constructed with. -/
  arguments : List String
  /-- The parameters of the initializer. -/
  parameters : List Parameter
  fields : List Field
  helpersImport : String
  traitsImport : String
  enumsImport : String
  /-- The import path of the override, if there is one. -/
  overrideImport : Option String
  docsUrl : String
deriving DecidableEq, Repr, Inhabited

namespace Import

def value (i : Import) : Value := .record [("symbol", .text i.symbol), ("path", .text i.path)]

/-- The import of what a reference leads to. -/
def ofReference (target : Target) (r : Reference) : Import :=
  ⟨Symbol.imported target r.className, r.importPath⟩

end Import

def Parameter.value (p : Parameter) : Value :=
  .record [("name", .text p.name), ("default", .text p.default)]

def Field.value (f : Field) : Value :=
  .record [("name", .text f.name), ("kind", .text f.property.kind), ("default", .text f.default),
    ("nullable", .bool f.property.isNullable),
    ("grouping", .ofOption (.text ·.key) f.property.grouping?),
    ("converter", .ofOption .text f.property.converter?),
    ("assigner", .ofOption .text f.property.assigner?),
    ("serializer", .ofOption .text f.serializer),
    ("enum_type", .ofOption .text f.property.enumType?), ("external", .bool f.external),
    ("declaration", .text f.declaration)]

namespace Wrapper

/-- The fields whose synchronized values need a serializer. -/
def serialized (w : Wrapper) : List Field := w.fields.filter (·.serializer.isSome)

/-- The fields that range over an enumeration. -/
def enums (w : Wrapper) : List Field := w.fields.filter (·.property.enumType?.isSome)

/-- A wrapper as a value, from which templates are filled. -/
def value (w : Wrapper) : Value :=
  .record [("version", .text version), ("class_name", .text w.className),
    ("model_name", .text (Symbol.model w.className)), ("export_name", .text w.exportName),
    ("super_class", w.superClass.value), ("imports", .list (w.imports.map Import.value)),
    ("library", w.library.value), ("constructor_args", .ofTexts w.arguments),
    ("init_args", .list (w.parameters.map Parameter.value)),
    ("properties", .list (w.fields.map Field.value)),
    ("serialized", .list (w.serialized.map Field.value)),
    ("enums", .list (w.enums.map Field.value)),
    ("has_serializers", .bool !w.serialized.isEmpty), ("has_enums", .bool !w.enums.isEmpty),
    ("helpers_import", .text w.helpersImport), ("traits_import", .text w.traitsImport),
    ("enums_import", .text w.enumsImport), ("override_import", .ofOption .text w.overrideImport),
    ("docs_url", .text w.docsUrl)]

end Wrapper
end WrapperGen
