import WrapperGen.Property.Format
import WrapperGen.Text.Names
import WrapperGen.UnitPath

/-!
# Class records

A record is what a class table says about one class. All of it is optional: what is missing comes from
the ancestors or the defaults when the class is resolved.
-/

namespace WrapperGen

/-- One positional argument of a constructor. -/
inductive Argument where
  /-- The value of a property. -/
  | property (name : String)
  /-- All own properties in one keyed object. -/
  | parameters
deriving DecidableEq, Repr, Inhabited

namespace Argument

/-- The word that stands for all own properties. -/
def bagWord : String := "parameters"

def ofText (s : String) : Argument := if s = bagWord then parameters else property s

def text : Argument → String
  | property s => s
  | parameters => bagWord

end Argument

/-- What a class table says about one class. -/
structure ClassRecord where
  unitPath : Option String
  superClass : Option String
  /-- The properties declared on the class, in order. -/
  properties : Keyed Property
  arguments : Option (List Argument)
  /-- Classes or bare paths its wrapper imports besides those its properties name. -/
  dependencies : List String
  /-- Properties the library sets itself, sorted. -/
  external : List String
  docPath : Option String
deriving DecidableEq, Repr

namespace ClassRecord

def empty : ClassRecord := ⟨none, none, .empty, none, [], [], none⟩

instance : Inhabited ClassRecord := ⟨empty⟩

def located (unitPath : String) : ClassRecord := { empty with unitPath := some unitPath }

def extending (r : ClassRecord) (superClass : String) : ClassRecord :=
  { r with superClass := some superClass }

def withProperty (r : ClassRecord) (name : String) (p : Property) : ClassRecord :=
  { r with properties := r.properties.set name p }

def withArguments (r : ClassRecord) (words : List String) : ClassRecord :=
  { r with arguments := some (words.map Argument.ofText) }

def withDependency (r : ClassRecord) (dependency : String) : ClassRecord :=
  { r with dependencies := r.dependencies ++ [dependency] }

/-- The unit path of a class with this record, which is its name if the record gives none. -/
def unitPathOf (r : ClassRecord) (className : String) : String :=
  match r.unitPath with
  | some p => UnitPath.normalize p
  | none => className

def fieldNames : List String :=
  ["relativePath", "superClass", "properties", "constructorArgs", "dependencies",
    "propsDefinedExternally", "docPath"]

def properties? : Document → Option (Keyed Property)
  | .record fields =>
    (fields.mapM fun (e : String × Document) => (Property.ofDocument? e.2).map (e.1, ·)).map
      Keyed.ofList
  | _ => none

def arguments? (d : Document) : Option (List Argument) :=
  (Document.asTexts? d).map (·.map Argument.ofText)

def ofDocument? (leeway : Leeway) (d : Document) : Option ClassRecord := do
  match ← d.slots? fieldNames leeway with
  | [path, parent, properties, args, deps, ext, doc] =>
    return {
      unitPath := ← Document.optional? Document.asText? path
      superClass := ← Document.optional? Document.asText? parent
      properties := ← Document.orElse? properties? .empty properties
      arguments := ← Document.optional? arguments? args
      dependencies := ← Document.orElse? Document.asTexts? [] deps
      external := Names.sorted (← Document.orElse? Document.asTexts? [] ext)
      docPath := ← Document.optional? Document.asText? doc }
  | _ => none

def propertiesValue (properties : Keyed Property) : Value :=
  .record (properties.entries.map fun (k, p) => (k, p.value))

def argumentsValue (arguments : List Argument) : Value := .list (arguments.map fun a => .text a.text)

/-- A record as a value with every field present. -/
def value (r : ClassRecord) : Value :=
  .record (fieldNames.zip
    [Value.ofOption .text r.unitPath, Value.ofOption .text r.superClass,
      propertiesValue r.properties, Value.ofOption argumentsValue r.arguments,
      Value.ofTexts r.dependencies, Value.ofTexts r.external,
      Value.ofOption .text r.docPath])

end ClassRecord
end WrapperGen
