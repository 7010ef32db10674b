import WrapperGen.Target
import WrapperGen.Value

/-!
# Properties

A property of a class is one of eighteen kinds. What generators need from a property (which classes it
names, how its value is converted, assigned and serialized) follows from its kind.
-/

namespace WrapperGen

inductive Property where
  | bool (default : Option Bool) (nullable : Bool)
  | int (default : Option Int) (nullable : Bool) (min max : Option Int)
  | float (default : Option Double) (nullable : Bool)
  | string (default : Option String) (nullable : Bool)
  | color (default : Option String) (nullable : Bool)
  | vector2 (default : Option (Vector Double 2))
  | vector3 (default : Option (Vector Double 3))
  | vector4 (default : Option (Vector Double 4))
  | matrix3 (default : Option (List Double))
  | matrix4 (default : Option (List Double))
  | euler (default : Option (Vector Double 3)) (order : String)
  | enum (enumType : String) (default : String)
  /-- A single instance; without a class, of any class. -/
  | ref (target : Option String) (nullable : Bool)
  | refArray (targets : List String)
  | refDict (targets : List String)
  | array (default : Option (List Double))
  | dict (default : Option (List (String × Value)))
  /-- An untyped value, which has a literal only if it has a default or may be absent. -/
  | any (default : Option Value) (nullable : Bool)
deriving DecidableEq, Repr

instance : Inhabited Property := ⟨.bool none false⟩

/-- A class that a property names, or the base type when it names none. -/
inductive Referent where
  | named (name : String)
  | base
deriving DecidableEq, Repr, Inhabited

/-- How a property holds the instances it refers to. -/
inductive Grouping where
  | child
  | array
  | dict
deriving DecidableEq, Repr, Inhabited

def Grouping.key : Grouping → String
  | child => "child"
  | array => "array"
  | dict => "dict"

namespace Property

def kind : Property → String
  | bool .. => "bool"
  | int .. => "int"
  | float .. => "float"
  | string .. => "string"
  | color .. => "color"
  | vector2 .. => "vector2"
  | vector3 .. => "vector3"
  | vector4 .. => "vector4"
  | matrix3 .. => "matrix3"
  | matrix4 .. => "matrix4"
  | euler .. => "euler"
  | enum .. => "enum"
  | ref .. => "classRef"
  | refArray .. => "classRefArray"
  | refDict .. => "classRefDict"
  | array .. => "array"
  | dict .. => "dict"
  | any .. => "any"

def isNullable : Property → Bool
  | bool _ n | int _ n _ _ | float _ n | string _ n | color _ n | ref _ n | any _ n => n
  | _ => false

/-- Named classes, or the base type if there are none. -/
def referents (targets : List String) : List Referent :=
  if targets.isEmpty then [.base] else targets.map .named

/-- The classes a property refers to. -/
def references : Property → List Referent
  | ref (some c) _ => [.named c]
  | ref none _ => [.base]
  | refArray targets => referents targets
  | refDict targets => referents targets
  | _ => []

/-- The conversion of a value before the library gets it. -/
def converter? : Property → Option String
  | bool .. => some "Bool"
  | float .. => some "Float"
  | color .. => some "Color"
  | vector2 .. | vector3 .. | vector4 .. => some "Vector"
  | matrix3 .. | matrix4 .. => some "Matrix"
  | euler .. => some "Euler"
  | enum .. => some "Enum"
  | ref .. => some "ClassRef"
  | refArray .. => some "ClassRefArray"
  | refDict .. => some "ClassRefDict"
  | array .. => some "Array"
  | int .. | string .. | dict .. | any .. => none

/-- The assignment in place that stands for a plain one. -/
def assigner? : Property → Option String
  | color .. => some "Color"
  | vector2 .. | vector3 .. | vector4 .. => some "Vector"
  | matrix3 .. | matrix4 .. => some "Matrix"
  | euler .. => some "Euler"
  | _ => none

/-- How a property groups instances, if it refers to any. -/
def grouping? : Property → Option Grouping
  | ref .. => some .child
  | refArray .. => some .array
  | refDict .. => some .dict
  | _ => none

/-- The serializer of a synchronized value. -/
def serializer? (p : Property) (target : Target) : Option String :=
  p.grouping?.map fun _ => match target with
    | .javascript => "unpackModels"
    | .python => "widget_serialization"

def enumType? : Property → Option String
  | enum t _ => some t
  | _ => none

end Property
end WrapperGen
