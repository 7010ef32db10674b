import WrapperGen.Property.Literal
import WrapperGen.Wrapper.Basic

/-!
# Trait declarations

A package wrapper declares every own property as a synchronized trait. A property that refers to the
class itself cannot name it while it is being defined, so it says `This`.
-/

namespace WrapperGen.Wrapper

/-- Whether a trait accepts an absent value. -/
def allowNone (p : Property) : String := "allow_none=" ++ Target.python.boolLiteral p.isNullable

/-- A bound of an integer trait. -/
def bound (name : String) : Option Int → String
  | some i => ", " ++ name ++ "=" ++ String.ofList (Json.intText i)
  | none => ""

/-- The trait of a property with a default literal, in a class and above a base type. -/
def trait (className base literal : String) (p : Property) : String :=
  match p with
  | .bool _ _ => "Bool(" ++ literal ++ ", " ++ allowNone p ++ ")"
  | .int _ _ lo hi =>
    "CInt(" ++ literal ++ ", " ++ allowNone p ++ bound "min" lo ++ bound "max" hi ++ ")"
  | .float _ _ => "CFloat(" ++ literal ++ ", " ++ allowNone p ++ ")"
  | .string _ _ => "Unicode(" ++ literal ++ ", " ++ allowNone p ++ ")"
  | .color _ _ => "Color(" ++ literal ++ ", " ++ allowNone p ++ ")"
  | .vector2 _ => "Vector2(default_value=" ++ literal ++ ")"
  | .vector3 _ => "Vector3(default_value=" ++ literal ++ ")"
  | .vector4 _ => "Vector4(default_value=" ++ literal ++ ")"
  | .matrix3 _ => "Matrix3(default_value=" ++ literal ++ ")"
  | .matrix4 _ => "Matrix4(default_value=" ++ literal ++ ")"
  | .euler _ _ => "Euler(default_value=" ++ literal ++ ")"
  | .enum t _ => "Enum(" ++ t ++ ", " ++ literal ++ ", " ++ allowNone p ++ ")"
  | .ref (some c) _ =>
    if c = className then "This(" ++ allowNone p ++ ")"
    else "Instance(" ++ c ++ ", " ++ allowNone p ++ ")"
  | .ref none _ => "Instance(" ++ base ++ ", " ++ allowNone p ++ ")"
  | .refArray _ => "Tuple()"
  | .refDict _ => "Dict()"
  | .array _ => "List(trait=CFloat(), default_value=" ++ literal ++ ")"
  | .dict _ => "Dict(default_value=" ++ literal ++ ")"
  | .any _ _ => "Any(" ++ literal ++ ", " ++ allowNone p ++ ")"

/-- The tag of a synchronized trait. -/
def tag : Option String → String
  | some s => ".tag(sync=True, **" ++ s ++ ")"
  | none => ".tag(sync=True)"

def declaration (className base literal : String) (p : Property) : String :=
  trait className base literal p ++ tag (p.serializer? .python)

end WrapperGen.Wrapper
