import WrapperGen.Json.Printer
import WrapperGen.Property.Basic

/-!
# Default literals

The literal of a property's default value in a target language. Strings are escaped as in JSON, which
both languages read alike.
-/

namespace WrapperGen.Literal

/-- A float: whole ones with all digits and `.0`, others with the fewest that read back. -/
def float (target : Target) : Double → String
  | .finite s m e => String.ofList (Double.literal s m e)
  | .nan => match target with
    | .javascript => "NaN"
    | .python => "float('nan')"
  | .infinite s =>
    let sign := if s then "-" else ""
    match target with
    | .javascript => sign ++ "Infinity"
    | .python => "float('" ++ sign ++ "inf')"

def floats (target : Target) (values : List Double) : String :=
  "[" ++ ", ".intercalate (values.map (float target)) ++ "]"

/-- The entries of a square matrix with ones on its diagonal, row by row. -/
def identity (size : Nat) : List Double :=
  (List.range (size * size)).map fun i => if i % (size + 1) = 0 then .ofNat 1 else .ofNat 0

/-- The words that literals of a target language have for an absent value and the truth values. -/
def dialect (target : Target) : Json.Dialect where
  nullWord := target.nullLiteral.toList
  trueWord := (target.boolLiteral true).toList
  falseWord := (target.boolLiteral false).toList
  limit := none

def value (target : Target) (v : Value) : String := String.ofList (Json.valueChars (dialect target) [' '] v)

end WrapperGen.Literal

namespace WrapperGen.Property

/-- The literal of a default that is given, of an absent value, or of the kind's own default. -/
def literalOr {α : Type} (target : Target) (given : Option α) (nullable : Bool) (write : α → String)
    (standard : α) : String :=
  match given with
  | some a => write a
  | none => if nullable then target.nullLiteral else write standard

/-- The literal of a property's default value. Only an untyped property may lack one. -/
def defaultLiteral? (target : Target) : Property → Option String
  | bool d n => some (literalOr target d n target.boolLiteral false)
  | int d n _ _ => some (literalOr target d n (fun i => String.ofList (Json.intText i)) 0)
  | float d n => some (literalOr target d n (Literal.float target) (.ofNat 0))
  | string d n => some (literalOr target d n Json.quoteText "")
  | color d n => some (literalOr target d n Json.quoteText "#ffffff")
  | vector2 d => some (Literal.floats target ((d.map (·.toList)).getD (List.replicate 2 (.ofNat 0))))
  | vector3 d => some (Literal.floats target ((d.map (·.toList)).getD (List.replicate 3 (.ofNat 0))))
  | vector4 d => some (Literal.floats target ((d.map (·.toList)).getD (List.replicate 4 (.ofNat 0))))
  | matrix3 d => some (Literal.floats target (d.getD (Literal.identity 3)))
  | matrix4 d => some (Literal.floats target (d.getD (Literal.identity 4)))
  | euler d order =>
    let angles := (d.map (·.toList)).getD (List.replicate 3 (.ofNat 0))
    some ("[" ++ ", ".intercalate (angles.map (Literal.float target) ++ [Json.quoteText order]) ++ "]")
  | enum _ d => some (Json.quoteText d)
  | ref _ _ => some target.nullLiteral
  | refArray _ => some "[]"
  | refDict _ => some "\x7b\x7d"
  | array d => some (Literal.floats target (d.getD []))
  | dict d => some (Literal.value target (.record (d.getD [])))
  | any (some v) _ => some (Literal.value target v)
  | any none n => if n then some target.nullLiteral else none

end WrapperGen.Property
