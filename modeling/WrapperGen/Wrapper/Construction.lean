import WrapperGen.Property.Literal
import WrapperGen.Wrapper.Basic

/-!
# Construction of instances

A front-end wrapper constructs the library's object from expressions that read its properties. A
package wrapper has an initializer whose parameters default to the literals of the properties.
-/

namespace WrapperGen.Wrapper

/-- The expression that reads a property and converts it if its kind asks for that. -/
def readExpression (name : String) (p : Property) : String :=
  match p.converter? with
  | some c =>
    "this.convert" ++ c ++ "ModelToLibrary(this.get('" ++ name ++ "'), '" ++ name ++ "')"
  | none => "this.get('" ++ name ++ "')"

/-- The property a constructor argument names. -/
def argumentProperty (r : Resolved) (name : String) : Except Error Property :=
  match r.allProperties.get? name with
  | some p => .ok p
  | none => .error (.render r.className (.argumentNotProperty name))

/-- All own properties that the library does not set itself, as one keyed object. -/
def bagExpression (r : Resolved) : String :=
  let entries := (r.ownProperties.entries.filter fun (name, _) => !r.external.contains name).map
    fun (name, p) => name ++ ": " ++ readExpression name p
  if entries.isEmpty then "\x7b\x7d" else "\x7b " ++ ", ".intercalate entries ++ " \x7d"

/-- The expression for one constructor argument. -/
def argumentExpression (r : Resolved) : Argument → Except Error String
  | .property name => (argumentProperty r name).map (readExpression name)
  | .parameters => .ok (bagExpression r)

def argumentExpressions (r : Resolved) : Except Error (List String) :=
  r.arguments.mapM (argumentExpression r)

/-- The parameter for one constructor argument; the object of all own properties has none. -/
def initParameter (r : Resolved) : Argument → Except Error (Option Parameter)
  | .property name => do
    let p ← argumentProperty r name
    match p.defaultLiteral? .python with
    | some literal => .ok (some ⟨name, literal⟩)
    | none => .error (.render r.className (.argumentNoDefault name))
  | .parameters => .ok none

def initParameters (r : Resolved) : Except Error (List Parameter) :=
  (r.arguments.mapM (initParameter r)).map (·.filterMap id)

end WrapperGen.Wrapper
