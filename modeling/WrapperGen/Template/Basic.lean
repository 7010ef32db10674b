import WrapperGen.Error
import WrapperGen.Json.Printer
import WrapperGen.Template.Reader

/-!
# Templates

A template is a list of parts that are filled from a value, the context. Filling is strict: what is
printed or repeated over has to be there, and only a condition may ask for what is missing. Printed
text is inserted as it stands.
-/

namespace WrapperGen

/-- A template: the name it goes by, the lines it is written in, and the parts they are read as. -/
structure Template where
  name : String
  lines : List String
  parts : List Part
  reads : Template.read? lines = some parts

/-- What stands at a path. -/
inductive Found where
  | value (v : Value)
  | missing
  /-- A field of a list was asked for. -/
  | noFields
deriving DecidableEq, Repr

namespace Template

/-- What stands at a path of a context. There is no way back to an outer context. -/
def find : Value → List String → Found
  | v, [] => .value v
  | .record fields, name :: rest =>
    match Named.get? fields name with
    | some v => find v rest
    | none => .missing
  | .list _, _ :: _ => .noFields
  | _, _ :: _ => .missing

def holds : Value → Bool
  | .null => false
  | .bool b => b
  | .number (.int i) => i ≠ 0
  | .number (.float d) => d.isNormal
  | .text s => s ≠ ""
  | .list items => !items.isEmpty
  | .record fields => !fields.isEmpty

mutual

def printed : Value → String
  | .null => ""
  | .bool b => String.ofList (Json.boolText b)
  | .number n => String.ofList (Json.numberText n)
  | .text s => s
  | .list items => "[" ++ ", ".intercalate (printedItems items) ++ "]"
  | .record _ => "[object]"

def printedItems : List Value → List String
  | [] => []
  | v :: r => printed v :: printedItems r

end

/-- The items to repeat over. -/
def itemsOf? : Found → Option (List Value)
  | .value (.list items) => some items
  | .value (.record fields) => some (fields.map (·.2))
  | _ => none

mutual

/-- The text of one part; none where something is missing. -/
def fillPart : Part → Value → Option String
  | .text s, _ => some s
  | .print path, context =>
    match find context path with
    | .value v => some (printed v)
    | _ => none
  | .when path body, context =>
    match find context path with
    | .value v => if holds v then fill body context else some ""
    | .missing => some ""
    | .noFields => none
  | .each path body, context => do
    let texts ← (← itemsOf? (find context path)).mapM (fill body)
    return String.join texts

/-- The text of all parts. -/
def fill : List Part → Value → Option String
  | [], _ => some ""
  | p :: r, context => do
    let s ← fillPart p context
    let t ← fill r context
    return s ++ t

end

/-- The text of a template. An error concerns the given subject. -/
def render (t : Template) (subject : String) (context : Value) : Except Error String :=
  match fill t.parts context with
  | some s => .ok s
  | none => .error (.render subject (.template t.name))

end Template
end WrapperGen
