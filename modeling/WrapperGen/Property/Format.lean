import WrapperGen.Error
import WrapperGen.Format
import WrapperGen.Property.Basic

/-!
# Properties in documents

A property is written as a record with its kind under `type` and the kind's own fields beside it, or
as a list of the kind and those fields in order. Absent fields take the kind's defaults.
-/

namespace WrapperGen.Property

open Document (optional? orElse? asBool? asInt? asDouble? asText? asTexts?)

def fieldNames? (kind : String) : Option (List String) :=
  match kind with
  | "bool" | "float" | "string" | "color" | "any" => some ["default", "nullable"]
  | "int" => some ["default", "nullable", "min", "max"]
  | "vector2" | "vector3" | "vector4" | "matrix3" | "matrix4" | "array" | "dict" => some ["default"]
  | "euler" => some ["default", "order"]
  | "enum" => some ["enumType", "default"]
  | "classRef" => some ["class", "nullable"]
  | "classRefArray" | "classRefDict" => some ["classes"]
  | _ => none

/-- Exactly `n` floats. -/
def vector? (n : Nat) (d : Document) : Option (Vector Double n) := do
  let values ← d.asList? asDouble?
  if h : values.length = n then some ⟨values.toArray, by simpa using h⟩ else none

def floats? (d : Document) : Option (List Double) := d.asList? asDouble?

/-- The fields of a record, each name once. -/
def entries? (d : Document) : Option (List (String × Value)) :=
  match d.value? with
  | some (.record fields) => some fields
  | _ => none

/-- The property of a kind with given fields. -/
def ofSlots? : String → List (Option Document) → Option Property
  | "bool", [d, n] => .bool <$> optional? asBool? d <*> orElse? asBool? false n
  | "int", [d, n, lo, hi] =>
    .int <$> optional? asInt? d <*> orElse? asBool? false n <*>
      optional? asInt? lo <*> optional? asInt? hi
  | "float", [d, n] => .float <$> optional? asDouble? d <*> orElse? asBool? false n
  | "string", [d, n] => .string <$> optional? asText? d <*> orElse? asBool? false n
  | "color", [d, n] => .color <$> optional? asText? d <*> orElse? asBool? false n
  | "vector2", [d] => .vector2 <$> optional? (vector? 2) d
  | "vector3", [d] => .vector3 <$> optional? (vector? 3) d
  | "vector4", [d] => .vector4 <$> optional? (vector? 4) d
  | "matrix3", [d] => .matrix3 <$> optional? floats? d
  | "matrix4", [d] => .matrix4 <$> optional? floats? d
  | "euler", [d, o] => .euler <$> optional? (vector? 3) d <*> orElse? asText? "XYZ" o
  | "enum", [some t, some d] => .enum <$> t.asText? <*> d.asText?
  | "classRef", [c, n] => .ref <$> optional? asText? c <*> orElse? asBool? true n
  | "classRefArray", [c] => .refArray <$> orElse? asTexts? [] c
  | "classRefDict", [c] => .refDict <$> orElse? asTexts? [] c
  | "array", [d] => .array <$> optional? floats? d
  | "dict", [d] => .dict <$> optional? entries? d
  | "any", [d, n] => .any <$> optional? Document.value? d <*> orElse? asBool? false n
  | _, _ => none

/-- The kind a document names, and its other fields. The kind is named exactly once. -/
def kindOf? : Document → Option (String × Document)
  | .record fields =>
    match fields.filter (·.1 = "type") with
    | [(_, .text kind)] => some (kind, .record (fields.filter (·.1 ≠ "type")))
    | _ => none
  | .list (.text kind :: rest) => some (kind, .list rest)
  | _ => none

/-- The property a document describes. All of the document has to be readable, unknown fields too. -/
def ofDocument? (d : Document) : Option Property :=
  if ¬ d.readable then none
  else do
    let (kind, body) ← kindOf? d
    let names ← fieldNames? kind
    ofSlots? kind (← body.slots? names .fields)

/-- The property a text describes. -/
def ofText (format : Format) (text : String) : Except Error Property :=
  match (format.read? text).bind ofDocument? with
  | some p => .ok p
  | none => .error (.settings .malformed)

def floatsValue (values : List Double) : Value := .list (values.map fun d => .number (.float d))

def fieldValues : Property → List Value
  | bool d n => [.ofOption .bool d, .bool n]
  | int d n lo hi =>
    [.ofOption .ofInt d, .bool n, .ofOption .ofInt lo, .ofOption .ofInt hi]
  | float d n => [.ofOption (fun x => .number (.float x)) d, .bool n]
  | string d n => [.ofOption .text d, .bool n]
  | color d n => [.ofOption .text d, .bool n]
  | vector2 d => [.ofOption (fun v => floatsValue v.toList) d]
  | vector3 d => [.ofOption (fun v => floatsValue v.toList) d]
  | vector4 d => [.ofOption (fun v => floatsValue v.toList) d]
  | matrix3 d => [.ofOption floatsValue d]
  | matrix4 d => [.ofOption floatsValue d]
  | euler d o => [.ofOption (fun v => floatsValue v.toList) d, .text o]
  | enum t d => [.text t, .text d]
  | ref c n => [.ofOption .text c, .bool n]
  | refArray cs => [.ofTexts cs]
  | refDict cs => [.ofTexts cs]
  | array d => [.ofOption floatsValue d]
  | dict d => [.ofOption .record d]
  | any d n => [.ofOption id d, .bool n]

def value (p : Property) : Value :=
  .record (("type", .text p.kind) :: ((fieldNames? p.kind).getD []).zip p.fieldValues)

end WrapperGen.Property
