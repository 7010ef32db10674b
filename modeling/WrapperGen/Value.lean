import WrapperGen.Keyed
import WrapperGen.Number.Double

/-!
# Document values

A `Document` is what a reader makes of a text: fields may repeat, and a scalar that is well formed
but denotes nothing, such as a number out of range, is kept as `wide` or `unreadable`, since a part of
a document that nobody asks for does no harm. A `Value` has none of these: its fields are told apart
by name.
-/

namespace WrapperGen

/-- A number of a document: an exact integer, or a double. -/
inductive Number where
  | int (value : Int)
  | float (value : Double)
deriving DecidableEq, Repr, Inhabited

def Number.isWord (i : Int) : Bool := -(Nat.pow 2 63 : Nat) ≤ i && i < (Nat.pow 2 63 : Nat)

inductive Value where
  | null
  | bool (value : Bool)
  | number (value : Number)
  | text (value : String)
  | list (items : List Value)
  | record (fields : List (String × Value))
deriving Repr, Inhabited

inductive Document where
  | null
  | bool (value : Bool)
  | number (value : Number)
  | text (value : String)
  | list (items : List Document)
  | record (fields : List (String × Document))
  /-- An integer of more than 64 bits, which can be skipped but not read. -/
  | wide
  | unreadable
deriving Repr, Inhabited

/-- What a reader of records leaves alone. -/
inductive Leeway where
  /-- Fields that are not known. A list has no more items than there are fields. -/
  | fields
  /-- Items of a list past the fields. Fields that are not known are skipped. -/
  | items
deriving DecidableEq, Repr, Inhabited

mutual

/-- Whether two values are the same, fields in the same order. -/
def Value.same : Value → Value → Bool
  | .null, .null => true
  | .bool a, .bool b => a = b
  | .number a, .number b => a = b
  | .text a, .text b => a = b
  | .list a, .list b => Value.sameItems a b
  | .record a, .record b => Value.sameFields a b
  | _, _ => false

def Value.sameItems : List Value → List Value → Bool
  | [], [] => true
  | a :: r, b :: s => Value.same a b && Value.sameItems r s
  | _, _ => false

def Value.sameFields : List (String × Value) → List (String × Value) → Bool
  | [], [] => true
  | (k, a) :: r, (l, b) :: s => k = l && Value.same a b && Value.sameFields r s
  | _, _ => false

end

mutual

theorem Value.same_iff : ∀ a b : Value, Value.same a b = true ↔ a = b
  | .null, b => by cases b <;> simp [Value.same]
  | .bool a, b => by cases b <;> simp [Value.same]
  | .number a, b => by cases b <;> simp [Value.same]
  | .text a, b => by cases b <;> simp [Value.same]
  | .list a, b => by cases b <;> simp [Value.same, Value.sameItems_iff a]
  | .record a, b => by cases b <;> simp [Value.same, Value.sameFields_iff a]

theorem Value.sameItems_iff : ∀ a b : List Value, Value.sameItems a b = true ↔ a = b
  | [], b => by cases b <;> simp [Value.sameItems]
  | a :: r, b => by
    cases b with
    | nil => simp [Value.sameItems]
    | cons b s => simp [Value.sameItems, Value.same_iff a, Value.sameItems_iff r]

theorem Value.sameFields_iff :
    ∀ a b : List (String × Value), Value.sameFields a b = true ↔ a = b
  | [], b => by cases b <;> simp [Value.sameFields]
  | (k, a) :: r, b => by
    cases b with
    | nil => simp [Value.sameFields]
    | cons b s =>
      obtain ⟨l, b⟩ := b
      simp [Value.sameFields, Value.same_iff a, Value.sameFields_iff r, and_assoc]

end

instance : DecidableEq Value := fun a b => decidable_of_iff _ (Value.same_iff a b)

namespace Document

mutual

/-- The value of a document; none where a part of it is unreadable. A repeated field keeps its first
place and takes its last value; a float without a value is null. -/
def value? : Document → Option Value
  | .null => some .null
  | .bool b => some (.bool b)
  | .number (.float d) => some (if d.isFinite then .number (.float d) else .null)
  | .number (.int i) => some (.number (.int i))
  | .text s => some (.text s)
  | .list items => (items? items).map .list
  | .record fields => (fields? fields).map fun fs => .record (Named.collapse fs)
  | .wide => none
  | .unreadable => none

def items? : List Document → Option (List Value)
  | [] => some []
  | d :: r => do
    let v ← d.value?
    let vs ← items? r
    return v :: vs

/-- The values of all fields, repeated ones included. -/
def fields? : List (String × Document) → Option (List (String × Value))
  | [] => some []
  | (k, d) :: r => do
    let v ← d.value?
    let vs ← fields? r
    return (k, v) :: vs

end

mutual

def allScalars (test : Document → Bool) : Document → Bool
  | .list items => allInItems test items
  | .record fields => allInFields test fields
  | d => test d

def allInItems (test : Document → Bool) : List Document → Bool
  | [] => true
  | d :: r => d.allScalars test && allInItems test r

def allInFields (test : Document → Bool) : List (String × Document) → Bool
  | [] => true
  | (_, d) :: r => d.allScalars test && allInFields test r

end

def readable (d : Document) : Bool :=
  d.allScalars fun
    | .wide => false
    | .unreadable => false
    | _ => true

def skippable (d : Document) : Bool :=
  d.allScalars fun
    | .unreadable => false
    | _ => true

/-- The only document of a field, if the field is there; a repeated one is refused. -/
def slot? (fields : List (String × Document)) (name : String) : Option (Option Document) :=
  match fields.filter (·.1 = name) with
  | [] => some none
  | [(_, d)] => some (some d)
  | _ => none

/-- The documents of a record's known fields, in the order of `names`, absent ones as none. A record
with a known field twice is refused. A record may also be written as a list in field order; missing
ones at the end are absent. -/
def slots? (names : List String) (leeway : Leeway) : Document → Option (List (Option Document))
  | .record fields =>
    if leeway = .fields ∨ fields.all fun (k, d) => names.contains k || d.skippable then
      names.mapM (slot? fields)
    else none
  | .list items =>
    if leeway = .items ∨ items.length ≤ names.length then
      some (names.mapIdx fun i _ => items[i]?)
    else none
  | _ => none

def asText? : Document → Option String
  | .text s => some s
  | _ => none

def asBool? : Document → Option Bool
  | .bool b => some b
  | _ => none

def asInt? : Document → Option Int
  | .number (.int i) => if Number.isWord i then some i else none
  | _ => none

/-- A double; an integer becomes the nearest one. -/
def asDouble? : Document → Option Double
  | .number (.int i) => some (.ofInt i)
  | .number (.float d) => some d
  | _ => none

def asList? {α : Type} (f : Document → Option α) : Document → Option (List α)
  | .list items => items.mapM f
  | _ => none

def asOption? {α : Type} (f : Document → Option α) : Document → Option (Option α)
  | .null => some none
  | d => (f d).map some

def asTexts? (d : Document) : Option (List String) := d.asList? asText?

def optional? {α : Type} (f : Document → Option α) : Option Document → Option (Option α)
  | none => some none
  | some d => d.asOption? f

/-- A field that takes a value when it is absent. -/
def orElse? {α : Type} (f : Document → Option α) (absent : α) : Option Document → Option α
  | none => some absent
  | some d => f d

end Document

namespace Value

mutual

/-- A value as the document it would be read from. -/
def document : Value → Document
  | .null => .null
  | .bool b => .bool b
  | .number n => .number n
  | .text s => .text s
  | .list items => .list (documentItems items)
  | .record fields => .record (documentFields fields)

def documentItems : List Value → List Document
  | [] => []
  | v :: r => v.document :: documentItems r

def documentFields : List (String × Value) → List (String × Document)
  | [] => []
  | (k, v) :: r => (k, v.document) :: documentFields r

end

def ofInt (i : Int) : Value := .number (.int i)

/-- A value that may be absent. -/
def ofOption {α : Type} (f : α → Value) : Option α → Value
  | some a => f a
  | none => .null

def ofTexts (texts : List String) : Value := .list (texts.map .text)

def field? (v : Value) (name : String) : Option Value :=
  match v with
  | .record fields => Named.get? fields name
  | _ => none

end Value
end WrapperGen
