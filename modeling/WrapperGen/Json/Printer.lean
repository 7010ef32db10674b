import WrapperGen.Json.Dialect
import WrapperGen.Json.Quoted
import WrapperGen.Number.Layout
import WrapperGen.Value

/-!
# Writing a JSON text

`Json.valueChars` writes a value on one line, in the words of a dialect and with a gap after commas and colons.
`Json.compact` leaves no gaps, `Json.pretty` writes one field or item a line.
-/

namespace WrapperGen.Json

def intText (i : Int) : List Char :=
  if i < 0 then '-' :: Nat.toDigits 10 i.natAbs else Nat.toDigits 10 i.natAbs

/-- A number. A float without a value is null. -/
def numberText : Number → List Char
  | .int i => intText i
  | .float (.finite s m e) => Double.document s m e
  | .float _ => ['n', 'u', 'l', 'l']

def boolText (b : Bool) : List Char := if b then ['t', 'r', 'u', 'e'] else ['f', 'a', 'l', 's', 'e']

section

variable (g : Dialect) (gap : List Char)

mutual

/-- A value on one line. -/
def valueChars : Value → List Char
  | .null => g.nullWord
  | .bool b => g.boolWord b
  | .number n => numberText n
  | .text s => quote s.toList
  | .list items => '[' :: itemsChars items
  | .record fields => '\x7b' :: fieldsChars fields

def itemsChars : List Value → List Char
  | [] => [']']
  | [v] => valueChars v ++ [']']
  | v :: r => valueChars v ++ ',' :: (gap ++ itemsChars r)

def fieldsChars : List (String × Value) → List Char
  | [] => ['\x7d']
  | [(k, v)] => quote k.toList ++ ':' :: (gap ++ valueChars v ++ ['\x7d'])
  | (k, v) :: r => quote k.toList ++ ':' :: (gap ++ valueChars v ++ ',' :: (gap ++ fieldsChars r))

end

end

/-- A value without blanks. -/
def compact (v : Value) : String := String.ofList (valueChars .standard [] v)

/-- A line break and the indentation of a level. -/
def newline (level : Nat) : List Char := '\n' :: List.replicate (2 * level) ' '

mutual

/-- A value over several lines; what it holds is indented one level more. -/
def prettyChars (level : Nat) : Value → List Char
  | .list [] => ['[', ']']
  | .list (v :: r) => '[' :: prettyItems (level + 1) (v :: r) ++ newline level ++ [']']
  | .record [] => ['{', '}']
  | .record (f :: r) => '{' :: prettyFields (level + 1) (f :: r) ++ newline level ++ ['}']
  | .null => ['n', 'u', 'l', 'l']
  | .bool b => boolText b
  | .number n => numberText n
  | .text s => quote s.toList

def prettyItems (level : Nat) : List Value → List Char
  | [] => []
  | [v] => newline level ++ prettyChars level v
  | v :: r => newline level ++ prettyChars level v ++ ',' :: prettyItems level r

def prettyFields (level : Nat) : List (String × Value) → List Char
  | [] => []
  | [(k, v)] => newline level ++ quote k.toList ++ ':' :: ' ' :: prettyChars level v
  | (k, v) :: r =>
    newline level ++ quote k.toList ++ ':' :: ' ' :: prettyChars level v ++
      ',' :: prettyFields level r

end

/-- A value over several lines, indented by two blanks a level. -/
def pretty (v : Value) : String := String.ofList (prettyChars 0 v)

end WrapperGen.Json
