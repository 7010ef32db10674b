import WrapperGen.Toml.Quoted
import WrapperGen.Toml.Scalar
import WrapperGen.Toml.Table

/-!
# Reading a TOML text

`Toml.read?` makes a record of a text, its fields in byte order, or nothing of a text that is not TOML.
-/

namespace WrapperGen.Toml

def skipBlank (cs : List Char) : List Char := cs.dropWhile fun c => c = ' ' || c = '\t'

/-- What follows the characters of a comment. -/
def afterComment (cs : List Char) : List Char := cs.dropWhile isPlain

def skipLines : Nat → List Char → List Char
  | 0, cs => cs
  | fuel + 1, cs =>
    match skipSpace cs with
    | '#' :: r =>
      match newline? (afterComment r) with
      | some r => skipLines fuel r
      | none => '#' :: r
    | r => r

def skipAll (cs : List Char) : List Char := skipLines (cs.length + 1) cs

def endLine? (cs : List Char) : Option (List Char) :=
  let rest := match skipBlank cs with
    | '#' :: r => afterComment r
    | r => r
  match rest with
  | [] => some []
  | r => newline? r

/-- Whether a character may stand in a key without quotes. -/
def isBare (c : Char) : Bool :=
  ('a' ≤ c && c ≤ 'z') || ('A' ≤ c && c ≤ 'Z') || Json.isDigit c || c = '-' || c = '_'

def simpleKey? (cs : List Char) : Option (String × List Char) :=
  match cs with
  | '"' :: r => (basic? (r.length + 1) r).map fun (s, t) => (String.ofList s, t)
  | '\'' :: r => (literal? r).map fun (s, t) => (String.ofList s, t)
  | _ =>
    match cs.takeWhile isBare with
    | [] => none
    | s => some (String.ofList s, cs.dropWhile isBare)

/-- The deepest nesting of lists and inline tables, and the most keys in a dotted one. -/
def maxDepth : Nat := 80

/-- A dotted key of at most `n` keys: the keys before the last one, and the last. Blanks may stand
around the dots. -/
def keys? : Nat → List Char → Option (List String × String × List Char)
  | 0, _ => none
  | n + 1, cs => do
    let (k, r) ← simpleKey? (skipBlank cs)
    match skipBlank r with
    | '.' :: r =>
      let (path, last, r) ← keys? n r
      return (k :: path, last, r)
    | r => return ([], k, r)

def key? (cs : List Char) : Option (List String × String × List Char) := keys? maxDepth cs

def endsScalar (c : Char) : Bool :=
  c = ',' || c = ']' || c = '[' || c = '}' || c = '{' || c = '=' || c = '#' || c = ' ' || c = '\t' ||
    c = '\n' || c = '\r'

/-- The characters of a bare scalar. A date is joined with a time after one blank. -/
def bare (cs : List Char) : List Char × List Char :=
  let first := cs.takeWhile (!endsScalar ·)
  let rest := cs.dropWhile (!endsScalar ·)
  match date? first, rest with
  | some (_, []), ' ' :: r =>
    if (r.head?.any Json.isDigit) then
      (first ++ ' ' :: r.takeWhile (!endsScalar ·), r.dropWhile (!endsScalar ·))
    else (first, rest)
  | _, _ => (first, rest)

mutual

def value? : Nat → Nat → List Char → Option (Document × List Char)
  | 0, _, _ => none
  | fuel + 1, depth, cs =>
    match cs with
    | '"' :: _ => (quoted? cs).map fun (s, t) => (.text (String.ofList s), t)
    | '\'' :: _ => (quoted? cs).map fun (s, t) => (.text (String.ofList s), t)
    | '[' :: r =>
      if maxDepth ≤ depth then none
      else (items? fuel (depth + 1) r).map fun (ds, t) => (.list ds, t)
    | '{' :: r =>
      if maxDepth ≤ depth then none
      else (inline? fuel (depth + 1) [] r).map fun (fs, t) => (fieldsDocument fs, t)
    | _ =>
      let (s, t) := bare cs
      (scalar? s).map fun d => (d, t)

/-- The items of a list and its end. A comma may follow the last one. -/
def items? : Nat → Nat → List Char → Option (List Document × List Char)
  | 0, _, _ => none
  | fuel + 1, depth, cs =>
    match skipAll cs with
    | ']' :: t => some ([], t)
    | r => do
      let (d, t) ← value? fuel depth r
      match skipAll t with
      | ',' :: t =>
        let (ds, t) ← items? fuel depth t
        return (d :: ds, t)
      | ']' :: t => return ([d], t)
      | _ => none

/-- The fields of an inline table and its end. A comma may follow the last one, and a line may break
anywhere but within a key. -/
def inline? : Nat → Nat → Fields → List Char → Option (Fields × List Char)
  | 0, _, _, _ => none
  | fuel + 1, depth, fields, cs =>
    match skipAll cs with
    | '}' :: t => some (fields, t)
    | r => do
      let (path, k, t) ← key? r
      let '=' :: t := skipAll t | none
      let (d, t) ← value? fuel depth (skipAll t)
      let fields ← assign fields path k d
      match skipAll t with
      | ',' :: t => inline? fuel depth fields t
      | '}' :: t => return (fields, t)
      | _ => none

end

def header? (cs : List Char) : Option (Header × List Char) :=
  match cs with
  | '[' :: r => do
    let (path, key, t) ← key? r
    let ']' :: ']' :: t := t | none
    return (⟨path, key, true⟩, t)
  | r => do
    let (path, key, t) ← key? r
    let ']' :: t := t | none
    return (⟨path, key, false⟩, t)

def lines : Nat → Draft → List Char → Option Draft
  | 0, _, _ => none
  | fuel + 1, draft, cs =>
    match skipBlank cs with
    | [] => some draft
    | '[' :: r => do
      let (h, t) ← header? r
      let draft ← draft.open? h
      lines fuel draft (← endLine? t)
    | r =>
      if r.head? = some '#' ∨ (newline? r).isSome then do lines fuel draft (← endLine? r)
      else do
        let (path, k, t) ← key? r
        let '=' :: t := t | none
        let (d, t) ← value? (2 * t.length + 2) 0 (skipBlank t)
        let draft ← draft.assign? path k d
        lines fuel draft (← endLine? t)

/-- The record of a TOML text. A byte order mark may come first. -/
def read? (s : String) : Option Document :=
  let cs := match s.toList with
    | '\uFEFF' :: r => r
    | r => r
  do
    let draft ← lines (cs.length + 1) .start cs
    return fieldsDocument (← draft.finish?)

end WrapperGen.Toml
