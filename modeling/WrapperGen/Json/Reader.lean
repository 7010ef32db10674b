import WrapperGen.Json.Dialect
import WrapperGen.Json.Number
import WrapperGen.Json.Quoted

/-!
# Reading a JSON text

`Json.read?` makes a document of a text, or nothing of a text that is not JSON. `Json.readAs?` reads a text
in another dialect.
-/

namespace WrapperGen.Json

def isBlank (c : Char) : Bool := c = ' ' || c = '\n' || c = '\t' || c = '\r'

def skip (cs : List Char) : List Char := cs.dropWhile isBlank

/-- What follows a fixed word. -/
def after? : List Char → List Char → Option (List Char)
  | [], cs => some cs
  | w :: ws, c :: cs => if w = c then after? ws cs else none
  | _ :: _, [] => none

def textOf (pieces : List Piece) : Document :=
  match characters? pieces with
  | some cs => .text (String.ofList cs)
  | none => .unreadable

def numberOf (t : NumberText) : Document :=
  match t.number? with
  | some n => .number n
  | none => .unreadable

def listOf (g : Dialect) (depth : Nat) (items : List Document) : Document :=
  if g.admits depth then .list items else .unreadable

/-- A record as a document; a name that cannot be read spoils it. -/
def recordOf (g : Dialect) (depth : Nat) (fields : List (List Piece × Document)) : Document :=
  match fields.mapM fun (k, d) => (characters? k).map fun cs => (String.ofList cs, d) with
  | some fs => if g.admits depth then .record fs else .unreadable
  | none => .unreadable

/-- Read one of the words of a dialect. -/
def readWord? (g : Dialect) (cs : List Char) : Option (Document × List Char) :=
  ((after? g.nullWord cs).map (Document.null, ·)).or <|
    ((after? g.trueWord cs).map (Document.bool true, ·)).or <|
      (after? g.falseWord cs).map (Document.bool false, ·)

section

variable (g : Dialect)

mutual

/-- Read a value inside `depth` containers. -/
def readValue? : Nat → Nat → List Char → Option (Document × List Char)
  | 0, _, _ => none
  | fuel + 1, depth, cs =>
    match skip cs with
    | '"' :: r => (readPieces? escaped? r).map fun (ps, t) => (textOf ps, t)
    | '[' :: r =>
      match skip r with
      | ']' :: t => some (listOf g depth [], t)
      | r => (readItems? fuel depth r).map fun (ds, t) => (listOf g depth ds, t)
    | '\x7b' :: r =>
      match skip r with
      | '\x7d' :: t => some (recordOf g depth [], t)
      | r => (readFields? fuel depth r).map fun (fs, t) => (recordOf g depth fs, t)
    | r => (readWord? g r).or ((readNumber? r).map fun (n, t) => (numberOf n, t))

def readItems? : Nat → Nat → List Char → Option (List Document × List Char)
  | 0, _, _ => none
  | fuel + 1, depth, cs => do
    let (d, t) ← readValue? fuel (depth + 1) cs
    match skip t with
    | ']' :: t => return ([d], t)
    | ',' :: t =>
      let (ds, t) ← readItems? fuel depth t
      return (d :: ds, t)
    | _ => none

def readFields? : Nat → Nat → List Char → Option (List (List Piece × Document) × List Char)
  | 0, _, _ => none
  | fuel + 1, depth, cs =>
    match skip cs with
    | '"' :: r => do
      let (k, t) ← readPieces? escaped? r
      match skip t with
      | ':' :: t =>
        let (d, t) ← readValue? fuel (depth + 1) t
        match skip t with
        | '\x7d' :: t => return ([(k, d)], t)
        | ',' :: t =>
          let (fs, t) ← readFields? fuel depth t
          return ((k, d) :: fs, t)
        | _ => none
      | _ => none
    | _ => none

end

/-- The document of a text. Each step of the reader takes a character, so twice the length of the text
bounds the steps. -/
def readAs? (s : String) : Option Document :=
  let cs := s.toList
  match readValue? g (2 * cs.length + 2) 0 cs with
  | some (d, t) => if skip t = [] then some d else none
  | none => none

end

/-- The document of a JSON text. -/
def read? (s : String) : Option Document := readAs? .standard s

end WrapperGen.Json
