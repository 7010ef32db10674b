import WrapperGen.Json.Number
import WrapperGen.Value

/-!
# Bare scalars of a TOML text

Truth values, integers, floats and dates, each from the characters that make it up. Underscores stand
only between digits. Integers have 64 bits with or without sign, floats are rounded once, and a date
or time is rewritten in one form. A number out of range is well formed all the same.
-/

namespace WrapperGen.Toml

/-- Digits without the single underscores between them. -/
def digits? (ok : Char → Bool) (cs : List Char) : Option (List Char) :=
  let runs := cs.splitOn '_'
  if runs.all fun r => r ≠ [] ∧ r.all ok then some runs.flatten else none

/-- Decimal digits that do not begin with a superfluous zero. -/
def whole? (cs : List Char) : Option (List Char) :=
  match digits? Json.isDigit cs with
  | some ('0' :: _ :: _) => none
  | r => r

def sign (cs : List Char) : Bool × List Char :=
  match cs with
  | '-' :: r => (true, r)
  | '+' :: r => (false, r)
  | r => (false, r)

def digitOf (c : Char) : Nat :=
  if Json.isDigit c then c.toNat - 48 else if 'a' ≤ c then c.toNat - 87 else c.toNat - 55

def isDigitOf (base : Nat) (c : Char) : Bool :=
  (Json.isDigit c || ('a' ≤ c && c ≤ 'f') || ('A' ≤ c && c ≤ 'F')) && digitOf c < base

def natOf (base : Nat) (cs : List Char) : Nat := cs.foldl (fun n c => n * base + digitOf c) 0

def fits (bits : Nat) (i : Int) : Bool :=
  -(Nat.pow 2 (bits - 1) : Nat) ≤ i && i < (Nat.pow 2 bits : Nat)

def integerOf (i : Int) : Document :=
  if fits 64 i then .number (.int i) else if fits 128 i then .wide else .unreadable

def based? (base : Nat) (cs : List Char) : Option Document := do
  return integerOf (natOf base (← digits? (isDigitOf base) cs))

def integer? (cs : List Char) : Option Document :=
  match cs with
  | '0' :: 'x' :: r => based? 16 r
  | '0' :: 'o' :: r => based? 8 r
  | '0' :: 'b' :: r => based? 2 r
  | _ => do
    let (negative, r) := sign cs
    let n := natOf 10 (← whole? r)
    return integerOf (if negative then -n else n)

/-- Cut a text at the first character that passes a test; the character itself is dropped. -/
def cutAt (p : Char → Bool) (cs : List Char) : List Char × Option (List Char) :=
  match cs.dropWhile (!p ·) with
  | [] => (cs, none)
  | _ :: r => (cs.takeWhile (!p ·), some r)

def exponent? (cs : List Char) : Option Int := do
  let (negative, r) := sign cs
  let n := natOf 10 (← digits? Json.isDigit r)
  return if negative then -n else n

/-- A float: digits with a fraction, an exponent or both, or a special one. Too large a magnitude
cannot be read. -/
def float? (cs : List Char) : Option Document := do
  let (negative, r) := sign cs
  if r = ['i', 'n', 'f'] then return .number (.float (.infinite negative))
  if r = ['n', 'a', 'n'] then return .number (.float .nan)
  let (mantissa, power) := cutAt (fun c => c = 'e' || c = 'E') r
  let (before, after) := cutAt (· = '.') mantissa
  if power.isNone ∧ after.isNone then none
  let w ← whole? before
  let f ← match after with
    | some d => digits? Json.isDigit d
    | none => some []
  let e ← match power with
    | some d => exponent? d
    | none => some 0
  let value := Double.ofDecimal negative (natOf 10 (w ++ f)) (e - f.length)
  return if value.isFinite then .number (.float value) else .unreadable

def fixed? (n : Nat) (cs : List Char) : Option (Nat × List Char) :=
  let ds := cs.take n
  if ds.length = n ∧ ds.all Json.isDigit then some (natOf 10 ds, cs.drop n) else none

def daysIn (year month : Nat) : Nat :=
  if month = 2 then
    if year % 4 = 0 ∧ (year % 100 ≠ 0 ∨ year % 400 = 0) then 29 else 28
  else if month = 4 ∨ month = 6 ∨ month = 9 ∨ month = 11 then 30
  else 31

def padded (n value : Nat) : List Char :=
  let ds := Nat.toDigits 10 value
  List.replicate (n - ds.length) '0' ++ ds

def date? (cs : List Char) : Option (List Char × List Char) := do
  let (y, r) ← fixed? 4 cs
  let '-' :: r := r | none
  let (m, r) ← fixed? 2 r
  let '-' :: r := r | none
  let (d, r) ← fixed? 2 r
  if 1 ≤ m ∧ m ≤ 12 ∧ 1 ≤ d ∧ d ≤ daysIn y m then
    return (padded 4 y ++ '-' :: padded 2 m ++ '-' :: padded 2 d, r)
  else none

/-- The fraction of a second to nine digits, without zeros at its end; of zeros alone nothing is
left. -/
def nanoseconds (ds : List Char) : List Char :=
  match ((ds.take 9).reverse.dropWhile (· = '0')).reverse with
  | [] => []
  | kept => '.' :: kept

def fraction? (cs : List Char) : Option (List Char × List Char) :=
  match cs with
  | '.' :: r =>
    match r.takeWhile Json.isDigit with
    | [] => none
    | ds => some (nanoseconds ds, r.dropWhile Json.isDigit)
  | r => some ([], r)

/-- The seconds of a time and their fraction; seconds that do not follow are zero. -/
def seconds? (cs : List Char) : Option (List Char × List Char) :=
  match cs with
  | ':' :: r => do
    let (s, r) ← fixed? 2 r
    if 60 < s then none
    let (f, r) ← fraction? r
    return (':' :: padded 2 s ++ f, r)
  | r => some ([':', '0', '0'], r)

def time? (cs : List Char) : Option (List Char × List Char) := do
  let (h, r) ← fixed? 2 cs
  let ':' :: r := r | none
  let (m, r) ← fixed? 2 r
  if 23 < h ∨ 59 < m then none
  let (s, r) ← seconds? r
  return (padded 2 h ++ ':' :: padded 2 m ++ s, r)

/-- The distance of a time from the standard one; nothing may follow it. -/
def offset? (cs : List Char) : Option (List Char) :=
  match cs with
  | [] => some []
  | [c] => if c = 'Z' ∨ c = 'z' then some ['Z'] else none
  | c :: r => do
    if c ≠ '+' ∧ c ≠ '-' then none
    let (h, r) ← fixed? 2 r
    let ':' :: r := r | none
    let (m, r) ← fixed? 2 r
    if 23 < h ∨ 59 < m ∨ r ≠ [] then none
    return (if h = 0 ∧ m = 0 then '+' else c) :: padded 2 h ++ ':' :: padded 2 m

def moment? (cs : List Char) : Option (List Char) :=
  match date? cs with
  | some (d, []) => some d
  | some (d, c :: r) => do
    if c ≠ 'T' ∧ c ≠ 't' ∧ c ≠ ' ' then none
    let (t, r) ← time? r
    let o ← offset? r
    return d ++ 'T' :: t ++ o
  | none => do
    let (t, r) ← time? cs
    if r ≠ [] then none else return t

/-- The field under which a date or time is kept. -/
def momentField : String := "$__toml_private_datetime"

def scalar? (cs : List Char) : Option Document :=
  if cs = ['t', 'r', 'u', 'e'] then some (.bool true)
  else if cs = ['f', 'a', 'l', 's', 'e'] then some (.bool false)
  else match integer? cs with
    | some d => some d
    | none => match float? cs with
      | some d => some d
      | none => (moment? cs).map fun t => .record [(momentField, .text (String.ofList t))]

end WrapperGen.Toml
