import WrapperGen.Value

/-!
# Numbers of a JSON text

A number with neither point nor exponent is an exact integer while it fits 64 bits. Every other one
is a double, made from at most 64 bits of leading digits that are scaled by one power of ten; digits
beyond those only move the point. A magnitude too large for a double makes the number unreadable.
-/

namespace WrapperGen.Json

def isDigit (c : Char) : Bool := '0' ≤ c && c ≤ '9'

def digitValue (c : Char) : Nat := c.toNat - '0'.toNat

structure NumberText where
  negative : Bool
  whole : List Char
  /-- The digits after the point, if there is one. -/
  fraction : Option (List Char)
  /-- Whether the exponent is negative, and its digits. -/
  exponent : Option (Bool × List Char)
deriving DecidableEq, Repr

def maxWord : Nat := Nat.pow 2 64 - 1

/-- Append digits to a significand while it fits 64 bits; the digits left over come back. -/
def collect : Nat → List Char → Nat × List Char
  | s, [] => (s, [])
  | s, c :: r =>
    let next := s * 10 + digitValue c
    if next ≤ maxWord then collect next r else (s, c :: r)

/-- The significand of a number and the power of ten it stands at. Whole digits that do not fit raise
the power; the fraction is appended as far as it fits. -/
def NumberText.significand (t : NumberText) : Nat × Int :=
  let (s, beyond) := collect 0 t.whole
  match t.fraction with
  | none => (s, beyond.length)
  | some digits =>
    let (s', left) := collect s digits
    (s', (beyond.length : Int) - ((digits.length - left.length : Nat) : Int))

/-- The largest power of ten a double holds. -/
def maxPower : Nat := 308

def power (n : Nat) : Double := .ofNat (Nat.pow 10 n)

/-- Scale a double by a power of ten in one step, after as many whole steps of `10 ^ -308` as are
needed. Two of them take any significand to zero, so four are enough. -/
def scale : Nat → Double → Int → Option Double
  | 0, d, _ => some d
  | n + 1, d, e =>
    if e.natAbs ≤ maxPower then
      if 0 ≤ e then
        let r := d.mul (power e.natAbs)
        if r.isFinite then some r else none
      else some (d.div (power e.natAbs))
    else if d = .zero false then some d
    else if 0 ≤ e then none
    else scale n (d.div (power maxPower)) (e + maxPower)

def withSign (negative : Bool) : Double → Double
  | .finite _ m e => .finite negative m e
  | d => d

def maxExponent : Nat := Nat.pow 2 31 - 1

/-- A sum within 32 bits, cut off at the ends. -/
def clamp (i : Int) : Int := max (-(Nat.pow 2 31 : Nat)) (min i (maxExponent : Nat))

def digitsValue (cs : List Char) : Nat := cs.foldl (fun n c => n * 10 + digitValue c) 0

/-- The number a text denotes, or none when it is out of range. -/
def NumberText.number? (t : NumberText) : Option Number :=
  let (s, e) := t.significand
  match t.fraction, t.exponent with
  | none, none =>
    if e ≠ 0 then (scale 4 (.ofNat s) e).map fun d => .float (withSign t.negative d)
    else if ¬ t.negative then some (.int s)
    else if s ≠ 0 ∧ s ≤ Nat.pow 2 63 then some (.int (-s))
    else some (.float (withSign true (.ofNat s)))
  | _, none => (scale 4 (.ofNat s) e).map fun d => .float (withSign t.negative d)
  | _, some (below, digits) =>
    let n := digitsValue digits
    if maxExponent < n then
      if s ≠ 0 ∧ ¬ below then none else some (.float (.zero t.negative))
    else
      let final := clamp (if below then e - n else e + n)
      (scale 4 (.ofNat s) final).map fun d => .float (withSign t.negative d)

/-- Read the exponent of a number, if one follows. An exponent letter wants digits. -/
def readExponent? (cs : List Char) : Option (Option (Bool × List Char) × List Char) :=
  match cs with
  | c :: r =>
    if c = 'e' ∨ c = 'E' then
      let (below, r) := match r with
        | '-' :: r => (true, r)
        | '+' :: r => (false, r)
        | r => (false, r)
      match r.takeWhile isDigit with
      | [] => none
      | ds => some (some (below, ds), r.dropWhile isDigit)
    else some (none, cs)
  | [] => some (none, [])

/-- Read the fraction of a number, if one follows. A point wants digits. -/
def readFraction? (cs : List Char) : Option (Option (List Char) × List Char) :=
  match cs with
  | '.' :: r =>
    match r.takeWhile isDigit with
    | [] => none
    | ds => some (some ds, r.dropWhile isDigit)
  | _ => some (none, cs)

/-- Read the whole digits of a number: one zero, or digits that do not start with zero. -/
def readWhole? (cs : List Char) : Option (List Char × List Char) :=
  match cs.takeWhile isDigit with
  | [] => none
  | '0' :: _ :: _ => none
  | ds => some (ds, cs.dropWhile isDigit)

def readNumber? (cs : List Char) : Option (NumberText × List Char) := do
  let (negative, cs) := match cs with
    | '-' :: r => (true, r)
    | r => (false, r)
  let (whole, cs) ← readWhole? cs
  let (fraction, cs) ← readFraction? cs
  let (exponent, cs) ← readExponent? cs
  return (⟨negative, whole, fraction, exponent⟩, cs)

end WrapperGen.Json
