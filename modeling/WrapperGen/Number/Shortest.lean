import WrapperGen.Number.Double

/-!
# The fewest digits that read back

`Double.shortest` gives the shortest decimal in the interval of reals that round to a double, and of
several the nearest to its value. A value that lies exactly between two candidates is settled by
the caller's tie rule.
-/

namespace WrapperGen

/-- A decimal `digits * 10 ^ exponent`. -/
structure Decimal where
  digits : Nat
  exponent : Int
deriving DecidableEq, Repr

namespace Decimal

def text (d : Decimal) : List Char := Nat.toDigits 10 d.digits

def leading (d : Decimal) : Int := d.exponent + d.text.length - 1

def dropZeros : Nat → Decimal → Decimal
  | 0, d => d
  | n + 1, d =>
    if d.digits % 10 = 0 ∧ d.digits ≠ 0 then dropZeros n ⟨d.digits / 10, d.exponent + 1⟩ else d

end Decimal

inductive Tie where
  | even
  | up
deriving DecidableEq, Repr

namespace Double

/-- The interval that rounds to a finite double, and its value, as numerators over one denominator. -/
structure Neighbourhood where
  low : Nat
  value : Nat
  high : Nat
  denominator : Nat
  /-- Whether the ends round to the double too. -/
  closed : Bool
deriving Repr

/-- The neighbourhood of a positive finite double. Below a power of two the spacing is half. -/
def neighbourhood (mantissa : Nat) (exponent : Int) : Neighbourhood :=
  let below := if mantissa = Nat.pow 2 52 ∧ exponent ≠ minExponent then 1 else 2
  let (scale, denominator) := magnitude 1 (exponent - 2)
  { low := (4 * mantissa - below) * scale
    value := 4 * mantissa * scale
    high := (4 * mantissa + 2) * scale
    denominator
    closed := mantissa % 2 = 0 }

def Neighbourhood.has (h : Neighbourhood) (digits : Nat) (exponent : Int) : Bool :=
  let (n, d) := if exponent < 0 then (digits * h.denominator, Nat.pow 10 exponent.natAbs)
    else (digits * Nat.pow 10 exponent.natAbs * h.denominator, 1)
  if h.closed then h.low * d ≤ n ∧ n ≤ h.high * d else h.low * d < n ∧ n < h.high * d

/-- The point of the grid of multiples of `10 ^ exponent` nearest to the value, among its two
neighbours that lie in the neighbourhood. -/
def Neighbourhood.onGrid (h : Neighbourhood) (tie : Tie) (exponent : Int) : Option Decimal :=
  let (n, d) := if exponent < 0 then (h.value * Nat.pow 10 exponent.natAbs, h.denominator)
    else (h.value, h.denominator * Nat.pow 10 exponent.natAbs)
  let q := n / d
  let r := n % d
  let lower := h.has q exponent && q ≠ 0
  let upper := h.has (q + 1) exponent
  let up : Bool := match tie with
    | .even => 2 * r > d ∨ (2 * r = d ∧ q % 2 = 1)
    | .up => 2 * r ≥ d
  if lower ∧ (¬ upper ∨ ¬ up) then some ⟨q, exponent⟩
  else if upper then some ⟨q + 1, exponent⟩
  else none

def Neighbourhood.search (h : Neighbourhood) (tie : Tie) : Nat → Int → Decimal
  | 0, exponent => ⟨h.value / h.denominator, exponent⟩
  | fuel + 1, exponent =>
    match h.onGrid tie exponent with
    | some d => d
    | none => h.search tie fuel (exponent - 1)

/-- The shortest decimal that reads back as a positive finite double. The search begins at a grid
coarser than the value; seventeen digits always suffice. -/
def shortest (tie : Tie) (mantissa : Nat) (exponent : Int) : Decimal :=
  let h := neighbourhood mantissa exponent
  let size : Int := (Nat.toDigits 10 (h.value / h.denominator)).length
  let start : Int := if h.value < h.denominator
    then 1 - ((Nat.toDigits 10 (h.denominator / h.value)).length : Int) else size
  (h.search tie 20 (start + 1)).dropZeros 20

end Double
end WrapperGen
