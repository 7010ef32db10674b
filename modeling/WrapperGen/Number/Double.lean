/-!
# Binary floating-point numbers in exact arithmetic

A `Double` is a sign, a mantissa and a power of two, so its value is a rational number that can be
written down. Every rounding goes through one function, `Double.ofRatio`, which gives the double
nearest to a quotient of natural numbers; products and quotients of doubles are that function
applied to the exact result.
-/

namespace WrapperGen

/-- A number of the binary64 format. A finite one has the value `± mantissa * 2 ^ exponent`, with
`mantissa < 2 ^ 53` and, unless the exponent is the least one, `2 ^ 52 ≤ mantissa`. -/
inductive Double where
  | nan
  | infinite (negative : Bool)
  | finite (negative : Bool) (mantissa : Nat) (exponent : Int)
deriving DecidableEq, Repr, Inhabited

namespace Double

def minExponent : Int := -1074

def maxExponent : Int := 971

def zero (negative : Bool) : Double := .finite negative 0 minExponent

/-- The nearest natural number to `n / d`; a half goes to the even neighbour. -/
def roundQuotient (n d : Nat) : Nat :=
  let q := n / d
  let r := n % d
  if 2 * r < d ∨ (2 * r = d ∧ q % 2 = 0) then q else q + 1

/-- The quotient `n / (d * 2 ^ e)` as numerator and denominator. -/
def scaleDown (n d : Nat) (e : Int) : Nat × Nat :=
  if e < 0 then (n * Nat.pow 2 e.natAbs, d) else (n, d * Nat.pow 2 e.natAbs)

/-- The exponent at which `n / d` has a 53-bit mantissa, not below the least exponent. -/
def exponentFor (n d : Nat) : Int :=
  let e : Int := (n.log2 : Int) - (d.log2 : Int) - 53
  let (a, b) := scaleDown n d e
  max minExponent (if a / b < Nat.pow 2 53 then e else e + 1)

/-- A rounded mantissa and its exponent as a double; a mantissa that reached `2 ^ 53` is halved. -/
def pack (negative : Bool) (mantissa : Nat) (exponent : Int) : Double :=
  if mantissa < Nat.pow 2 53 then
    if exponent ≤ maxExponent then .finite negative mantissa exponent else .infinite negative
  else
    if exponent + 1 ≤ maxExponent then .finite negative (mantissa / 2) (exponent + 1)
    else .infinite negative

/-- The double nearest to `± n / d`, ties to the even mantissa; too large a quotient is infinite. -/
def ofRatio (negative : Bool) (n d : Nat) : Double :=
  if n = 0 then zero negative
  else
    let e := exponentFor n d
    let (a, b) := scaleDown n d e
    pack negative (roundQuotient a b) e

def ofNat (n : Nat) : Double := ofRatio false n 1

/-- The double nearest to an integer; zero is positive. -/
def ofInt (i : Int) : Double := ofRatio (i < 0) i.natAbs 1

def magnitude (mantissa : Nat) (exponent : Int) : Nat × Nat :=
  if exponent < 0 then (mantissa, Nat.pow 2 exponent.natAbs)
  else (mantissa * Nat.pow 2 exponent.natAbs, 1)

/-- The double nearest to `± significand * 10 ^ exponent`, for any exponent. Beyond `10 ^ 400` on
either side of the significand's own length the answer is infinite or zero, so no larger power is
computed. -/
def ofDecimal (negative : Bool) (significand : Nat) (exponent : Int) : Double :=
  if significand = 0 then zero negative
  else
    let digits : Int := (Nat.toDigits 10 significand).length
    if digits + exponent > 400 then .infinite negative
    else if digits + exponent < -400 then zero negative
    else if exponent < 0 then ofRatio negative significand (Nat.pow 10 exponent.natAbs)
    else ofRatio negative (significand * Nat.pow 10 exponent.natAbs) 1

def isFinite : Double → Bool
  | finite _ _ _ => true
  | _ => false

/-- The product of finite doubles, rounded once. Other operands give NaN: no caller has any. -/
def mul : Double → Double → Double
  | finite s m e, finite t n f =>
    let (a, b) := magnitude m e
    let (c, d) := magnitude n f
    ofRatio (s != t) (a * c) (b * d)
  | _, _ => nan

/-- The quotient of finite doubles, rounded once. Other operands, and a zero divisor, give NaN: no
caller has any. -/
def div : Double → Double → Double
  | finite s m e, finite t n f =>
    let (a, b) := magnitude m e
    let (c, d) := magnitude n f
    if c = 0 then nan else ofRatio (s != t) (a * d) (b * c)
  | _, _ => nan

/-- Whether a number is neither zero, nor below the smallest 53-bit one, nor without a value. -/
def isNormal : Double → Bool
  | finite _ m _ => Nat.pow 2 52 ≤ m
  | _ => false

def whole? (mantissa : Nat) (exponent : Int) : Option Nat :=
  let (n, d) := magnitude mantissa exponent
  if n % d = 0 then some (n / d) else none

end Double
end WrapperGen
