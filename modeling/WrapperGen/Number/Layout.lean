import WrapperGen.Number.Shortest

/-!
# Layouts of a decimal

Two ways to write a finite double: positionally, with every digit and never an exponent, and with an
exponent once the first digit is far from the point.
-/

namespace WrapperGen.Double

/-- Digits with the point `places` digits from the right; zeros fill up to one digit before it. -/
def pointAt (digits : List Char) (places : Nat) : List Char :=
  let padded := List.replicate (places + 1 - digits.length) '0' ++ digits
  padded.take (padded.length - places) ++ '.' :: padded.drop (padded.length - places)

/-- A decimal without exponent; a whole one ends in `.0`. -/
def positional (d : Decimal) : List Char :=
  if d.exponent < 0 then pointAt d.text d.exponent.natAbs
  else d.text ++ List.replicate d.exponent.natAbs '0' ++ ['.', '0']

/-- A decimal with one digit before the point, if it has more, and a signed exponent. -/
def scientific (d : Decimal) : List Char :=
  let fraction := match d.text with
    | c :: c' :: rest => c :: '.' :: c' :: rest
    | cs => cs
  fraction ++ 'e' :: (if d.leading < 0 then '-' else '+') :: Nat.toDigits 10 d.leading.natAbs

def signText (negative : Bool) : List Char := if negative then ['-'] else []

/-- A finite double without exponent: a whole one with all digits of its value and `.0`, another with
the fewest digits that read back, a tie going up. -/
def literal (negative : Bool) (mantissa : Nat) (exponent : Int) : List Char :=
  signText negative ++ match whole? mantissa exponent with
    | some n => Nat.toDigits 10 n ++ ['.', '0']
    | none => positional (shortest .up mantissa exponent)

/-- A finite double in a document: the fewest digits that read back, a tie going to the even digit,
positional while the first digit stands between `10 ^ -5` and `10 ^ 15`. -/
def document (negative : Bool) (mantissa : Nat) (exponent : Int) : List Char :=
  signText negative ++
    if mantissa = 0 then ['0', '.', '0']
    else
      let d := shortest .even mantissa exponent
      if -5 ≤ d.leading ∧ d.leading ≤ 15 then positional d else scientific d

end WrapperGen.Double
