import WrapperGen.Text.Shapeless

/-!
# Shown texts

A text as messages show it: between double quotes, with escapes for quotes, backslashes, line breaks,
tabs and the null character. Other characters without a shape are given by their code points.
-/

namespace WrapperGen.Text

/-- A character by its code point. -/
def codePoint (c : Char) : List Char :=
  ['\\', 'u', '\x7b'] ++ Nat.toDigits 16 c.toNat ++ ['\x7d']

def shownChar (c : Char) : List Char :=
  if c = '"' then ['\\', '"']
  else if c = '\\' then ['\\', '\\']
  else if c = '\n' then ['\\', 'n']
  else if c = '\r' then ['\\', 'r']
  else if c = '\t' then ['\\', 't']
  else if c = '\x00' then ['\\', '0']
  else if isShapeless c then codePoint c
  else [c]

/-- A text as it is shown. -/
def shown (s : String) : String := String.ofList ('"' :: s.toList.flatMap shownChar ++ ['"'])

end WrapperGen.Text
