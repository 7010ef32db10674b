/-!
# Quoted strings

A string stands between double quotes. Quotes, backslashes and characters below the blank are
escaped, all others stand for themselves. Reading also knows the escapes that writing does not need;
`\u` escapes of a surrogate pair make one character. Which escapes of one letter are known is up to the
reader.
-/

namespace WrapperGen.Json

/-- A hexadecimal digit, lower case. -/
def hexDigit (n : Nat) : Char := if n < 10 then Char.ofNat (48 + n) else Char.ofNat (87 + n)

def hexValue? (c : Char) : Option Nat :=
  if '0' ≤ c ∧ c ≤ '9' then some (c.toNat - 48)
  else if 'a' ≤ c ∧ c ≤ 'f' then some (c.toNat - 87)
  else if 'A' ≤ c ∧ c ≤ 'F' then some (c.toNat - 55)
  else none

def escape (c : Char) : List Char :=
  if c = '"' then ['\\', '"']
  else if c = '\\' then ['\\', '\\']
  else if c = '\x08' then ['\\', 'b']
  else if c = '\x0c' then ['\\', 'f']
  else if c = '\n' then ['\\', 'n']
  else if c = '\r' then ['\\', 'r']
  else if c = '\t' then ['\\', 't']
  else if c.toNat < 0x20 then ['\\', 'u', '0', '0', hexDigit (c.toNat / 16), hexDigit (c.toNat % 16)]
  else [c]

def quote (cs : List Char) : List Char := '"' :: cs.flatMap escape ++ ['"']

def quoteText (s : String) : String := String.ofList (quote s.toList)

/-- A piece of a quoted string: a character, or a 16-bit unit given by its number. -/
inductive Piece where
  | char (c : Char)
  | unit (n : Nat)
deriving DecidableEq, Repr

def escaped? (c : Char) : Option Char :=
  match c with
  | '"' => some '"'
  | '\\' => some '\\'
  | '/' => some '/'
  | 'b' => some '\x08'
  | 'f' => some '\x0c'
  | 'n' => some '\n'
  | 'r' => some '\r'
  | 't' => some '\t'
  | _ => none

def hex4? (a b c d : Char) : Option Nat := do
  return (← hexValue? a) * 4096 + (← hexValue? b) * 256 + (← hexValue? c) * 16 + (← hexValue? d)

/-- Read the rest of a quoted string after its opening quote, up to and with the closing one. The escapes
of one letter are those that `known` gives a character. -/
def readPieces? (known : Char → Option Char) : List Char → Option (List Piece × List Char)
  | [] => none
  | '"' :: r => some ([], r)
  | '\\' :: 'u' :: a :: b :: c :: d :: r => do
    let n ← hex4? a b c d
    let (ps, t) ← readPieces? known r
    return (.unit n :: ps, t)
  | '\\' :: e :: r => do
    let c ← known e
    let (ps, t) ← readPieces? known r
    return (.char c :: ps, t)
  | c :: r =>
    if c = '\\' ∨ c.toNat < 0x20 then none
    else do
      let (ps, t) ← readPieces? known r
      return (.char c :: ps, t)

/-- The characters of a string; none where half of a surrogate pair stands alone. -/
def characters? : List Piece → Option (List Char)
  | [] => some []
  | .char c :: r => (characters? r).map (c :: ·)
  | .unit n :: .unit m :: r =>
    if 0xD800 ≤ n ∧ n < 0xDC00 then
      if 0xDC00 ≤ m ∧ m < 0xE000 then
        (characters? r).map (Char.ofNat (0x10000 + (n - 0xD800) * 0x400 + (m - 0xDC00)) :: ·)
      else none
    else if 0xDC00 ≤ n ∧ n < 0xE000 then none
    else (characters? (.unit m :: r)).map (Char.ofNat n :: ·)
  | .unit n :: r =>
    if 0xD800 ≤ n ∧ n < 0xE000 then none else (characters? r).map (Char.ofNat n :: ·)

end WrapperGen.Json
