import WrapperGen.Json.Quoted

/-!
# Strings of a TOML text

Four forms: basic and literal strings, each on one line or over several. Basic ones know escapes,
literal ones take every character for itself.
-/

namespace WrapperGen.Toml

/-- Whether a character may stand in a string or a comment. -/
def isPlain (c : Char) : Bool := c = '\t' || (0x20 ≤ c.toNat && c.toNat ≠ 0x7f)

def charOf? (n : Nat) : Option Char := if n.isValidChar then some (Char.ofNat n) else none

def hex? (n : Nat) (cs : List Char) : Option (Nat × List Char) := do
  let ds := cs.take n
  if ds.length ≠ n then none
  let vs ← ds.mapM Json.hexValue?
  return (vs.foldl (fun a v => a * 16 + v) 0, cs.drop n)

def escape? (cs : List Char) : Option (Char × List Char) :=
  match cs with
  | 'b' :: r => some ('\x08', r)
  | 't' :: r => some ('\t', r)
  | 'n' :: r => some ('\n', r)
  | 'f' :: r => some ('\x0c', r)
  | 'r' :: r => some ('\r', r)
  | 'e' :: r => some ('\x1b', r)
  | '"' :: r => some ('"', r)
  | '\\' :: r => some ('\\', r)
  | 'x' :: r => do
    let (n, r) ← hex? 2 r
    return (← charOf? n, r)
  | 'u' :: r => do
    let (n, r) ← hex? 4 r
    return (← charOf? n, r)
  | 'U' :: r => do
    let (n, r) ← hex? 8 r
    return (← charOf? n, r)
  | _ => none

/-- The rest of a basic string on one line, with at most `fuel` characters. -/
def basic? : Nat → List Char → Option (List Char × List Char)
  | 0, _ => none
  | fuel + 1, cs =>
    match cs with
    | [] => none
    | '"' :: r => some ([], r)
    | '\\' :: r => do
      let (c, r) ← escape? r
      let (s, r) ← basic? fuel r
      return (c :: s, r)
    | c :: r =>
      if isPlain c then do
        let (s, r) ← basic? fuel r
        return (c :: s, r)
      else none

def literal? : List Char → Option (List Char × List Char)
  | [] => none
  | c :: r =>
    if c = '\'' then some ([], r)
    else if isPlain c then (literal? r).map fun (s, t) => (c :: s, t)
    else none

def newline? : List Char → Option (List Char)
  | '\n' :: r => some r
  | '\r' :: '\n' :: r => some r
  | _ => none

def skipSpace : List Char → List Char
  | ' ' :: r => skipSpace r
  | '\t' :: r => skipSpace r
  | '\n' :: r => skipSpace r
  | '\r' :: '\n' :: r => skipSpace r
  | cs => cs

/-- What follows a backslash that ends a line: the break and all blank space after it are dropped. -/
def continued? (cs : List Char) : Option (List Char) :=
  (newline? (cs.dropWhile fun c => c = ' ' || c = '\t')).map skipSpace

/-- The quotes at the end of a string over several lines: three close it, up to two before them
belong to it. -/
def closing? (q : Char) (cs : List Char) : Option (List Char × List Char) :=
  match cs with
  | a :: b :: c :: d :: e :: r =>
    if a = q ∧ b = q ∧ c = q then
      if d = q then if e = q then some ([q, q], r) else some ([q], e :: r) else some ([], d :: e :: r)
    else none
  | [a, b, c, d] =>
    if a = q ∧ b = q ∧ c = q then if d = q then some ([q], []) else some ([], [d]) else none
  | [a, b, c] => if a = q ∧ b = q ∧ c = q then some ([], []) else none
  | _ => none

/-- The rest of a string over several lines, after its opening quotes. Only a basic one, whose quote
is `"`, has escapes. -/
def lines? (q : Char) : Nat → List Char → Option (List Char × List Char)
  | 0, _ => none
  | fuel + 1, cs =>
    match closing? q cs with
    | some r => some r
    | none =>
      match cs with
      | [] => none
      | '\n' :: r => more '\n' (lines? q fuel r)
      | '\r' :: '\n' :: r => more '\r' (more '\n' (lines? q fuel r))
      | c :: r =>
        if c = '\\' ∧ q = '"' then
          match continued? r with
          | some r => lines? q fuel r
          | none => match escape? r with
            | some (c, r) => more c (lines? q fuel r)
            | none => none
        else if isPlain c then more c (lines? q fuel r)
        else none
where
  more (c : Char) (o : Option (List Char × List Char)) : Option (List Char × List Char) :=
    o.map fun (s, t) => (c :: s, t)

/-- A string over several lines; a line break right after the opening quotes is dropped. -/
def block? (q : Char) (cs : List Char) : Option (List Char × List Char) :=
  let body := (newline? cs).getD cs
  lines? q (body.length + 1) body

def quoted? (cs : List Char) : Option (List Char × List Char) :=
  match cs with
  | '"' :: '"' :: '"' :: r => block? '"' r
  | '\'' :: '\'' :: '\'' :: r => block? '\'' r
  | '"' :: r => basic? (r.length + 1) r
  | '\'' :: r => literal? r
  | _ => none

end WrapperGen.Toml
