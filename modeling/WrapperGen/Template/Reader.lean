import WrapperGen.Symbol
import WrapperGen.Text.Affix
import WrapperGen.Text.Ascii

/-!
# Reading templates

A template is written line by line. What stands between double braces is a tag: the path of something to
print, or the start or the stop of a block, whose body is filled on a condition or for every item of a
list. A line with nothing but one tag of a block stands for that tag alone; any other line is kept as it is
written, with its end.
-/

namespace WrapperGen

/-- A part of a template. A path is a list of field names; the empty one is the context itself. -/
inductive Part where
  | text (s : String)
  | print (path : List String)
  /-- Filled if the value at the path holds. -/
  | when (path : List String) (body : List Part)
  /-- Filled for every item of the value at the path, with the item as context. -/
  | each (path : List String) (body : List Part)

namespace Template

inductive Block where
  | when
  | each
deriving DecidableEq, Repr

namespace Block

def part : Block → List String → List Part → Part
  | .when => .when
  | .each => .each

def word : Block → List Char
  | .when => ['i', 'f']
  | .each => ['e', 'a', 'c', 'h']

end Block

/-- A piece of a line: text, or what a tag says. -/
inductive Token where
  | text (s : String)
  | print (path : List String)
  | start (block : Block) (path : List String)
  | stop (block : Block)
deriving DecidableEq, Repr

namespace Token

def isBlock : Token → Bool
  | .start _ _ | .stop _ => true
  | _ => false

def isBlank : Token → Bool
  | .text s => s.toList.all fun c => c = ' ' || c = '\t' || c = '\n'
  | _ => false

end Token

def contextWord : List Char := ['t', 'h', 'i', 's']

def path? (cs : List Char) : Option (List String) :=
  if cs = contextWord then some []
  else (cs.splitOn '.').mapM fun name =>
    if Symbol.isIdentifier (String.ofList name) then some (String.ofList name) else none

def start? (block : Block) (cs : List Char) : Option Token := do
  return .start block (← path? (← Text.dropPrefix? (block.word ++ [' ']) cs))

def stop? (block : Block) (cs : List Char) : Option Token :=
  if cs = block.word then some (.stop block) else none

def tag? : List Char → Option Token
  | '#' :: cs => (start? .when cs).or (start? .each cs)
  | '/' :: cs => (stop? .when cs).or (stop? .each cs)
  | cs => (path? cs).map .print

/-- Text between tags; nothing makes no token. -/
def textOf (cs : List Char) : List Token := if cs = [] then [] else [.text (String.ofList cs)]

mutual

/-- The tokens from somewhere in text on, given what was met of the text, last character first. -/
def scanText? (met : List Char) : List Char → Option (List Token)
  | '\x7b' :: '\x7b' :: r => do return textOf met.reverse ++ (← scanTag? [] r)
  | c :: r => scanText? (c :: met) r
  | [] => some (textOf met.reverse)

/-- The tokens from somewhere in a tag on, given what was met of the tag, last character first. -/
def scanTag? (met : List Char) : List Char → Option (List Token)
  | '\x7d' :: '\x7d' :: r => do return (← tag? met.reverse) :: (← scanText? [] r)
  | c :: r => scanTag? (c :: met) r
  | [] => none

end

/-- One tag of a block stands for its line if nothing else shows there. -/
def alone (tokens : List Token) : List Token :=
  match tokens.filter Token.isBlock with
  | [t] => if tokens.all fun u => u.isBlock || u.isBlank then [t] else tokens
  | _ => tokens

def lineTokens? (line : List Char) : Option (List Token) := (scanText? [] (line ++ ['\n'])).map alone

def tokens? : List (List Char) → Option (List Token)
  | [] => some []
  | line :: r => do return (← lineTokens? line) ++ (← tokens? r)

/-- A block that was started: its path, and the parts before it. -/
structure Started where
  block : Block
  path : List String
  before : List Part

/-- The parts that tokens make after others, inside blocks that were started, the innermost first. -/
def nest? : List Started → List Part → List Token → Option (List Part)
  | [], parts, [] => some parts
  | _ :: _, _, [] => none
  | outer, parts, .text s :: r => nest? outer (parts ++ [.text s]) r
  | outer, parts, .print path :: r => nest? outer (parts ++ [.print path]) r
  | outer, parts, .start block path :: r => nest? (⟨block, path, parts⟩ :: outer) [] r
  | [], _, .stop _ :: _ => none
  | b :: outer, parts, .stop block :: r =>
    if b.block = block then nest? outer (b.before ++ [b.block.part b.path parts]) r else none

/-- The parts of a template that is written in lines. -/
def read? (lines : List String) : Option (List Part) := do
  nest? [] [] (← tokens? (lines.map String.toList))

/-- A tag as it stands in a line. -/
def tag (inside : String) : String := "\x7b\x7b" ++ inside ++ "\x7d\x7d"

mutual

/-- The tokens a part is written in. -/
def partTokens : Part → List Token
  | .text s => [.text s]
  | .print path => [.print path]
  | .when path body => .start .when path :: (tokensOf body ++ [.stop .when])
  | .each path body => .start .each path :: (tokensOf body ++ [.stop .each])

def tokensOf : List Part → List Token
  | [] => []
  | p :: r => partTokens p ++ tokensOf r

end

mutual

theorem nest?_partTokens (outer : List Started) (before : List Part) (rest : List Token) :
    ∀ p, nest? outer before (partTokens p ++ rest) = nest? outer (before ++ [p]) rest
  | .text s => by rw [partTokens, List.singleton_append, nest?]
  | .print path => by rw [partTokens, List.singleton_append, nest?]
  | .when path body => by
    rw [partTokens, List.cons_append, List.append_assoc, nest?, nest?_tokensOf]
    simp [nest?, Block.part]
  | .each path body => by
    rw [partTokens, List.cons_append, List.append_assoc, nest?, nest?_tokensOf]
    simp [nest?, Block.part]

/-- Tokens of parts make the parts they are the tokens of, wherever they stand. -/
theorem nest?_tokensOf (outer : List Started) (before : List Part) (rest : List Token) :
    ∀ parts, nest? outer before (tokensOf parts ++ rest) = nest? outer (before ++ parts) rest
  | [] => by rw [tokensOf, List.nil_append, List.append_nil]
  | p :: r => by
    rw [tokensOf, List.append_assoc, nest?_partTokens, nest?_tokensOf, List.append_assoc,
      List.singleton_append]

end

theorem read?_of_tokens {lines : List String} {parts : List Part}
    (h : tokens? (lines.map String.toList) = some (tokensOf parts)) : read? lines = some parts := by
  rw [read?, h]
  simpa [nest?] using nest?_tokensOf [] [] [] parts

theorem read?_of_ascii {lines : List String} {parts : List Part}
    (h : (lines.mapM Text.ascii?).bind tokens? = some (tokensOf parts)) : read? lines = some parts := by
  obtain ⟨css, hcss, htokens⟩ := Option.bind_eq_some_iff.1 h
  exact read?_of_tokens (Text.toList_of_mapM_ascii? hcss ▸ htokens)

end Template
end WrapperGen
