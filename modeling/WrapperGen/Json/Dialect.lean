/-!
# Dialects of JSON

The grammar of JSON is read and written with other words in other languages. A dialect says which words
stand for an absent value and for the truth values, and how deep containers may nest.
-/

namespace WrapperGen.Json

structure Dialect where
  nullWord : List Char
  trueWord : List Char
  falseWord : List Char
  /-- How many containers may stand in each other, if there is a limit. Those beyond it are part of the
  grammar, but unreadable. -/
  limit : Option Nat
deriving DecidableEq, Repr

namespace Dialect

def boolWord (g : Dialect) (b : Bool) : List Char := if b then g.trueWord else g.falseWord

/-- Whether a container may stand inside `depth` others. -/
def admits (g : Dialect) (depth : Nat) : Bool :=
  match g.limit with
  | some n => depth < n
  | none => true

/-- The dialect of documents. -/
def standard : Dialect where
  nullWord := ['n', 'u', 'l', 'l']
  trueWord := ['t', 'r', 'u', 'e']
  falseWord := ['f', 'a', 'l', 's', 'e']
  limit := some 127

end Dialect
end WrapperGen.Json
