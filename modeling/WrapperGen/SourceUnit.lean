import WrapperGen.UnitPath

/-!
# Source units

A source unit is one file of the wrapped library. Its unit path is its key, and the last segment of
that names its primary class. Which units a run serves is chosen by path prefixes.
-/

namespace WrapperGen

/-- One file of the wrapped library. -/
structure SourceUnit where
  unitPath : String
  className : String
deriving DecidableEq, Repr, Inhabited

namespace SourceUnit

def ofPath (path : String) : SourceUnit :=
  let unitPath := UnitPath.normalize path
  { unitPath, className := UnitPath.unitName unitPath }

/-- Drop every `./` at the beginning. -/
def dropHere : List Char → List Char
  | '.' :: '/' :: r => dropHere r
  | cs => cs

/-- A filter prefix without `./` before it and `/` after it. -/
def bare (filter : List Char) : List Char := ((dropHere filter).reverse.dropWhile (· = '/')).reverse

/-- Whether a filter prefix covers a path: whole segments count. -/
def covers (filter path : String) : Bool :=
  match bare filter.toList with
  | [] => true
  | cs =>
    match Text.dropPrefix? cs path.toList with
    | some [] => true
    | some (c :: _) => c = '/'
    | none => false

/-- Whether a path is kept by the filters. No filter to include keeps every path, and excluding wins. -/
def isSelected (path : String) (included excluded : List String) : Bool :=
  (included.isEmpty || included.any (covers · path)) && !excluded.any (covers · path)

end SourceUnit
end WrapperGen
