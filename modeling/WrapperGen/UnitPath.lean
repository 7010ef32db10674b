import WrapperGen.Text.Affix

/-!
# Unit paths

A unit path says where a class stands below the root of a library, as `directory/Unit` without a
file extension. It is written freely in a class table and brought to that form by `normalize`.
-/

namespace WrapperGen.UnitPath

/-- Whether a segment names something: it is neither empty nor `.` nor `..`. -/
def isName (segment : List Char) : Bool := segment ≠ [] && segment ≠ ['.'] && segment ≠ ['.', '.']

/-- A segment up to its last dot, unless that dot begins it or there is none. -/
def stem (segment : List Char) : List Char :=
  match (segment.reverse.dropWhile (· ≠ '.')) with
  | [] => segment
  | [_] => segment
  | _ :: rest => rest.reverse

/-- The named segments of a path in which `\` separates as `/` does. -/
def segments (path : List Char) : List (List Char) :=
  ((path.map fun c => if c = '\\' then '/' else c).splitOn '/').filter isName

/-- Cut the extension off the last segment. -/
def stemLast : List (List Char) → List (List Char)
  | [] => []
  | [s] => [stem s]
  | s :: r => s :: stemLast r

/-- The unit path that a written path stands for. -/
def normalize (path : String) : String :=
  String.ofList (['/'].intercalate (stemLast (segments path.toList)))

/-- The last segment of a unit path, which names its primary class. -/
def unitName (path : String) : String := Text.lastPiece '/' path

end WrapperGen.UnitPath
