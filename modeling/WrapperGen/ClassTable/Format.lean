import WrapperGen.ClassTable.Basic
import WrapperGen.FileTree
import WrapperGen.Format
import WrapperGen.Text.Shown

/-!
# Class tables in documents

A class table is written as a record of class records by name.
-/

namespace WrapperGen

namespace ClassTable

/-- The entries a document describes. A name given twice keeps its first place and takes its last
record. -/
def entries? (leeway : Leeway) : Document → Option (Keyed ClassRecord)
  | .record fields =>
    (fields.mapM fun (e : String × Document) =>
      (ClassRecord.ofDocument? leeway e.2).map (e.1, ·)).map Keyed.ofList
  | _ => none

def ofText (format : Format) (text : String) : Except Error ClassTable :=
  match (format.read? text).bind (entries? format.leeway) with
  | some entries => .ok (ofEntries entries)
  | none => .error (.settings .malformed)

/-- The table in a file, whose extension tells the format. -/
def ofFile (tree : FileTree) (path : Path) : Except Error ClassTable := do
  let text ← (tree.readText path).mapError (.io path)
  let extension := path.extension?.getD ""
  match Format.ofExtension? extension with
  | some format => ofText format text
  | none => .error (.settings (.unknownFormat (Text.shown extension) path))

end ClassTable
end WrapperGen
