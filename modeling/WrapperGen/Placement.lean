import WrapperGen.Path
import WrapperGen.Target
import WrapperGen.UnitPath

/-!
# Placement of artifacts

A class has two places per target language: that of its generated module and that of a module
written by hand which takes over from it, the override. Both lie in the directory its unit path
names below the output root.

| target     | generated             | override      | import path                   |
|------------|-----------------------|---------------|-------------------------------|
| javascript | `dir/Name.autogen.js` | `dir/Name.js` | `./Name.js`, `../dir/Name.js` |
| python     | `dir/Name_autogen.py` | `dir/Name.py` | `.Name`, `..dir.Name`         |
-/

namespace WrapperGen

/-- The output tree of one target language. -/
structure Placement where
  target : Target
  root : Path
deriving DecidableEq, Repr, Inhabited

namespace Placement

def classDir (p : Placement) (unitPath : String) : Path :=
  ((Text.pieces '/' (UnitPath.normalize unitPath)).dropLast).foldl Path.child p.root

def generatedPath (p : Placement) (className unitPath : String) : Path :=
  (p.classDir unitPath).child (className ++ p.target.generatedSuffix)

def overridePath (p : Placement) (className unitPath : String) : Path :=
  (p.classDir unitPath).child (className ++ p.target.moduleExtension)

def isGenerated (p : Placement) (fileName : String) : Bool :=
  Text.endsWith p.target.generatedSuffix fileName

/-- The override that would take over from a generated file. -/
def overrideFor? (p : Placement) (file : Path) : Option Path := do
  let name ← file.fileName?
  let stem ← Text.beforeEnd? p.target.generatedSuffix name
  return file.withFileName (stem ++ p.target.moduleExtension)

/-- The components two lists have in common at their beginning. -/
def common : List Component → List Component → Nat
  | a :: r, b :: s => if a = b then common r s + 1 else 0
  | _, _ => 0

/-- How many directories to ascend from `dir`, and the names that lead down to `file` from there. -/
def steps (dir file : Path) : Nat × List String :=
  let a := dir.components.filter (· ≠ .current)
  let b := file.components.filter (· ≠ .current)
  let n := common a b
  (a.length - n, (b.drop n).map Component.text)

/-- A module name without `.py`. -/
def moduleName (name : String) : String := (Text.beforeEnd? ".py" name).getD name

def mapLast (f : String → String) : List String → List String
  | [] => []
  | [s] => [f s]
  | s :: r => s :: mapLast f r

/-- How the module `source` writes an import of the module `file`. -/
def importPath (p : Placement) (source file : Path) : String :=
  let (ups, names) := steps (source.parent?.getD ⟨""⟩) file
  match p.target with
  | .javascript =>
    (if ups = 0 then "./" else String.join (List.replicate ups "../")) ++ "/".intercalate names
  | .python =>
    String.ofList (List.replicate (ups + 1) '.') ++ ".".intercalate (mapLast moduleName names)

/-- How the root package writes an import of a module below it. -/
def modulePath? (p : Placement) (file : Path) : Option String := do
  let names := (← Path.below? p.root file).map Component.text
  let last ← names.getLast?
  let stem ← Text.beforeEnd? p.target.moduleExtension last
  return "." ++ ".".intercalate (names.dropLast ++ [stem])

end Placement
end WrapperGen
