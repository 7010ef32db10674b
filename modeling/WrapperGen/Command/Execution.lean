import WrapperGen.ClassTable.Format
import WrapperGen.ClassTable.Problems
import WrapperGen.Command.Arguments
import WrapperGen.Generation.Run
import WrapperGen.Json.Printer

/-!
# Executing commands

A command works on a file tree. It answers what it prints, the complaint it ends with, if any, and its
exit code; `check` also exits with the code of the first problem it finds.
-/

namespace WrapperGen.Command

/-- What a command ends with when it cannot do its work. -/
inductive Complaint where
  | usage
  | failed (e : Error)
  /-- The cause stands behind a failure to load a file. -/
  | loading (what : String) (path : Path) (cause : Error)
deriving DecidableEq, Repr, Inhabited

namespace Complaint

def usageText : String :=
  "Usage: classgen [-c <CONFIG>] [-v] <generate [-l <LANG>] | check | resolve <CLASS> [-l <LANG>]>"

def message : Complaint → String
  | usage => usageText
  | failed e => "Error: " ++ e.message
  | loading what path cause =>
    "Error: failed to load " ++ what ++ " " ++ path.text ++ "\n\nCaused by:\n    " ++ cause.message

/-- The first line of a complaint. A carriage return that ends it belongs to the line break. -/
def headline (c : Complaint) : String :=
  let line := String.ofList (c.message.toList.takeWhile (· ≠ '\n'))
  (Text.beforeEnd? "\r" line).getD line

def exit : Complaint → Nat
  | usage => 2
  | _ => 1

end Complaint

/-- What a command leaves behind besides the files. -/
structure Outcome where
  exit : Nat
  printed : String
  complaint : Option Complaint
deriving DecidableEq, Repr, Inhabited

namespace Outcome

def success (printed : String) : Outcome := ⟨0, printed, none⟩

def failure (printed : String) (c : Complaint) : Outcome := ⟨c.exit, printed, some c⟩

end Outcome

/-- The settings of a command. The default file may be missing. -/
def loadSettings (t : FileTree) (path : Path) : Except Complaint Settings :=
  if !t.present path && path.same ⟨defaultConfig⟩ then .ok {}
  else (Settings.ofFile t path).mapError (.loading "configuration" path)

/-- The class table that settings name, with their root class. -/
def loadTable (s : Settings) (t : FileTree) : Except Complaint ClassTable :=
  ((ClassTable.ofFile t s.run.classes).map (·.withRoot s.layout.baseClass)).mapError
    (.loading "class table" s.run.classes)

def generate (s : Settings) (asked : List Target) (t : FileTree) : Outcome × FileTree :=
  match loadTable s t with
  | .error c => (.failure "" c, t)
  | .ok table =>
    match (Generation.run s table asked).run t with
    | (.ok report, t') => (.success report.summary, t')
    | (.error e, t') => (.failure "" (.failed e), t')

/-- The problems of a class table, and of the source units it does not know. -/
def problems (s : Settings) (table : ClassTable) (t : FileTree) : Except Error (List Error) := do
  let units ← SourceUnit.enumerate s table t
  return table.problems ++ (Plan.ofUnits table units).skipped.map (·.error)

def verdict (table : ClassTable) (found : List Error) : String :=
  "✓ Classes: " ++ toString table.names.length ++ "\n" ++
    if found.isEmpty then "\nClass table is valid!\n"
    else String.join (found.map fun e => "✗ " ++ e.message ++ "\n") ++
      "\n" ++ toString found.length ++ " problems found\n"

def check (s : Settings) (t : FileTree) : Outcome :=
  let heading := "Checking class table: " ++ s.run.classes.text ++ "\n"
  match loadTable s t with
  | .error c => .failure heading c
  | .ok table =>
    match problems s table t with
    | .error e => .failure heading (.failed e)
    | .ok found =>
      ⟨(found.head?.map Error.code).getD 0, heading ++ verdict table found, none⟩

/-- A resolved class with its references per target language. -/
def resolution (s : Settings) (table : ClassTable) (t : FileTree) (name : String)
    (asked : List Target) : Except Error Value := do
  let r ← table.resolve name
  let references ← asked.mapM fun target => do
    let refs ← Generator.referencesOf ⟨s, table, target, t.isFile⟩ name
    return (target.name, refs.value)
  return .record [("config", r.value), ("references", .record references)]

def resolve (s : Settings) (t : FileTree) (name : String) (asked : List Target) : Outcome :=
  match loadTable s t with
  | .error c => .failure "" c
  | .ok table =>
    match resolution s table t name asked with
    | .ok v => .success (Json.pretty v ++ "\n")
    | .error e => .failure "" (.failed e)

def execute (r : Request) (t : FileTree) : Outcome × FileTree :=
  match loadSettings t r.config with
  | .error c => (.failure "" c, t)
  | .ok s =>
    match r.verb with
    | .generate => generate s r.asked t
    | .check => (check s t, t)
    | .resolve name => (resolve s t name r.asked, t)

def run (args : List String) (t : FileTree) : Outcome × FileTree :=
  match read args with
  | .ok r => execute r t
  | .error .usage => (.failure "" .usage, t)
  | .error .version => (.success ("classgen " ++ version ++ "\n"), t)
  | .error .help => (.success (Complaint.usageText ++ "\n"), t)

end WrapperGen.Command
