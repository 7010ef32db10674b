import WrapperGen.Path
import WrapperGen.Target
import WrapperGen.Text.Affix

/-!
# Command-line arguments

A command line is a verb with options before and after it. The options of each side are read on their
own, none of them twice; those after the verb win. What follows `--` is no option.
-/

namespace WrapperGen.Command

inductive Verb where
  | generate
  | check
  | resolve (className : String)
deriving DecidableEq, Repr, Inhabited

structure Request where
  verb : Verb
  /-- The file of the settings. -/
  config : Path
  asked : List Target
deriving DecidableEq, Repr, Inhabited

inductive Refusal where
  | usage
  | version
  | help
deriving DecidableEq, Repr, Inhabited

inductive Key where
  | config
  | lang
deriving DecidableEq, Repr, Inhabited

/-- What may stand on one side of the verb. -/
structure Side where
  /-- Whether target languages can be chosen. -/
  lang : Bool
  /-- Whether the version can be asked for. -/
  version : Bool
deriving DecidableEq, Repr, Inhabited

structure Reading where
  config : Option String := none
  asked : Option (List Target) := none
  /-- The option whose value is to come. -/
  pending : Option Key := none
  /-- Whether `--` was read. -/
  escaped : Bool := false
deriving DecidableEq, Repr, Inhabited

def languages? : String → Option (List Target)
  | "js" => some [.javascript]
  | "python" => some [.python]
  | "all" => some Target.all
  | _ => none

def Reading.take (r : Reading) : Key → String → Except Refusal Reading
  | .config, value =>
    if r.config.isSome ∨ value = "" then .error .usage
    else .ok { r with config := some value, pending := none }
  | .lang, value =>
    match r.asked, languages? value with
    | none, some targets => .ok { r with asked := some targets, pending := none }
    | _, _ => .error .usage

/-- The value attached to a short option, if there is one; an `=` before it does not count. -/
def attached : List Char → Option String
  | [] => none
  | '=' :: r => some (String.ofList r)
  | r => some (String.ofList r)

/-- Take the value attached to an option, or wait for it. -/
def Reading.takeOrWait (r : Reading) (key : Key) : Option String → Except Refusal Reading
  | some value => r.take key value
  | none => .ok { r with pending := some key }

def readShort (side : Side) (r : Reading) : List Char → Except Refusal Reading
  | [] => .ok r
  | c :: rest =>
    if c = 'v' then readShort side r rest
    else if c = 'c' then r.takeOrWait .config (attached rest)
    else if c = 'l' ∧ side.lang then r.takeOrWait .lang (attached rest)
    else if c = 'V' ∧ side.version then .error .version
    else if c = 'h' then .error .help
    else .error .usage

/-- A name, and the text after the first `=` if there is one. -/
def cutEquals : List Char → List Char × Option String
  | [] => ([], none)
  | '=' :: r => ([], some (String.ofList r))
  | c :: r => ((c :: (cutEquals r).1), (cutEquals r).2)

def readLong (side : Side) (r : Reading) (cs : List Char) : Except Refusal Reading :=
  let (name, value) := cutEquals cs
  match String.ofList name, value with
  | "config", _ => r.takeOrWait .config value
  | "lang", _ => if side.lang then r.takeOrWait .lang value else .error .usage
  | "verbose", none => .ok r
  | "version", none => if side.version then .error .version else .error .usage
  | "help", none => .error .help
  | _, _ => .error .usage

inductive Shape where
  | escape
  | long (rest : List Char)
  | short (rest : List Char)
  | word
deriving DecidableEq, Repr

/-- The shape of an argument; a single dash is a word. -/
def shape (arg : String) : Shape :=
  match arg.toList with
  | ['-', '-'] => .escape
  | '-' :: '-' :: rest => .long rest
  | '-' :: c :: rest => .short (c :: rest)
  | _ => .word

/-- Read one side of the verb up to the first word that is no option's value; that word and what
follows it are left. -/
def readSide (side : Side) : Reading → List String → Except Refusal (Reading × List String)
  | r, [] => if r.pending.isSome then .error .usage else .ok (r, [])
  | r, arg :: rest =>
    if r.escaped then .ok (r, arg :: rest)
    else
      match r.pending, shape arg with
      | some key, .word => do readSide side (← r.take key arg) rest
      | some _, _ => .error .usage
      | none, .escape => readSide side { r with escaped := true } rest
      | none, .long cs => do readSide side (← readLong side r cs) rest
      | none, .short cs => do readSide side (← readShort side r cs) rest
      | none, .word => .ok (r, arg :: rest)

def defaultConfig : String := "classgen.toml"

def request (verb : Verb) (before after : Reading) : Request :=
  { verb
    config := ⟨(after.config <|> before.config).getD defaultConfig⟩
    asked := after.asked.getD Target.all }

def readPlain (verb : Verb) (side : Side) (before : Reading) (args : List String) :
    Except Refusal Request := do
  match ← readSide side {} args with
  | (after, []) => return request verb before after
  | (_, _ :: _) => .error .usage

/-- The rest of a command line whose verb takes the name of a class. -/
def readNamed (side : Side) (before : Reading) (args : List String) : Except Refusal Request := do
  match ← readSide side {} args with
  | (_, []) => .error .usage
  | (middle, name :: rest) =>
    match ← readSide side middle rest with
    | (after, []) => return request (.resolve name) before after
    | (_, _ :: _) => .error .usage

def verbs : List String := ["generate", "check", "resolve", "help"]

/-- What is asked for after the verb `help`: everything, or one verb. -/
def readHelp : List String → Refusal
  | [] => .help
  | [verb] => if verbs.contains verb then .help else .usage
  | _ => .usage

def read (args : List String) : Except Refusal Request := do
  let (before, rest) ← readSide ⟨false, true⟩ {} args
  match rest with
  | [] => .error .usage
  | verb :: rest =>
    if before.escaped then .error .usage
    else
      match verb with
      | "generate" => readPlain .generate ⟨true, false⟩ before rest
      | "check" => readPlain .check ⟨false, false⟩ before rest
      | "resolve" => readNamed ⟨true, false⟩ before rest
      | "help" => .error (readHelp rest)
      | _ => .error .usage

end WrapperGen.Command
