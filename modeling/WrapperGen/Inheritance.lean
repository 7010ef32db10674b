import WrapperGen.ClassTable.Basic

/-!
# Inheritance

A resolved class is its record merged with those of its ancestors, from the one below the root down.
Resolution walks up the superclasses, refuses a class that comes twice, and remembers every class it
has merged.
-/

namespace WrapperGen

/-- A class merged with all its ancestors. -/
structure Resolved where
  className : String
  unitPath : String
  /-- The superclass, unless the class derives from the root. -/
  superClass : Option String
  /-- The properties of this class alone. -/
  ownProperties : Keyed Property
  /-- The properties of the ancestors, overlaid with its own. -/
  allProperties : Keyed Property
  arguments : List Argument
  /-- The dependencies of this class alone. -/
  dependencies : List String
  /-- The union over all ancestors, sorted. -/
  external : List String
  docPath : String
deriving DecidableEq, Repr, Inhabited

namespace Resolved

def value (r : Resolved) : Value :=
  .record [("className", .text r.className), ("relativePath", .text r.unitPath),
    ("superClass", Value.ofOption .text r.superClass),
    ("ownProperties", ClassRecord.propertiesValue r.ownProperties),
    ("allProperties", ClassRecord.propertiesValue r.allProperties),
    ("constructorArgs", ClassRecord.argumentsValue r.arguments),
    ("dependencies", Value.ofTexts r.dependencies),
    ("propsDefinedExternally", Value.ofTexts r.external),
    ("docPath", .text r.docPath)]

def inherited : Option Resolved → Keyed Property
  | some r => r.allProperties
  | none => .empty

end Resolved

namespace ClassTable

/-- The superclass of a class: its own, else the default one, which never applies to the class it
names. The root counts as none. -/
def parent? (t : ClassTable) (name : String) (r : ClassRecord) : Option String :=
  let named := match r.superClass with
    | some p => some p
    | none => t.defaults.superClass.filter (· ≠ name)
  named.filter (!t.isRoot ·)

/-- Merge a record with its resolved superclass. A property that is declared again keeps its inherited
place and takes its new kind. -/
def merge (t : ClassTable) (name : String) (own : ClassRecord) (parent : Option Resolved) : Resolved :=
  let unitPath := own.unitPathOf name
  { className := name
    unitPath
    superClass := t.parent? name own
    ownProperties := own.properties
    allProperties := (Resolved.inherited parent).setAll own.properties.entries
    arguments := (own.arguments <|> parent.map (·.arguments) <|> t.defaults.arguments).getD []
    dependencies := own.dependencies
    external := Names.union ((parent.map (·.external)).getD t.defaults.external) own.external
    docPath := (own.docPath <|> t.defaults.docPath).getD unitPath }

abbrev Memo := Std.HashMap String Resolved

/-- The classes to merge for one class, the least derived first, and the resolved class above them. -/
structure Chain where
  links : Named ClassRecord
  above : Option Resolved

/-- Where a climb stands: the classes it has passed, the last one first, and the name it has come to. -/
structure Ascent where
  passed : Named ClassRecord
  name : String

def Ascent.route (a : Ascent) : List String := a.passed.names.reverse ++ [a.name]

inductive Ascent.Step where
  | onward (a : Ascent)
  | ended (outcome : Except Error Chain)

/-- One step of the climb from a class: pass the class it has come to and go on to its superclass,
unless there is none or it has been resolved before. -/
def climbStep (t : ClassTable) (memo : Memo) (start : String) (a : Ascent) : Ascent.Step :=
  match t.get? a.name with
  | none => .ended (.error (.unknownClass a.name))
  | some r =>
    if a.passed.has a.name then .ended (.error (.cycle start a.route))
    else
      let passed := (a.name, r) :: a.passed
      match t.parent? a.name r with
      | none => .ended (.ok ⟨passed, none⟩)
      | some p =>
        match memo[p]? with
        | some above => .ended (.ok ⟨passed, some above⟩)
        | none => .onward ⟨passed, p⟩

def climb (t : ClassTable) (memo : Memo) (start : String) : Nat → Ascent → Except Error Chain
  | 0, a => .error (.unknownClass a.name)
  | fuel + 1, a =>
    match t.climbStep memo start a with
    | .onward b => t.climb memo start fuel b
    | .ended outcome => outcome

/-- Climb from a class to one without superclass or below one already resolved. No class is passed
twice, so a climb has no more steps than there are classes, and one. -/
def ascend (t : ClassTable) (memo : Memo) (start : String) : Except Error Chain :=
  t.climb memo start (t.names.length + 1) ⟨[], start⟩

/-- Merge the links of a chain from the top down and remember each. -/
def mergeDown (t : ClassTable) : Memo → Option Resolved → Named ClassRecord → Memo × Option Resolved
  | memo, above, [] => (memo, above)
  | memo, above, (name, r) :: below =>
    let merged := t.merge name r above
    t.mergeDown (memo.insert name merged) (some merged) below

/-- Resolve a class, using and extending what was resolved before. An error leaves that as it was. -/
def resolveWith (t : ClassTable) (memo : Memo) (name : String) : Except Error Resolved × Memo :=
  match memo[name]? with
  | some r => (.ok r, memo)
  | none =>
    match t.ascend memo name with
    | .error e => (.error e, memo)
    | .ok chain =>
      match t.mergeDown memo chain.above chain.links with
      | (memo', some r) => (.ok r, memo')
      | (memo', none) => (.error (.unknownClass name), memo')

def resolve (t : ClassTable) (name : String) : Except Error Resolved := (t.resolveWith {} name).1

end ClassTable
end WrapperGen
