import WrapperGen.Wrapper.Build

/-!
# Generators

A generator turns resolved classes into modules of one target language. All it knows of what is on
disk is which overrides stand there.
-/

namespace WrapperGen

/-- What modules of one target language are generated from. -/
structure Generator where
  settings : Settings
  table : ClassTable
  target : Target
  /-- Whether an override stands at a path. -/
  overridden : Path → Bool

namespace Generator

def placement (g : Generator) : Placement := g.settings.placement g.target

def linker (g : Generator) : Linker :=
  ({ table := g.table
     placement := g.placement
     overridden := g.overridden
     basePath := "" } : Linker).withBasePath g.settings.layout.basePath

/-- The file a class is generated into. -/
def file (g : Generator) (r : Resolved) : Path := g.placement.generatedPath r.className r.unitPath

/-- The file in which an override of a class is looked for. -/
def overrideFile (g : Generator) (r : Resolved) : Path :=
  g.placement.overridePath r.className r.unitPath

/-- How the generated module imports its own override, if that stands. -/
def overrideImport? (g : Generator) (r : Resolved) : Option String :=
  if g.overridden (g.overrideFile r) then some (g.placement.importPath (g.file r) (g.overrideFile r))
  else none

def references (g : Generator) (r : Resolved) : Except Error References :=
  g.linker.references r (g.file r)

def referencesOf (g : Generator) (name : String) : Except Error References := do
  g.references (← g.table.resolve name)

/-- What the wrapper of a class is built from. -/
def subject (g : Generator) (r : Resolved) : Except Error Subject := do
  let references ← g.references r
  let superclass ← g.linker.superclass r (g.file r)
  return {
    resolved := r
    references
    superclass
    base := g.linker.baseReference (g.file r)
    file := g.file r
    overrideImport := g.overrideImport? r }

def wrapper (g : Generator) (r : Resolved) : Except Error Wrapper := do
  Wrapper.build g.settings g.target (← g.subject r)

/-- The generated module of a class: its file and its text. -/
def render (g : Generator) (r : Resolved) : Except Error (Path × String) := do
  let text ← (← g.wrapper r).text g.target
  return (g.file r, text)

end Generator
end WrapperGen
