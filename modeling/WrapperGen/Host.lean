import WrapperGen.FileTree

/-!
# Hosts

A host is what a generation works on: it holds overrides and takes files. A file tree is one; the
other keeps files in memory, knows its overrides from a list, and has nothing on disk.
-/

namespace WrapperGen

/-- A step of a generation: it may change the state of its host and fail. What was changed before a
failure stays. -/
abbrev Step (σ α : Type) := ExceptT Error (StateM σ) α

class Host (σ : Type) where
  overridden : σ → Path → Bool
  /-- What is on disk, which enumeration and aggregation look at. -/
  disk : σ → FileTree
  write : Path → String → Step σ Unit
  /-- Create an empty file where none stands; answers whether it was created. -/
  ensure : Path → Step σ Bool

namespace FileTree

def commit (p : Path) : Except Fault FileTree → Step FileTree Unit
  | .ok t => set t
  | .error f => throw (.io p f)

def ensureParent (file : Path) : Step FileTree Unit := do
  let (failed, t) := (← get).makeParent file
  set t
  match failed with
  | some (dir, f) => throw (.io dir f)
  | none => pure ()

def store (p : Path) (text : String) : Step FileTree Unit := do
  ensureParent p
  commit p ((← get).write p text.toUTF8)

/-- Create an empty file where nothing stands, with all directories above it. -/
def ensureFile (p : Path) : Step FileTree Bool := do
  ensureParent p
  match (← get).create p with
  | .ok t => set t; return true
  | .error .alreadyExists => return false
  | .error f => throw (.io p f)

instance : Host FileTree where
  overridden := isFile
  disk := id
  write := store
  ensure := ensureFile

end FileTree

structure Shelf where
  overrides : List Path
  /-- The files in path order. -/
  files : List (Path × String)
deriving DecidableEq, Repr, Inhabited

namespace Shelf

/-- Put a file among others in path order. One that has its components keeps its path and takes the
new text. -/
def insert (p : Path) (text : String) : List (Path × String) → List (Path × String)
  | [] => [(p, text)]
  | (q, s) :: r =>
    if p.same q then (q, text) :: r
    else if p.le q then (p, text) :: (q, s) :: r
    else (q, s) :: insert p text r

def put (shelf : Shelf) (p : Path) (text : String) : Shelf :=
  { shelf with files := insert p text shelf.files }

def has (shelf : Shelf) (p : Path) : Bool := shelf.files.any (·.1.same p)

instance : Host Shelf where
  overridden shelf p := shelf.overrides.any p.same
  disk _ := .empty
  write p text := modify (·.put p text)
  ensure p := do
    if (← get).has p then return false
    modify (·.put p "")
    return true

end Shelf
end WrapperGen
