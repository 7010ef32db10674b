import WrapperGen.Text.Affix

/-!
# Paths

A path is kept as its text, since answers show the text as it was put together. Its meaning is its
list of components: repeated and final separators and inner `.` do not count, a leading `.` is a
component of its own, and `..` always is one. Paths are compared by their components.
-/

namespace WrapperGen

structure Path where
  text : String
deriving DecidableEq, Repr, Inhabited

/-- One step of a path. The order of the constructors is the order in which components sort. -/
inductive Component where
  | root
  | current
  | parent
  | name (text : String)
deriving DecidableEq, Repr, Inhabited

namespace Component

def key : Component → Nat × String
  | root => (0, "")
  | current => (1, "")
  | parent => (2, "")
  | name s => (3, s)

instance : Ord Component := ⟨fun a b => compareLex (compareOn (·.key.1)) (compareOn (·.key.2)) a b⟩

def text : Component → String
  | root => "/"
  | current => "."
  | parent => ".."
  | name s => s

/-- What a piece between separators stands for inside a path. -/
def ofPiece? (piece : String) : Option Component :=
  if piece = "" ∨ piece = "." then none
  else if piece = ".." then some parent
  else some (name piece)

end Component

namespace Path

def isAbsolute (p : Path) : Bool := p.text.toList.head? = some '/'

def pieces (p : Path) : List String := Text.pieces '/' p.text

/-- What the text begins with, before its names: the root, or a leading `.`. -/
def lead? (p : Path) : Option Component :=
  match p.pieces with
  | first :: _ =>
    if p.isAbsolute then some .root else if first = "." then some .current else none
  | [] => none

def components (p : Path) : List Component := p.lead?.toList ++ p.pieces.filterMap Component.ofPiece?

def same (p q : Path) : Bool := p.components = q.components

def le (p q : Path) : Bool := (compare p.components q.components).isLE

/-- Append a path; an absolute one replaces what it is appended to. -/
def join (p q : Path) : Path :=
  if q.isAbsolute ∨ p.text = "" then q
  else if Text.endsWith "/" p.text then ⟨p.text ++ q.text⟩
  else ⟨p.text ++ "/" ++ q.text⟩

def child (p : Path) (name : String) : Path := p.join ⟨name⟩

def ofPieces (pieces : List String) : String := "/".intercalate pieces

def isVoid (piece : String) : Bool := piece = "" || piece = "."

def trimVoid (pieces : List String) : List String := (pieces.reverse.dropWhile isVoid).reverse

/-- The lead of a path as text, and the pieces after it. -/
def split (p : Path) : String × List String :=
  match p.lead? with
  | some .root => ("/", p.pieces.drop 1)
  | some _ => (".", "" :: p.pieces.drop 1)
  | none => ("", p.pieces)

/-- The path without its last component. A path without components, and the root, have no parent. -/
def parent? (p : Path) : Option Path :=
  let (lead, pieces) := p.split
  match trimVoid pieces with
  | [] => if lead = "." then some ⟨""⟩ else none
  | kept => some ⟨lead ++ ofPieces (trimVoid kept.dropLast)⟩

def fileName? (p : Path) : Option String :=
  match p.components.getLast? with
  | some (.name s) => some s
  | _ => none

def withFileName (p : Path) (name : String) : Path :=
  match p.fileName? with
  | some _ => (p.parent?.getD ⟨""⟩).child name
  | none => p.child name

/-- What follows the last dot of the last name. A dot that begins the name does not count. -/
def extension? (p : Path) : Option String :=
  match p.fileName? with
  | none => none
  | some name =>
    match (Text.pieces '.' name).reverse with
    | last :: rest => if rest = [] ∨ rest = [""] then none else some last
    | [] => none

def below? (base p : Path) : Option (List Component) :=
  let b := base.components
  if b.isPrefixOf p.components then some (p.components.drop b.length) else none

/-- A path and the paths above it, nearest first, down to the empty text or the root. -/
def ancestors (p : Path) : List Path := go (p.pieces.length + 1) p
where
  /-- At most `n` paths; every parent has fewer pieces. -/
  go : Nat → Path → List Path
  | 0, _ => []
  | n + 1, p => p :: match p.parent? with
    | some q => go n q
    | none => []

end Path
end WrapperGen
