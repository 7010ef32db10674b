import WrapperGen.Value

/-!
# Tables under construction

The tables of a TOML text are filled by headers and by keys with dots. How a table came about decides
who may still add to it: one that was only passed on the way to another can be opened once by a header
of its own, and one made by a dotted key takes further dotted keys only.
-/

namespace WrapperGen.Toml

/-- How a table came about. -/
inductive Origin where
  /-- On the way of a header to a table inside. -/
  | passed
  /-- On the way of a dotted key. -/
  | dotted
  /-- By a header of its own, or as the top. -/
  | opened
deriving DecidableEq, Repr

inductive Item where
  | leaf (value : Document)
  | table (origin : Origin) (fields : List (String × Item))
  /-- Tables that headers in double brackets append to, the last one first. -/
  | tables (last : List (String × Item)) (earlier : List (List (String × Item)))

abbrev Fields := List (String × Item)

/-- Change the table at the end of a path below a table, creating tables that are missing on the way.
A dotted path does not lead through a table that has a header of its own. -/
def descend (dotted : Bool) (f : Origin → Fields → Option Fields) :
    List String → Origin → Fields → Option Fields
  | [], origin, fields => f origin fields
  | key :: path, _, fields =>
    match Named.get? fields key with
    | none => do
      let origin : Origin := if dotted then .dotted else .passed
      return Named.set fields key (.table origin (← descend dotted f path origin []))
    | some (.table origin inner) =>
      if dotted ∧ origin = .opened then none
      else do return Named.set fields key (.table origin (← descend dotted f path origin inner))
    | some (.tables last earlier) => do
      return Named.set fields key (.tables (← descend dotted f path .opened last) earlier)
    | some (.leaf _) => none

/-- Add a value under a dotted key. A plain key does not reach into a table made by dotted keys, nor a
dotted one into any other table. -/
def assign (fields : Fields) (path : List String) (key : String) (value : Document) :
    Option Fields :=
  descend true (fun origin inner =>
    if (origin = .dotted) ≠ (path ≠ []) then none
    else if Named.has inner key then none
    else some (inner ++ [(key, .leaf value)])) path .opened fields

/-- A header: the way to a table, its own key, and whether it appends to a list of tables. -/
structure Header where
  path : List String
  key : String
  append : Bool
deriving DecidableEq, Repr

/-- A text read so far: all finished tables, and the table that is being filled. -/
structure Draft where
  top : Fields
  header : Option Header
  current : Fields

def Draft.start : Draft := ⟨[], none, []⟩

def Draft.finish? (d : Draft) : Option Fields :=
  match d.header with
  | none => some d.current
  | some h =>
    descend false (fun _ parent =>
      match h.append, Named.get? parent h.key with
      | true, none => some (Named.set parent h.key (.tables d.current []))
      | true, some (.tables last earlier) =>
        some (Named.set parent h.key (.tables d.current (last :: earlier)))
      | true, some _ => none
      | false, none => some (Named.set parent h.key (.table .opened d.current))
      | false, some _ => none) h.path .opened d.top

/-- Take a table that was only passed so far out of its parent, to fill it. -/
def take? (h : Header) (top : Fields) : Option (Fields × Fields) := do
  let parent ← descend false (fun _ parent =>
    match Named.get? parent h.key with
    | none => some parent
    | some (.table .passed _) => some parent
    | some _ => none) h.path .opened top
  let held := inside h.path parent
  match Named.get? held h.key with
  | some (.table _ fields) =>
    let top ← descend false (fun _ parent => some (Named.erase parent h.key)) h.path .opened parent
    return (top, fields)
  | _ => return (parent, [])
where
  inside : List String → Fields → Fields
    | [], fields => fields
    | key :: path, fields =>
      match Named.get? fields key with
      | some (.table _ inner) => inside path inner
      | some (.tables last _) => inside path last
      | _ => []

def Draft.open? (d : Draft) (h : Header) : Option Draft := do
  let top ← d.finish?
  if h.append then
    let top ← descend false (fun _ parent => some parent) h.path .opened top
    return ⟨top, some h, []⟩
  else
    let (top, current) ← take? h top
    return ⟨top, some h, current⟩

def Draft.assign? (d : Draft) (path : List String) (key : String) (value : Document) :
    Option Draft := do
  return { d with current := ← assign d.current path key value }

def sortFields (fields : List (String × Document)) : List (String × Document) :=
  fields.mergeSort fun a b => a.1 ≤ b.1

mutual

def Item.document : Item → Document
  | .leaf d => d
  | .table _ fields => .record (sortFields (documents fields))
  | .tables last earlier => .list (tableDocuments earlier [.record (sortFields (documents last))])

def documents : List (String × Item) → List (String × Document)
  | [] => []
  | (k, i) :: r => (k, i.document) :: documents r

/-- Tables, the last first, put before those after them. -/
def tableDocuments : List (List (String × Item)) → List Document → List Document
  | [], later => later
  | t :: r, later => tableDocuments r (.record (sortFields (documents t)) :: later)

end

def fieldsDocument (fields : Fields) : Document := .record (sortFields (documents fields))

end WrapperGen.Toml
