import Std.Data.ExtTreeMap
import WrapperGen.Error

/-!
# File trees

A `FileTree` is a file system as a value: what stands at each location below its top. A location is a
list of names, and locations are kept in lexicographic order, so the entries below a directory come in
the order of a walk: a directory before what it holds, names in byte order.

Operations take paths as they are written and follow them name by name, an absolute path from the
top, any other from the working directory; `..` leads to the parent of a directory that exists, and
the top is its own parent.
-/

namespace WrapperGen

/-- The names that lead from the top of a tree to an entry. -/
abbrev Location := List String

inductive Entry where
  | dir
  | file (contents : ByteArray)
deriving Inhabited

def Entry.same : Entry → Entry → Bool
  | .dir, .dir => true
  | .file a, .file b => a.data.toList = b.data.toList
  | _, _ => false

theorem Entry.same_iff (a b : Entry) : a.same b = true ↔ a = b := by
  cases a <;> cases b <;> simp [Entry.same, ByteArray.ext_iff]

instance : DecidableEq Entry := fun a b => decidable_of_iff _ (Entry.same_iff a b)

def Entry.isDir : Entry → Bool
  | .dir => true
  | .file _ => false

/-- Entries by location, in lexicographic order. -/
abbrev Entries := Std.ExtTreeMap Location Entry

namespace Entries

/-- What stands at a location; the top is a directory. -/
def at? (m : Entries) (l : Location) : Option Entry := if l = [] then some .dir else m[l]?

def isName (s : String) : Bool := s ≠ "" && s ≠ "." && s ≠ ".." && !s.toList.contains '/'

/-- Whether a location ends in a name and lies in a directory. -/
def Placed (m : Entries) (l : Location) : Prop :=
  ∃ dir name, l = dir ++ [name] ∧ isName name = true ∧ m.at? dir = some .dir

/-- Whether an entry can be put at a location: in a directory, under a name, and no file in place of
a directory. -/
def fits (m : Entries) (l : Location) (e : Entry) : Bool :=
  match l.getLast? with
  | none => false
  | some name => isName name && m.at? l.dropLast = some .dir && (e.isDir || m.at? l ≠ some .dir)

theorem at?_insert (m : Entries) (l k : Location) (e : Entry) (h : l ≠ []) :
    at? (m.insert l e) k = if l = k then some e else m.at? k := by
  unfold at?
  rw [Std.ExtTreeMap.getElem?_insert]
  by_cases hk : k = []
  · subst hk
    simp [h]
  · by_cases hl : l = k <;> simp [hk, hl]

theorem fits_iff (m : Entries) (l : Location) (e : Entry) :
    m.fits l e = true ↔ m.Placed l ∧ (m.at? l = some .dir → e = .dir) := by
  rcases List.eq_nil_or_concat l with rfl | ⟨dir, name, rfl⟩
  · simp [fits, Placed]
  rw [List.concat_eq_append]
  have hd : e.isDir = true ↔ e = .dir := by cases e <;> simp [Entry.isDir]
  have hp : m.Placed (dir ++ [name]) ↔ isName name = true ∧ m.at? dir = some .dir := by
    constructor
    · rintro ⟨d, n, h, hn, ha⟩
      obtain ⟨rfl, h⟩ := List.append_inj' h rfl
      obtain rfl : name = n := by simpa using h
      exact ⟨hn, ha⟩
    · rintro ⟨hn, ha⟩
      exact ⟨dir, name, rfl, hn, ha⟩
  rw [hp]
  simp only [fits, List.getLast?_append, List.dropLast_concat]
  by_cases ha : m.at? (dir ++ [name]) = some .dir <;> simp [ha, hd]

theorem at?_insert_dir {m : Entries} {l dir : Location} {e : Entry} (h : m.fits l e = true)
    (hd : m.at? dir = some .dir) : at? (m.insert l e) dir = some .dir := by
  obtain ⟨⟨above, name, rfl, -⟩, hdir⟩ := (fits_iff m l e).1 h
  rw [at?_insert m _ dir e (by simp)]
  split
  · next hk => rw [hdir (hk ▸ hd)]
  · exact hd

theorem placed_insert {m : Entries} (placed : ∀ k ∈ m, m.Placed k) {l : Location} {e : Entry}
    (h : m.fits l e = true) : ∀ k ∈ m.insert l e, Placed (m.insert l e) k := by
  obtain ⟨hl, -⟩ := (fits_iff m l e).1 h
  intro k hk
  have hk : m.Placed k := by
    rcases Std.ExtTreeMap.mem_insert.1 hk with hk | hk
    · have hk : l = k := by simpa using hk
      exact hk ▸ hl
    · exact placed k hk
  obtain ⟨dir, name, rfl, hn, hd⟩ := hk
  exact ⟨dir, name, rfl, hn, at?_insert_dir h hd⟩

end Entries

/-- The entries below the top of a tree, and the working directory. -/
structure FileTree where
  entries : Entries
  /-- Every entry lies in a directory, under a name. -/
  placed : ∀ l ∈ entries, entries.Placed l
  home : Location
  homed : entries.at? home = some .dir

namespace FileTree

/-- Nothing but a top to work at. -/
def empty : FileTree := ⟨∅, by simp, [], rfl⟩

instance : Inhabited FileTree := ⟨empty⟩

/-- The entry at a location; the top is a directory. -/
def entry? (t : FileTree) (l : Location) : Option Entry := t.entries.at? l

def holdsDir (t : FileTree) (l : Location) : Bool := (t.entry? l).any Entry.isDir

/-- Put an entry at a location where it fits; elsewhere the tree stays as it is. -/
def put (t : FileTree) (l : Location) (e : Entry) : FileTree :=
  if h : t.entries.fits l e then
    ⟨t.entries.insert l e, Entries.placed_insert t.placed h, t.home, Entries.at?_insert_dir h t.homed⟩
  else t

def maxName : Nat := 255

def maxPath : Nat := 4095

def refusal? (p : Path) : Option Fault :=
  if p.text.toList.contains '\x00' then some .nullCharacter
  else if p.text = "" then some .notFound
  else if maxPath < p.text.utf8ByteSize then some .nameTooLong
  else none

def follow (t : FileTree) (here : Location) (piece : String) : Except Fault Location :=
  if ¬ t.holdsDir here then .error .notDirectory
  else if Path.isVoid piece then .ok here
  else if piece = ".." then .ok here.dropLast
  else if maxName < piece.utf8ByteSize then .error .nameTooLong
  else if (t.entry? (here ++ [piece])).isSome then .ok (here ++ [piece])
  else .error .notFound

/-- Where a path begins. -/
def origin (t : FileTree) (p : Path) : Location := if p.isAbsolute then [] else t.home

def locate (t : FileTree) (p : Path) : Except Fault Location :=
  match refusal? p with
  | some f => .error f
  | none => p.pieces.foldlM t.follow (t.origin p)

def find (t : FileTree) (p : Path) : Except Fault Entry := do
  match t.entry? (← t.locate p) with
  | some e => .ok e
  | none => .error .notFound

def present (t : FileTree) (p : Path) : Bool := (t.find p).isOk

def isFile (t : FileTree) (p : Path) : Bool :=
  match t.find p with
  | .ok (.file _) => true
  | _ => false

def isDir (t : FileTree) (p : Path) : Bool :=
  match t.find p with
  | .ok .dir => true
  | _ => false

def read (t : FileTree) (p : Path) : Except Fault ByteArray := do
  match ← t.find p with
  | .file contents => .ok contents
  | .dir => .error .isDirectory

def readText (t : FileTree) (p : Path) : Except Fault String := do
  match String.fromUTF8? (← t.read p) with
  | some s => .ok s
  | none => .error .notText

/-- Where a path leads whose last name need not exist. -/
structure Spot where
  location : Location
  /-- Whether the path ends in a name, neither in dots nor at the top. -/
  named : Bool
  /-- Whether separators follow. -/
  slash : Bool
deriving DecidableEq, Repr

/-- Follow all of a path but its last name. -/
def spot (t : FileTree) (p : Path) : Except Fault Spot :=
  match refusal? p with
  | some f => .error f
  | none =>
    let kept := (p.pieces.reverse.dropWhile (· = "")).reverse
    let slash := kept.length < p.pieces.length
    match kept.getLast? with
    | none => .ok ⟨[], false, slash⟩
    | some last => do
      let dir ← kept.dropLast.foldlM t.follow (t.origin p)
      if ¬ t.holdsDir dir then .error .notDirectory
      else if last = "." ∨ last = ".." then .ok ⟨dir, false, slash⟩
      else if maxName < last.utf8ByteSize then .error .nameTooLong
      else .ok ⟨dir ++ [last], true, slash⟩

def write (t : FileTree) (p : Path) (contents : ByteArray) : Except Fault FileTree := do
  let s ← t.spot p
  if ¬ s.named ∨ s.slash ∨ t.holdsDir s.location then .error .isDirectory
  else .ok (t.put s.location (.file contents))

def create (t : FileTree) (p : Path) : Except Fault FileTree := do
  let s ← t.spot p
  if ¬ s.named then .error .alreadyExists
  else if s.slash then .error .isDirectory
  else if (t.entry? s.location).isSome then .error .alreadyExists
  else .ok (t.put s.location (.file .empty))

def makeDir (t : FileTree) (p : Path) : Except Fault FileTree := do
  let s ← t.spot p
  if ¬ s.named ∨ (t.entry? s.location).isSome then .error .alreadyExists
  else .ok (t.put s.location .dir)

/-- Accept that a directory already stands where one was to be created. -/
def settle (t : FileTree) (p : Path) : Except Fault FileTree → Option Fault × FileTree
  | .ok t' => (none, t')
  | .error f => if t.isDir p then (none, t) else (some f, t)

/-- Create the first directory of a list, after those above it that are missing. What was created
before a failure stays. -/
def makeDirs (t : FileTree) : List Path → Option Fault × FileTree
  | [] => (some (.other "failed to create whole tree"), t)
  | p :: above =>
    if p.text = "" then (none, t)
    else match t.makeDir p with
      | .error .notFound =>
        match t.makeDirs above with
        | (some f, t') => (some f, t')
        | (none, t') => t'.settle p (t'.makeDir p)
      | r => t.settle p r

/-- Create the directory a file lies in; the fault comes with that directory's path. -/
def makeParent (t : FileTree) (file : Path) : Option (Path × Fault) × FileTree :=
  match file.parent? with
  | none => (none, t)
  | some dir =>
    let (f, t') := t.makeDirs dir.ancestors
    (f.map (dir, ·), t')

/-- The entries below a location with the names that lead there from it, in walk order. -/
def below (t : FileTree) (l : Location) : List (List String × Entry) :=
  t.entries.toList.filterMap fun (k, e) =>
    if l.isPrefixOf k ∧ l ≠ k then some (k.drop l.length, e) else none

/-- The names in a directory, in byte order, and what they are. -/
def children (t : FileTree) (l : Location) : List (String × Entry) :=
  (t.below l).filterMap fun (names, e) =>
    match names with
    | [name] => some (name, e)
    | _ => none

/-- An entry met on a walk. -/
structure Visit where
  /-- The names that lead to the entry from the start of the walk. -/
  names : List String
  path : Path
  entry : Entry

/-- Walk a tree from a path. `keep names entry` decides whether an entry below the start is kept; an
entry that is not kept is not entered either, which the caller's test has to see to. -/
def walk (t : FileTree) (start : Path) (keep : List String → Entry → Bool) :
    Except Error (List Visit) :=
  match t.locate start with
  | .error f => .error (.io start (.walk start f))
  | .ok l =>
    let first := (t.entry? l).toList.map fun e => (([] : List String), e)
    let rest := (t.below l).filter fun (names, e) => keep names e
    .ok ((first ++ rest).map fun (names, e) => ⟨names, names.foldl Path.child start, e⟩)

end FileTree

/-! ### Removal

What is removed from a tree by hand between two runs. No run removes anything. -/

namespace Entries

theorem at?_filter_dir {m : Entries} {keep : Location → Bool} {dir : Location}
    (h : m.at? dir = some .dir) (hkeep : keep dir = true) :
    at? (m.filter fun k _ => keep k) dir = some .dir := by
  by_cases hdir : dir = []
  · simp [at?, hdir]
  · simp only [at?, hdir, if_false] at h ⊢
    rw [Std.ExtTreeMap.getElem?_filter', h]
    simp [hkeep]

theorem placed_filter {m : Entries} (placed : ∀ k ∈ m, m.Placed k) (keep : Location → Bool)
    (closed : ∀ dir name, keep (dir ++ [name]) = true → keep dir = true) :
    ∀ k ∈ m.filter fun k _ => keep k, Placed (m.filter fun k _ => keep k) k := by
  intro k hk
  obtain ⟨dir, name, rfl, hn, hd⟩ := placed k (Std.ExtTreeMap.mem_of_mem_filter hk)
  refine ⟨dir, name, rfl, hn, ?_⟩
  have hkept : keep (dir ++ [name]) = true := by
    have hs := Std.ExtTreeMap.mem_iff_isSome_getElem?.1 hk
    rw [Std.ExtTreeMap.getElem?_filter'] at hs
    by_cases hkeep : keep (dir ++ [name]) = true
    · exact hkeep
    · simp [hkeep] at hs
  exact at?_filter_dir hd (closed dir name hkept)

/-- Whether a location stays when all below another one goes, and that one too unless it is spared. The
way to the working directory stays in any case. -/
def stays (home l : Location) (spared : Bool) (k : Location) : Bool :=
  k.isPrefixOf home || (spared && l = k) || !l.isPrefixOf k

theorem stays_closed (home l : Location) (spared : Bool) (dir : Location) (name : String)
    (h : stays home l spared (dir ++ [name]) = true) : stays home l spared dir = true := by
  simp only [stays, Bool.or_eq_true, Bool.and_eq_true, Bool.not_eq_true', ← Bool.not_eq_true,
    decide_eq_true_eq, List.isPrefixOf_iff_prefix] at h ⊢
  have habove : dir <+: dir ++ [name] := List.prefix_append dir [name]
  rcases h with (hhome | ⟨-, rfl⟩) | hbelow
  · exact .inl (.inl (habove.trans hhome))
  · refine .inr fun hle => Nat.not_succ_le_self dir.length ?_
    simpa using hle.length_le
  · exact .inr fun hle => hbelow (hle.trans habove)

end Entries

namespace FileTree

/-- Drop all entries below a location, and what stands there unless it is spared. -/
def prune (t : FileTree) (l : Location) (spared : Bool) : FileTree :=
  ⟨t.entries.filter fun k _ => Entries.stays t.home l spared k,
    Entries.placed_filter t.placed _ (Entries.stays_closed t.home l spared), t.home,
    Entries.at?_filter_dir t.homed (by simp [Entries.stays])⟩

/-- Remove a directory that holds nothing, by a path that may lead through what was in it: where the
path no longer leads anywhere there is nothing to remove. A path that ends in dots names no entry. -/
def removeEmpty (t : FileTree) (p : Path) : Option Fault × FileTree :=
  match t.spot p with
  | .error .notFound => (none, t)
  | .error f => (some f, t)
  | .ok s =>
    if s.named then (none, t.prune s.location false)
    else (some (.other "Invalid argument (os error 22)"), t)

/-- Remove a file, or a directory with all below it. What is below a directory goes first, so it is
gone even where the directory itself stays. -/
def remove (t : FileTree) (p : Path) : Option Fault × FileTree :=
  match t.locate p with
  | .error f => (some f, t)
  | .ok l => if t.holdsDir l then (t.prune l true).removeEmpty p else (none, t.prune l false)

end FileTree
end WrapperGen
