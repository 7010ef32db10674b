import WrapperGen.Path

/-!
# Errors

Everything that can go wrong, by cause. The first four kinds concern one class, so a run reports them
and goes on; the others end it.
-/

namespace WrapperGen

/-- Why a file operation failed. -/
inductive Fault where
  | notFound
  | alreadyExists
  | notDirectory
  | isDirectory
  | nameTooLong
  /-- A path holds the null character. -/
  | nullCharacter
  | notText
  /-- The walk over a tree failed at a path. -/
  | walk (path : Path) (cause : Fault)
  | other (text : String)
deriving DecidableEq, Repr, Inhabited

namespace Fault

def message : Fault → String
  | notFound => "No such file or directory (os error 2)"
  | alreadyExists => "File exists (os error 17)"
  | notDirectory => "Not a directory (os error 20)"
  | isDirectory => "Is a directory (os error 21)"
  | nameTooLong => "File name too long (os error 36)"
  | nullCharacter => "file name contained an unexpected NUL byte"
  | notText => "stream did not contain valid UTF-8"
  | walk path cause => "IO error for operation on " ++ path.text ++ ": " ++ cause.message
  | other text => text

end Fault

/-- Why a class cannot be rendered. -/
inductive RenderFault where
  | notIdentifier (property : String)
  | noDefault (property kind target : String)
  | argumentNotProperty (argument : String)
  | argumentNoDefault (argument : String)
  /-- The template asked for something the context lacks. -/
  | template (name : String)
  | other (text : String)
deriving DecidableEq, Repr, Inhabited

namespace RenderFault

def message : RenderFault → String
  | notIdentifier p => "property name `" ++ p ++ "` is not an identifier"
  | noDefault p kind target =>
    "property `" ++ p ++ "` of type " ++ kind ++ " has no " ++ target ++ " default value"
  | argumentNotProperty a => "constructor argument `" ++ a ++ "` is not a property"
  | argumentNoDefault a => "constructor argument `" ++ a ++ "` has no python default value"
  | template name => name ++ ": a value the template prints is missing"
  | other text => text

end RenderFault

/-- Why settings or a class table cannot be used. -/
inductive SettingsFault where
  | emptyBaseClass
  | emptySourceExtension
  /-- The aggregator is not a Python file name; its quoted text is given. -/
  | aggregatorName (quoted : String)
  | nothingEnabled
  /-- The extension of a class table file is not known; its quoted text is given. -/
  | unknownFormat (quoted : String) (path : Path)
  /-- The document is not of its format, or does not fit what is read from it. -/
  | malformed
  | other (text : String)
deriving DecidableEq, Repr, Inhabited

namespace SettingsFault

def message : SettingsFault → String
  | emptyBaseClass => "layout.base_class cannot be empty"
  | emptySourceExtension => "generator.source_extension cannot be empty"
  | aggregatorName quoted => "python.aggregator must be a .py file name, got " ++ quoted
  | nothingEnabled => "at least one of javascript or python must be enabled"
  | unknownFormat quoted path =>
    "unsupported class table format " ++ quoted ++ " for " ++ path.text
  | malformed => "the document does not have the expected form"
  | other text => text

end SettingsFault

inductive Error where
  | unknownClass (name : String)
  | cycle (name : String) (chain : List String)
  | invalidReference (name reference : String)
  | render (subject : String) (fault : RenderFault)
  | settings (fault : SettingsFault)
  | io (path : Path) (fault : Fault)
deriving DecidableEq, Repr, Inhabited

namespace Error

def message : Error → String
  | unknownClass name => "unknown class: " ++ name
  | cycle name chain =>
    "superclass cycle while resolving " ++ name ++ ": " ++ " -> ".intercalate chain
  | invalidReference name reference => "invalid reference from " ++ name ++ ": " ++ reference
  | render subject fault => "template render error for " ++ subject ++ ": " ++ fault.message
  | settings fault => "configuration error: " ++ fault.message
  | io path fault => "I/O error at " ++ path.text ++ ": " ++ fault.message

/-- The number of an error's kind, which a check exits with. -/
def code : Error → Nat
  | unknownClass _ => 1
  | cycle _ _ => 2
  | invalidReference _ _ => 3
  | render _ _ => 4
  | settings _ => 5
  | io _ _ => 6

/-- Whether an error concerns one class only. -/
def isClassScoped : Error → Bool
  | unknownClass _ | cycle _ _ | invalidReference _ _ | render _ _ => true
  | settings _ | io _ _ => false

end Error

theorem bind_eq_ok_iff {ε α β : Type} {x : Except ε α} {f : α → Except ε β} {b : β} :
    x >>= f = .ok b ↔ ∃ a, x = .ok a ∧ f a = .ok b := by
  cases x with
  | error e => simp [bind, Except.bind]
  | ok a => simp [bind, Except.bind]

theorem bind_eq_error_iff {ε α β : Type} {x : Except ε α} {f : α → Except ε β} {e : ε} :
    x >>= f = .error e ↔ x = .error e ∨ ∃ a, x = .ok a ∧ f a = .error e := by
  cases x with
  | error e' => simp [bind, Except.bind]
  | ok a => simp [bind, Except.bind]

/-- Computations that agree on the elements of a list agree on the list. -/
theorem mapM_congr {ε α β : Type} {f g : α → Except ε β} {xs : List α} (h : ∀ x ∈ xs, f x = g x) :
    xs.mapM f = xs.mapM g := by
  induction xs with
  | nil => rfl
  | cons x xs ih =>
    rw [List.mapM_cons, List.mapM_cons, h x List.mem_cons_self,
      ih fun y hy => h y (List.mem_cons_of_mem x hy)]

theorem map_eq_of_mapM_eq_ok {ε α β : Type} {f : α → Except ε β} {xs : List α} {ys : List β}
    (h : xs.mapM f = .ok ys) : xs.map f = ys.map .ok := by
  induction xs generalizing ys with
  | nil =>
    obtain rfl : [] = ys := Except.ok.inj h
    rfl
  | cons x xs ih =>
    rw [List.mapM_cons] at h
    obtain ⟨y, hy, h⟩ := bind_eq_ok_iff.1 h
    obtain ⟨rest, hrest, h⟩ := bind_eq_ok_iff.1 h
    obtain rfl : y :: rest = ys := Except.ok.inj h
    rw [List.map_cons, List.map_cons, hy, ih hrest]

/-- What is seen of every result in the element it comes from is seen of the results in the list. -/
theorem map_eq_map_of_mapM_eq_ok {ε α β γ : Type} {f : α → Except ε β} {view : β → γ} {seen : α → γ}
    (hview : ∀ x y, f x = .ok y → view y = seen x) {xs : List α} {ys : List β}
    (h : xs.mapM f = .ok ys) : ys.map view = xs.map seen := by
  induction xs generalizing ys with
  | nil =>
    obtain rfl : [] = ys := Except.ok.inj h
    rfl
  | cons x xs ih =>
    rw [List.mapM_cons] at h
    obtain ⟨y, hy, h⟩ := bind_eq_ok_iff.1 h
    obtain ⟨rest, hrest, h⟩ := bind_eq_ok_iff.1 h
    obtain rfl : y :: rest = ys := Except.ok.inj h
    rw [List.map_cons, List.map_cons, hview x y hy, ih hrest]

/-- Every result for a list comes from one of its elements. -/
theorem exists_of_mapM_eq_ok {ε α β : Type} {f : α → Except ε β} {xs : List α} {ys : List β}
    (h : xs.mapM f = .ok ys) : ∀ y ∈ ys, ∃ x ∈ xs, f x = .ok y := by
  intro y hy
  have hmem : .ok y ∈ xs.map f := map_eq_of_mapM_eq_ok h ▸ List.mem_map_of_mem hy
  exact List.mem_map.1 hmem

/-- Every element of a list gives one of its results. -/
theorem exists_mem_of_mapM_eq_ok {ε α β : Type} {f : α → Except ε β} {xs : List α} {ys : List β}
    (h : xs.mapM f = .ok ys) : ∀ x ∈ xs, ∃ y ∈ ys, f x = .ok y := by
  intro x hx
  have hmem : f x ∈ ys.map .ok := map_eq_of_mapM_eq_ok h ▸ List.mem_map_of_mem hx
  obtain ⟨y, hy, heq⟩ := List.mem_map.1 hmem
  exact ⟨y, hy, heq.symm⟩

/-- The failure of a list comes from one of its elements. -/
theorem exists_of_mapM_eq_error {ε α β : Type} {f : α → Except ε β} {xs : List α} {e : ε}
    (h : xs.mapM f = .error e) : ∃ x ∈ xs, f x = .error e := by
  induction xs with
  | nil => exact nomatch h
  | cons x xs ih =>
    rw [List.mapM_cons] at h
    rcases bind_eq_error_iff.1 h with hx | ⟨y, -, h⟩
    · exact ⟨x, List.mem_cons_self, hx⟩
    · rcases bind_eq_error_iff.1 h with hrest | ⟨rest, -, h⟩
      · obtain ⟨w, hw, he⟩ := ih hrest
        exact ⟨w, List.mem_cons_of_mem x hw, he⟩
      · exact nomatch h

/-- The error of a computation that fails. -/
def failure? {ε α : Type} : Except ε α → Option ε
  | .ok _ => none
  | .error e => some e

theorem failure?_eq_none_iff {ε α : Type} {x : Except ε α} : failure? x = none ↔ ∃ a, x = .ok a := by
  cases x <;> simp [failure?]

theorem failure?_bind {ε α β : Type} (x : Except ε α) (f : α → Except ε β) :
    failure? (x >>= f) =
      match x with
      | .ok a => failure? (f a)
      | .error e => some e := by
  cases x <;> rfl

/-- A list fails with the first failure of its elements. -/
theorem failure?_mapM {ε α β : Type} (f : α → Except ε β) (xs : List α) :
    failure? (xs.mapM f) = (xs.filterMap fun x => failure? (f x)).head? := by
  rw [List.head?_filterMap]
  induction xs with
  | nil => rfl
  | cons x xs ih =>
    rw [List.mapM_cons, List.findSome?_cons, ← ih]
    cases f x with
    | error e => rfl
    | ok y => cases xs.mapM f <;> rfl

theorem exists_mapM_eq_ok_iff {ε α β : Type} {f : α → Except ε β} {xs : List α} :
    (∃ ys, xs.mapM f = .ok ys) ↔ ∀ x ∈ xs, ∃ y, f x = .ok y := by
  rw [← failure?_eq_none_iff, failure?_mapM, List.head?_eq_none_iff, List.filterMap_eq_nil_iff]
  exact forall₂_congr fun x _ => failure?_eq_none_iff

end WrapperGen
