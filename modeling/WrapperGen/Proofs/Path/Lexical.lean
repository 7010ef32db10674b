import WrapperGen.Proofs.Path.Components

/-!
# Paths read lexically

Where a path leads as its text says, whatever stands on disk: `..` takes away the name before it. What is
appended to a path is read from where that path leads. A way that never goes up further than it has come
down stays below the place where it begins.
-/

namespace WrapperGen.Path

/-- Where a component leads from a place. At the root `..` stays, and where there is no name to take away
it is kept. -/
def enter (here : List Component) : Component → List Component
  | .root => [.root]
  | .current => here
  | .name s => here ++ [.name s]
  | .parent =>
    match here.getLast? with
    | some (.name _) => here.dropLast
    | some .root => here
    | _ => here ++ [.parent]

/-- Where a path leads as its text says. -/
def lexical (p : Path) : List Component := p.components.foldl enter []

/-- Whether a path leads to something strictly below a directory. -/
def Below (dir p : Path) : Prop :=
  ∃ names : List String, names ≠ [] ∧ p.lexical = dir.lexical ++ names.map .name

theorem foldl_enter_names (here : List Component) (names : List String) :
    (names.map .name).foldl enter here = here ++ names.map .name := by
  induction names generalizing here with
  | nil => simp
  | cons n names ih =>
    rw [List.map_cons, List.foldl_cons, ih]
    simp [enter]

theorem enter_parent_of_name (here : List Component) (name : String) :
    enter (here ++ [.name name]) .parent = here := by
  simp [enter]

theorem lexical_of_components {p root : Path} {names : List String}
    (h : p.components = root.components ++ names.map .name) :
    p.lexical = root.lexical ++ names.map .name := by
  rw [lexical, h, List.foldl_append, foldl_enter_names]
  rfl

/-- An absolute path leads to the same place from everywhere. -/
theorem foldl_enter_of_isAbsolute {p : Path} (h : p.isAbsolute = true) (here : List Component) :
    p.components.foldl enter here = p.lexical := by
  obtain ⟨first, rest, hpieces⟩ := p.exists_pieces
  have hlead : leadOf first rest = [.root] := if_pos ((isAbsolute_iff hpieces).1 h)
  rw [lexical, components_of_pieces hpieces, hlead]
  rfl

/-- The lead of a relative path leads nowhere. -/
theorem foldl_enter_of_relative {p : Path} (h : p.isAbsolute = false) (here : List Component) :
    p.components.foldl enter here = (p.pieces.filterMap Component.ofPiece?).foldl enter here := by
  obtain ⟨first, rest, hpieces⟩ := p.exists_pieces
  have hroot : ¬ (first = "" ∧ rest ≠ []) := fun hroot => by
    simp [(isAbsolute_iff hpieces).2 hroot] at h
  have hlead : (leadOf first rest).foldl enter here = here := by
    rw [leadOf, if_neg hroot]
    split <;> rfl
  rw [components_of_pieces hpieces, hpieces, List.foldl_append, hlead]

/-- What is appended to a path is read from where that path leads. -/
theorem lexical_child (p : Path) (name : String) :
    (p.child name).lexical = (⟨name⟩ : Path).components.foldl enter p.lexical := by
  by_cases habs : (⟨name⟩ : Path).isAbsolute = true
  · have hchild : p.child name = ⟨name⟩ := by simp [child, join, habs]
    rw [foldl_enter_of_isAbsolute habs, hchild]
  rw [Bool.not_eq_true] at habs
  by_cases hempty : p.text = ""
  · have hchild : p.child name = ⟨name⟩ := by simp [child, join, hempty]
    rw [hchild, lexical, lexical, components_of_text_eq_empty hempty]
    rfl
  · rw [lexical, components_child_append hempty habs, List.foldl_append,
      foldl_enter_of_relative habs]
    rfl

/-- How deep a way ends that begins so many names below a place and never leaves that place. -/
def depth? : Nat → List Component → Option Nat
  | n, [] => some n
  | n, .name _ :: way => depth? (n + 1) way
  | n, .current :: way => depth? n way
  | n + 1, .parent :: way => depth? n way
  | 0, .parent :: _ => none
  | _, .root :: _ => none

/-- A way that never leaves a place ends below it. -/
theorem exists_names_of_depth? {place : List Component} {names : List String} {way : List Component}
    {n : Nat} (h : depth? names.length way = some n) :
    ∃ below : List String, below.length = n ∧
      way.foldl enter (place ++ names.map .name) = place ++ below.map .name := by
  induction way generalizing names with
  | nil => exact ⟨names, by simpa [depth?] using h, rfl⟩
  | cons c way ih =>
    rw [List.foldl_cons]
    cases c with
    | root => simp [depth?] at h
    | current => exact ih (by simpa [depth?] using h)
    | name s =>
      have hdeeper : enter (place ++ names.map .name) (.name s) = place ++ (names ++ [s]).map .name := by
        simp [enter]
      rw [hdeeper]
      exact ih (by simpa [depth?] using h)
    | parent =>
      rcases List.eq_nil_or_concat names with rfl | ⟨above, last, rfl⟩
      · simp [depth?] at h
      · have hup : enter (place ++ (above.concat last).map .name) .parent = place ++ above.map .name := by
          simpa [← List.append_assoc] using enter_parent_of_name (place ++ above.map .name) last
        rw [hup]
        exact ih (by simpa [depth?] using h)

end WrapperGen.Path
