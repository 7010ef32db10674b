/-!
# Sorted names

Sets of names as lists in byte order without repetition.
-/

namespace WrapperGen.Names

/-- Insert a name into a sorted list, unless it is there. -/
def insert (name : String) : List String → List String
  | [] => [name]
  | n :: r => if name < n then name :: n :: r else if name = n then n :: r else n :: insert name r

/-- The names of a list, sorted. -/
def sorted (names : List String) : List String := names.foldl (fun s n => insert n s) []

/-- Add all names of a list to a sorted one. -/
def union (s names : List String) : List String := names.foldl (fun s n => insert n s) s

theorem mem_insert (name x : String) (s : List String) : x ∈ insert name s ↔ x = name ∨ x ∈ s := by
  induction s with
  | nil => simp [insert]
  | cons n r ih =>
    unfold insert
    split
    · simp
    · split
      · next h => simp [h]
      · simp only [List.mem_cons, ih]
        constructor
        · rintro (h | h | h) <;> simp [h]
        · rintro (h | h | h) <;> simp [h]

theorem mem_union (x : String) (s names : List String) : x ∈ union s names ↔ x ∈ s ∨ x ∈ names := by
  unfold union
  induction names generalizing s with
  | nil => simp
  | cons n r ih =>
    rw [List.foldl_cons, ih, mem_insert, List.mem_cons]
    constructor
    · rintro ((h | h) | h) <;> simp [h]
    · rintro (h | h | h) <;> simp [h]

theorem mem_sorted (x : String) (names : List String) : x ∈ sorted names ↔ x ∈ names := by
  simpa [union, sorted] using mem_union x [] names

end WrapperGen.Names
