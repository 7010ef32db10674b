import Mathlib.Data.List.DropRight
import WrapperGen.SourceUnit

/-!
# Filters by path

A filter prefix is trimmed at both ends and then compared with a path segment by segment, although the
comparison runs over characters. A segment counts whole, and a prefix of which nothing is left covers every
path.
-/

namespace WrapperGen

namespace SourceUnit

/-- How a filter prefix writes that it starts here. -/
def here : List Char := ['.', '/']

/-- A filter prefix is trimmed when all its beginnings `./` are dropped, and then all separators at its end. -/
def Trims (filter core : List Char) : Prop :=
  ∃ beginnings ends : Nat,
    filter = (List.replicate beginnings here).flatten ++ (core ++ List.replicate ends '/') ∧
      ¬ here <+: core ++ List.replicate ends '/' ∧ core.getLast? ≠ some '/'

/-- A filter prefix covers a path if nothing is left of it when trimmed, or if its segments begin those of the
path. -/
def Covers (filter path : String) : Prop :=
  ∃ core : String, Trims filter.toList core.toList ∧
    (core = "" ∨ Text.pieces '/' core <+: Text.pieces '/' path)

theorem dropHere_here_append (cs : List Char) : dropHere (here ++ cs) = dropHere cs := rfl

theorem dropHere_eq_self {cs : List Char} (h : ¬ here <+: cs) : dropHere cs = cs := by
  fun_cases dropHere cs with
  | case1 rest => exact absurd (List.prefix_append here rest) h
  | case2 => rfl

theorem dropHere_beginnings (n : Nat) (cs : List Char) :
    dropHere ((List.replicate n here).flatten ++ cs) = dropHere cs := by
  induction n with
  | zero => rfl
  | succ n ih =>
    rw [List.replicate_succ, List.flatten_cons, List.append_assoc, dropHere_here_append, ih]

/-- Dropping takes away beginnings `./` until none is left. -/
theorem exists_beginnings (cs : List Char) :
    ∃ n, cs = (List.replicate n here).flatten ++ dropHere cs ∧ ¬ here <+: dropHere cs := by
  fun_induction dropHere cs with
  | case1 rest ih =>
    obtain ⟨n, hrest, hstop⟩ := ih
    refine ⟨n + 1, ?_, hstop⟩
    rw [List.replicate_succ, List.flatten_cons, List.append_assoc, ← hrest]
    rfl
  | case2 cs hother =>
    refine ⟨0, by simp, ?_⟩
    rintro ⟨rest, rfl⟩
    exact hother rest rfl

theorem bare_eq (filter : List Char) : bare filter = (dropHere filter).rdropWhile (· = '/') := rfl

theorem rdropWhile_ends {core : List Char} (h : core.getLast? ≠ some '/') (n : Nat) :
    (core ++ List.replicate n '/').rdropWhile (· = '/') = core := by
  induction n with
  | zero =>
    rw [List.replicate_zero, List.append_nil, List.rdropWhile_eq_self_iff]
    intro hne hlast
    exact h (List.getLast?_eq_some_getLast hne ▸ congrArg some (of_decide_eq_true hlast))
  | succ n ih =>
    rw [List.replicate_succ', ← List.append_assoc, List.rdropWhile_concat_pos _ _ _ (by simp), ih]

/-- Dropping takes away separators at the end until none is left. -/
theorem exists_ends (cs : List Char) :
    ∃ n, cs = cs.rdropWhile (· = '/') ++ List.replicate n '/' ∧
      (cs.rdropWhile (· = '/')).getLast? ≠ some '/' := by
  have hends : cs.rtakeWhile (· = '/') = List.replicate (cs.rtakeWhile (· = '/')).length '/' :=
    List.eq_replicate_of_mem fun _ hc => by simpa using List.mem_rtakeWhile_imp hc
  refine ⟨(cs.rtakeWhile (· = '/')).length, ?_, ?_⟩
  · rw [← hends, List.rdropWhile_append_rtakeWhile]
  · intro hlast
    obtain ⟨before, hbefore⟩ := List.getLast?_eq_some_iff.1 hlast
    have hne : cs.rdropWhile (· = '/') ≠ [] := by simp [hbefore]
    refine List.rdropWhile_last_not _ cs hne ?_
    simp [hbefore]

/-- Trimming has one result, which is what filters are compared by. -/
theorem trims_iff {filter core : List Char} : Trims filter core ↔ core = bare filter := by
  constructor
  · rintro ⟨beginnings, ends, rfl, hstop, hlast⟩
    rw [bare_eq, dropHere_beginnings, dropHere_eq_self hstop, rdropWhile_ends hlast]
  · rintro rfl
    obtain ⟨beginnings, hfilter, hstop⟩ := exists_beginnings filter
    obtain ⟨ends, hdropped, hlast⟩ := exists_ends (dropHere filter)
    refine ⟨beginnings, ends, ?_, ?_, hlast⟩
    · rw [bare_eq, ← hdropped, ← hfilter]
    · rwa [bare_eq, ← hdropped]

/-- What follows a prefix in a path is nothing or begins with a separator. -/
theorem covers_eq_true_iff {filter path : String} :
    covers filter path = true ↔ bare filter.toList = [] ∨ path.toList = bare filter.toList ∨
      ∃ rest, path.toList = bare filter.toList ++ '/' :: rest := by
  unfold covers
  split
  · next hnil => simp [hnil]
  · next hne =>
    have hne : bare filter.toList ≠ [] := hne
    simp only [hne, false_or]
    split
    · next hrest => simp [(Text.dropPrefix?_eq_some_iff _ _ _).1 hrest]
    · next c rest hrest => simp [(Text.dropPrefix?_eq_some_iff _ _ _).1 hrest]
    · next hnone =>
      simp only [Option.eq_none_iff_forall_ne_some, ne_eq, Text.dropPrefix?_eq_some_iff] at hnone
      refine iff_of_false nofun ?_
      rintro (hsame | ⟨rest, hrest⟩)
      · exact hnone [] (by simpa using hsame)
      · exact hnone _ hrest

theorem covers_iff {filter path : String} : covers filter path = true ↔ Covers filter path := by
  have hcore : ∀ core : String, Trims filter.toList core.toList ↔ core = String.ofList (bare filter.toList) := by
    intro core
    rw [trims_iff, ← String.toList_inj, String.toList_ofList]
  rw [covers_eq_true_iff, ← Text.splitOn_prefix_iff]
  simp only [Covers, hcore, exists_eq_left, Text.pieces, String.toList_ofList,
    String.ofList_eq_empty_iff, List.prefix_map_iff_of_injective fun _ _ => String.ofList_injective]

/-- A path is kept exactly if some prefix to include covers it, or there is none to include, and no prefix to
exclude covers it. -/
theorem isSelected_iff (path : String) (included excluded : List String) :
    isSelected path included excluded = true ↔
      (included = [] ∨ ∃ filter ∈ included, Covers filter path) ∧
        ¬ ∃ filter ∈ excluded, Covers filter path := by
  simp only [isSelected, Bool.and_eq_true, Bool.or_eq_true, List.isEmpty_iff, List.any_eq_true,
    Bool.not_eq_true', covers_iff, ← Bool.not_eq_true]

/-- Only the separators at the end of a prefix are dropped, and an empty segment counts like any other. -/
example : isSelected "core//math" ["././core/"] ["core/math", "cor"] = true := by decide

end SourceUnit
end WrapperGen
