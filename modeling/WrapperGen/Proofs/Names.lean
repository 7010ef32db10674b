import Mathlib.Data.List.Sort
import Mathlib.Data.String.Basic
import WrapperGen.Text.Names

/-!
# Sorted names

Sorting makes a strictly increasing list, which is the only one with its members.
-/

namespace WrapperGen.Names

theorem pairwise_insert (name : String) {s : List String} (h : s.Pairwise (· < ·)) :
    (insert name s).Pairwise (· < ·) := by
  induction s with
  | nil => simp [insert]
  | cons n r ih =>
    obtain ⟨hfirst, hrest⟩ := List.pairwise_cons.1 h
    unfold insert
    split
    · next hlt =>
      refine List.pairwise_cons.2 ⟨fun m hm => ?_, h⟩
      rcases List.mem_cons.1 hm with rfl | hm
      · exact hlt
      · exact hlt.trans (hfirst m hm)
    · next hlt =>
      split
      · exact h
      · next hne =>
        have hgt : n < name := lt_of_le_of_ne (not_lt.1 hlt) (Ne.symm hne)
        refine List.pairwise_cons.2 ⟨fun m hm => ?_, ih hrest⟩
        rcases (mem_insert name m r).1 hm with rfl | hm
        · exact hgt
        · exact hfirst m hm

theorem pairwise_sorted (names : List String) : (sorted names).Pairwise (· < ·) := by
  have hfold : ∀ s : List String, s.Pairwise (· < ·) →
      (names.foldl (fun s n => insert n s) s).Pairwise (· < ·) := by
    induction names with
    | nil => exact fun _ h => h
    | cons n names ih => exact fun s h => ih _ (pairwise_insert n h)
  exact hfold [] .nil

/-- A selection from sorted names depends on which names are selected. -/
theorem filter_sorted_eq {xs ys : List String} {f g : String → Bool}
    (h : ∀ n, n ∈ xs ∧ f n = true ↔ n ∈ ys ∧ g n = true) :
    (sorted xs).filter f = (sorted ys).filter g := by
  refine ((pairwise_sorted xs).filter f).eq_of_mem_iff ((pairwise_sorted ys).filter g) fun n => ?_
  rw [List.mem_filter, List.mem_filter, mem_sorted, mem_sorted, h n]

theorem sorted_sorted (names : List String) : sorted (sorted names) = sorted names :=
  (pairwise_sorted _).eq_of_mem_iff (pairwise_sorted names) fun n => mem_sorted n (sorted names)

end WrapperGen.Names
