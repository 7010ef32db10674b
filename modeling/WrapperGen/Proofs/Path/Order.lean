import WrapperGen.Path

/-!
# The order of paths

Paths are ordered by their components, and lists of names and of components lexicographically. So what
lies below a place comes after it.
-/

namespace WrapperGen

namespace Lexicographic

variable {α : Type} [Ord α] [Std.TransOrd α]

/-- A list comes before what goes on from it. -/
theorem compare_below (l : List α) {more : List α} (h : more ≠ []) : compare l (l ++ more) = .lt := by
  induction l with
  | nil =>
    obtain ⟨n, rest, rfl⟩ := List.exists_cons_of_ne_nil h
    rfl
  | cons first l ih =>
    rw [List.cons_append, List.compare_cons_cons, ih,
      (Std.ReflCmp.compare_self : compare first first = .eq)]
    rfl

/-- Of two lists in order the second one is not on the way to the first one. -/
theorem not_prefix_of_compare {k m : List α} (h : compare k m = .lt) : ¬ m <+: k := by
  rintro ⟨more, rfl⟩
  by_cases hnil : more = []
  · simp [hnil] at h
  · have habove := compare_below m hnil
    rw [(Std.OrientedCmp.eq_swap : compare m (m ++ more) = _), h] at habove
    exact nomatch habove

end Lexicographic

/-- Components are ordered by the rank of their kind, then by name. -/
instance : Std.TransOrd Component :=
  inferInstanceAs (Std.TransCmp (compareLex (compareOn fun c : Component => c.key.1)
    (compareOn fun c : Component => c.key.2)))

instance : Std.LawfulEqOrd Component where
  eq_of_compare {x y} h := by
    have hkeys : (compare x.key.1 y.key.1).then (compare x.key.2 y.key.2) = .eq := h
    rw [Ordering.then_eq_eq] at hkeys
    have hrank := Std.LawfulEqOrd.eq_of_compare hkeys.1
    have hname := Std.LawfulEqOrd.eq_of_compare hkeys.2
    cases x <;> cases y <;> simp_all [Component.key]

namespace Path

theorem le_trans {p q r : Path} (hpq : p.le q = true) (hqr : q.le r = true) : p.le r = true :=
  Std.TransCmp.isLE_trans hpq hqr

theorem le_total (p q : Path) : (p.le q || q.le p) = true := by
  have hswap : compare q.components p.components = (compare p.components q.components).swap :=
    Std.OrientedCmp.eq_swap
  unfold le
  rw [hswap]
  cases compare p.components q.components <;> rfl

theorem components_eq_of_le {p q : Path} (hpq : p.le q = true) (hqp : q.le p = true) :
    p.components = q.components :=
  Std.LawfulEqOrd.eq_of_compare (Std.OrientedCmp.isLE_antisymm hpq hqp)

end Path
end WrapperGen
