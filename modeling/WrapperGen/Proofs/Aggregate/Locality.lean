import WrapperGen.Proofs.Aggregate.Relisting
import WrapperGen.Proofs.FileTree.Aims

/-!
# Listings are local

What is planned for an output tree depends on what stands below its root, as soon as it is settled where
the root leads.
-/

namespace WrapperGen

namespace FileTree

variable {b c : FileTree} {l : Location}

theorem Agree.below_eq (h : Agree l b c) : b.below l = c.below l := by
  have hsome : (b.below l).filterMap some = (c.below l).filterMap some :=
    filterMap_below_eq fun names _ => by rw [h names]
  simpa only [List.filterMap_some] using hsome

theorem Agree.children_eq (h : Agree l b c) (names : List String) :
    b.children (l ++ names) = c.children (l ++ names) := by
  have hsome : (b.children (l ++ names)).filterMap some = (c.children (l ++ names)).filterMap some :=
    filterMap_children_eq fun name => by rw [List.append_assoc, h (names ++ [name])]
  simpa only [List.filterMap_some] using hsome

theorem Agree.walk_eq (h : Agree l b c) {start : Path} (hb : b.locate start = .ok l)
    (hc : c.locate start = .ok l) (keep : List String → Entry → Bool) :
    b.walk start keep = c.walk start keep := by
  unfold walk
  rw [hb, hc]
  dsimp only
  rw [h.below_eq, h.entry?_eq]

end FileTree

namespace Aggregate

open FileTree (Keeps Agree)

variable {p : Placement} {a b c : FileTree} {R : Location}
  (haim : a.aim? p.root = some R) (hb : Keeps a b) (hc : Keeps a c) (h : Agree R b c)

include haim hb hc h

/-- An output root leads to the same place in both trees or to no directory in either. -/
theorem root_cases : (b.isDir p.root = true ∧ c.isDir p.root = true ∧ b.locate p.root = .ok R ∧
    c.locate p.root = .ok R) ∨ (¬ b.isDir p.root = true ∧ ¬ c.isDir p.root = true) := by
  have hlocate : ∀ t : FileTree, Keeps a t → t.isDir p.root = true →
      t.locate p.root = .ok R ∧ t.entry? R = some .dir := by
    intro t hkeeps ht
    obtain ⟨l, hl, hdir⟩ := FileTree.isDir_iff.1 ht
    obtain rfl := FileTree.eq_of_locate hkeeps.home haim hl
    exact ⟨hl, hdir⟩
  by_cases hdir : b.isDir p.root = true
  · obtain ⟨hroot, hentry⟩ := hlocate b hb hdir
    have hdir' := FileTree.isDir_of_aim hb.home haim hc (h.entry?_eq ▸ hentry) hdir
    exact .inl ⟨hdir, hdir', hroot, (hlocate c hc hdir').1⟩
  · refine .inr ⟨hdir, fun hdir' => hdir ?_⟩
    exact FileTree.isDir_of_aim hc.home haim hb (h.entry?_eq ▸ (hlocate c hc hdir').2) hdir'

theorem planIndexes_congr (r : IndexRules) : planIndexes r p b = planIndexes r p c := by
  rcases root_cases haim hb hc h with ⟨hdir, hdir', hroot, hroot'⟩ | ⟨hdir, hdir'⟩
  · have hindex : indexOf? r p b R = indexOf? r p c R := by
      funext v
      simp only [indexOf?, indexOf, h.children_eq]
    rw [planIndexes_eq_walk hdir hroot, planIndexes_eq_walk hdir' hroot', h.walk_eq hroot hroot', hindex]
  · rw [planIndexes, planIndexes, if_neg hdir, if_neg hdir']

theorem planPackage_congr (r : PackageRules) : planPackage r p b = planPackage r p c := by
  rcases root_cases haim hb hc h with ⟨hdir, hdir', hroot, hroot'⟩ | ⟨hdir, hdir'⟩
  · rw [planPackage_eq_walk hdir, planPackage_eq_walk hdir', h.walk_eq hroot hroot']
  · rw [planPackage, planPackage, if_neg hdir, if_neg hdir']

end Aggregate
end WrapperGen
