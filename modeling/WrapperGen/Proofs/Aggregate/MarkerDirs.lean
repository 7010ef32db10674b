import WrapperGen.Aggregate.Package
import WrapperGen.Proofs.Path.Components
import WrapperGen.Proofs.Path.Order

/-!
# Directories that have to be packages

From the output root down to the directory of a file every directory is listed, and directories are told
apart by their components. So what is listed is closed upwards as far as the root, whatever the root is and
however it is written. The list is in component order: a directory comes before those in it.
-/

namespace WrapperGen

open Entries (isName)

namespace Path

theorem components_eq_nil_iff {p : Path} : p.components = [] ↔ p.text = "" := by
  refine ⟨fun h => ?_, components_of_text_eq_empty⟩
  obtain ⟨first, rest, hpieces⟩ := p.exists_pieces
  rw [components_of_pieces hpieces, List.append_eq_nil_iff, List.filterMap_eq_nil_iff] at h
  obtain ⟨hlead, hvoid⟩ := h
  have hfirst := Component.ofPiece?_eq_none_iff.1 (hvoid first List.mem_cons_self)
  -- A piece that stands for nothing is empty or a dot, and a dot that comes first counts.
  by_cases hdot : first = "."
  · simp [leadOf, hdot] at hlead
  have hempty : first = "" := by simpa [isVoid, hdot] using hfirst
  by_cases hrest : rest = []
  · have htext := Text.intercalate_pieces sep_toList p.text
    rw [show Text.pieces '/' p.text = first :: rest from hpieces, hempty, hrest] at htext
    simpa using htext.symm
  · simp [leadOf, hempty, hrest] at hlead

/-- After another component there are only names and steps up. -/
theorem component_cases {p : Path} {above below : List Component} {c : Component}
    (h : p.components = above ++ c :: below) (hne : above ≠ []) :
    c = .parent ∨ ∃ s, isName s = true ∧ c = .name s := by
  obtain ⟨first, rest, hpieces⟩ := p.exists_pieces
  rw [components_of_pieces hpieces] at h
  -- Only the first component can be a lead.
  have hmem : c ∈ (first :: rest).filterMap Component.ofPiece? := by
    obtain ⟨lead, more, rfl⟩ := List.exists_cons_of_ne_nil hne
    have hrest : ∀ e, [e] ++ (first :: rest).filterMap Component.ofPiece? = lead :: more ++ c :: below →
        c ∈ (first :: rest).filterMap Component.ofPiece? := by
      intro e h
      have htail : (first :: rest).filterMap Component.ofPiece? = more ++ c :: below :=
        (List.cons.inj h).2
      exact htail ▸ List.mem_append_right _ List.mem_cons_self
    unfold leadOf at h
    split at h
    · exact hrest _ h
    · split at h
      · exact hrest _ h
      · rw [List.nil_append] at h
        exact h ▸ List.mem_append_right _ List.mem_cons_self
  obtain ⟨piece, -, hpiece⟩ := List.mem_filterMap.1 hmem
  unfold Component.ofPiece? at hpiece
  split at hpiece
  · cases hpiece
  · split at hpiece
    · exact .inl (Option.some.inj hpiece).symm
    · obtain rfl := Option.some.inj hpiece
      rw [← components_of_pieces hpieces] at h
      exact .inr ⟨piece, isName_of_mem_components (p := p) (h ▸ by simp), rfl⟩

/-- Appending the next component of a longer path appends that component. -/
theorem components_child_of_components {p q : Path} {c : Component} {below : List Component}
    (h : q.components = p.components ++ c :: below) :
    (p.child c.text).components = p.components ++ [c] := by
  by_cases htext : p.text = ""
  · have hchild : p.child c.text = ⟨c.text⟩ := by simp [child, join, htext]
    rw [hchild, components_of_text_eq_empty htext]
    cases c with
    | root => decide
    | current => decide
    | parent => decide
    | name s =>
      have hmem : .name s ∈ q.components := h ▸ List.mem_append_right _ List.mem_cons_self
      exact components_of_isName (isName_of_mem_components hmem)
  · have hne : p.components ≠ [] := fun hnil => htext (components_eq_nil_iff.1 hnil)
    rcases component_cases h hne with rfl | ⟨s, hs, rfl⟩
    · exact components_child_append htext (by decide : (⟨".."⟩ : Path).isAbsolute = false)
    · exact components_child p hs

end Path

namespace Aggregate

variable {p : Placement} {files dirs : List Path} {d file : Path} {l cs : List Component}

/-- A chain of directories has those between its ends. -/
theorem exists_mem_chain_iff (h : file.components = d.components ++ cs) :
    (∃ m ∈ chain d cs, m.components = l) ↔ d.components <+: l ∧ l <+: file.components := by
  induction cs generalizing d with
  | nil =>
    rw [List.append_nil] at h
    rw [chain, h]
    simp only [List.mem_singleton, exists_eq_left]
    exact ⟨fun hl => hl ▸ ⟨List.prefix_refl _, List.prefix_refl _⟩,
      fun ⟨hbelow, habove⟩ => hbelow.eq_of_length_le habove.length_le⟩
  | cons c cs ih =>
    have hnext := Path.components_child_of_components h
    have hrest := ih (d := d.child c.text) (by rw [hnext, h, List.append_assoc]; rfl)
    simp only [chain, List.mem_cons, exists_eq_or_imp]
    rw [hrest, hnext]
    constructor
    · rintro (rfl | ⟨hbelow, habove⟩)
      · exact ⟨List.prefix_refl _, h ▸ List.prefix_append _ _⟩
      · exact ⟨(List.prefix_append _ _).trans hbelow, habove⟩
    · rintro ⟨⟨more, rfl⟩, habove⟩
      cases more with
      | nil => exact .inl (by simp)
      | cons e more =>
        have hmore : e :: more <+: c :: cs := by rwa [h, List.prefix_append_right_inj] at habove
        obtain ⟨rfl, -⟩ := List.cons_prefix_cons.1 hmore
        exact .inr ⟨⟨more, by simp⟩, habove⟩

theorem exists_mem_markerChain_iff : (∃ m ∈ markerChain p file, m.components = l) ↔
    ∃ dir, file.parent? = some dir ∧ p.root.components <+: l ∧ l <+: dir.components := by
  unfold markerChain
  cases file.parent? with
  | none => simp
  | some dir =>
    simp only [Option.some.injEq, exists_eq_left', Path.below?]
    by_cases hbelow : p.root.components <+: dir.components
    · obtain ⟨cs, hcs⟩ := hbelow
      rw [if_pos (List.isPrefixOf_iff_prefix.2 ⟨cs, hcs⟩)]
      dsimp only
      exact exists_mem_chain_iff (by rw [← hcs, List.drop_left])
    · rw [if_neg (fun h => hbelow (List.isPrefixOf_iff_prefix.1 h))]
      simp only [List.not_mem_nil, false_and, exists_false, false_iff]
      exact fun ⟨hroot, hdir⟩ => hbelow (hroot.trans hdir)

theorem mem_insertPath {q : Path} (h : q ∈ insertPath d dirs) : q = d ∨ q ∈ dirs := by
  induction dirs with
  | nil => exact .inl (List.mem_singleton.1 h)
  | cons e dirs ih =>
    unfold insertPath at h
    split at h
    · exact .inr h
    · split at h
      · exact List.mem_cons.1 h
      · rcases List.mem_cons.1 h with rfl | h
        · exact .inr List.mem_cons_self
        · exact (ih h).imp_right (List.mem_cons_of_mem e)

/-- By their components, the paths of a list in which a path is inserted are that one and those of the list. -/
theorem exists_mem_insertPath_iff : (∃ m ∈ insertPath d dirs, m.components = l) ↔
    d.components = l ∨ ∃ m ∈ dirs, m.components = l := by
  induction dirs with
  | nil => simp [insertPath]
  | cons e dirs ih =>
    unfold insertPath
    split
    · next hsame =>
      have hsame : d.components = e.components := by simpa [Path.same] using hsame
      simp [hsame]
    · split
      · simp
      · simp only [List.mem_cons, exists_eq_or_imp, ih]
        exact or_left_comm

/-- Directories in strict component order. -/
def Ascending (dirs : List Path) : Prop :=
  dirs.Pairwise fun d e => compare d.components e.components = .lt

theorem ascending_insertPath (h : Ascending dirs) : Ascending (insertPath d dirs) := by
  induction dirs with
  | nil => exact List.pairwise_singleton _ _
  | cons e dirs ih =>
    obtain ⟨hfirst, hrest⟩ := List.pairwise_cons.1 h
    unfold insertPath
    split
    · exact h
    · next hsame =>
      have hne : compare d.components e.components ≠ .eq := fun heq =>
        hsame (by simp [Path.same, Std.LawfulEqOrd.eq_of_compare heq])
      split
      · next hle =>
        have hlt : compare d.components e.components = .lt := by
          unfold Path.le at hle
          cases hcompare : compare d.components e.components <;> simp_all
        refine List.pairwise_cons.2 ⟨fun q hq => ?_, h⟩
        rcases List.mem_cons.1 hq with rfl | hq
        · exact hlt
        · exact Std.TransCmp.lt_trans hlt (hfirst q hq)
      · next hle =>
        have hgt : compare e.components d.components = .lt := by
          unfold Path.le at hle
          rw [(Std.OrientedCmp.eq_swap : compare e.components d.components = _)]
          cases hcompare : compare d.components e.components <;> simp_all
        refine List.pairwise_cons.2 ⟨fun q hq => ?_, ih hrest⟩
        rcases mem_insertPath hq with rfl | hq
        · exact hgt
        · exact hfirst q hq

theorem ascending_markerDirs (p : Placement) (files : List Path) : Ascending (markerDirs p files) := by
  have hfold : ∀ ds dirs : List Path, Ascending dirs →
      Ascending (ds.foldl (fun dirs d => insertPath d dirs) dirs) := by
    intro ds
    induction ds with
    | nil => exact fun _ h => h
    | cons d ds ih => exact fun dirs h => ih _ (ascending_insertPath h)
  exact hfold _ [] .nil

theorem exists_file_of_mem_markerDirs (h : d ∈ markerDirs p files) :
    ∃ file ∈ files, d ∈ markerChain p file := by
  have hfold : ∀ ds dirs : List Path, d ∈ ds.foldl (fun dirs d => insertPath d dirs) dirs →
      d ∈ dirs ∨ d ∈ ds := by
    intro ds
    induction ds with
    | nil => exact fun _ h => .inl h
    | cons e ds ih =>
      intro dirs h
      rcases ih _ h with h | h
      · rcases mem_insertPath h with rfl | h
        · exact .inr List.mem_cons_self
        · exact .inl h
      · exact .inr (List.mem_cons_of_mem e h)
  exact List.mem_flatMap.1 ((hfold _ [] h).resolve_left List.not_mem_nil)

/-- The directories between the output root and the directories of the files below it. -/
theorem exists_mem_markerDirs_iff : (∃ m ∈ markerDirs p files, m.components = l) ↔
    ∃ file ∈ files, ∃ dir, file.parent? = some dir ∧
      p.root.components <+: l ∧ l <+: dir.components := by
  have hfold : ∀ ds dirs : List Path,
      (∃ m ∈ ds.foldl (fun dirs d => insertPath d dirs) dirs, m.components = l) ↔
        (∃ m ∈ dirs, m.components = l) ∨ ∃ m ∈ ds, m.components = l := by
    intro ds
    induction ds with
    | nil => simp
    | cons d ds ih =>
      intro dirs
      rw [List.foldl_cons, ih, exists_mem_insertPath_iff]
      simp only [List.mem_cons, exists_eq_or_imp]
      rw [or_assoc, or_left_comm]
  rw [markerDirs, hfold]
  simp only [List.not_mem_nil, false_and, exists_false, false_or, List.mem_flatMap]
  rw [← exists_congr fun file => and_congr_right fun _ => exists_mem_markerChain_iff]
  constructor
  · rintro ⟨m, ⟨file, hfile, hm⟩, hl⟩
    exact ⟨file, hfile, m, hm, hl⟩
  · rintro ⟨file, hfile, m, hm, hl⟩
    exact ⟨m, ⟨file, hfile, hm⟩, hl⟩

end Aggregate
end WrapperGen
