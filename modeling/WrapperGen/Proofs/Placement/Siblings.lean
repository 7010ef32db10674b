import WrapperGen.Proofs.Aggregate.Listing
import WrapperGen.Proofs.Placement.Containment
import WrapperGen.Proofs.Wrapper.Bindings

/-!
# Generated files and their overrides

Linking asks for the override of a class by its name and its unit path, and aggregation by the generated
file alone. Both look in the same place, whatever the class is called: the endings of the two files have no
separator in them, so the files lie side by side, and only their last names differ.
-/

namespace WrapperGen

namespace Path

theorem isAbsolute_append (s : String) {ending : String} (h : '/' ∉ ending.toList) :
    (⟨s ++ ending⟩ : Path).isAbsolute = (⟨s⟩ : Path).isAbsolute := by
  unfold isAbsolute
  rw [String.toList_append]
  cases s.toList with
  | nil =>
    cases hchars : ending.toList with
    | nil => rfl
    | cons c cs =>
      have hc : c ≠ '/' := fun hc => h (by simp [hchars, hc])
      simp [hc]
  | cons c cs => rfl

end Path

namespace Placement

/-- Files whose names differ in their endings only lie in one directory. -/
theorem exists_components_child (dir : Path) (className : String) :
    ∃ above, ∀ ending : String, '/' ∉ ending.toList → (∃ c ∈ ending.toList, c ≠ '.') →
      (dir.child (className ++ ending)).components =
        above ++ [.name (Text.lastPiece '/' className ++ ending)] := by
  by_cases hreplaced : (⟨className⟩ : Path).isAbsolute = true ∨ dir.text = ""
  · -- The name stands alone, so the directory is the one that it leads through.
    refine ⟨wayOf className, fun ending hslash hplain => ?_⟩
    have halone : dir.child (className ++ ending) = ⟨className ++ ending⟩ := by
      rw [Path.child, Path.join, Path.isAbsolute_append className hslash, if_pos hreplaced]
    rw [halone, components_file className hslash hplain]
  · rw [not_or, Bool.not_eq_true] at hreplaced
    refine ⟨dir.components ++ (Text.pieces '/' className).dropLast.filterMap Component.ofPiece?,
      fun ending hslash hplain => ?_⟩
    have hrelative : (⟨className ++ ending⟩ : Path).isAbsolute = false := by
      rw [Path.isAbsolute_append className hslash]
      exact hreplaced.1
    rw [Path.components_child_append hreplaced.2 hrelative,
      Text.pieces_append_ending className hslash, List.filterMap_append, List.append_assoc]
    simp [Component.ofPiece?_of_isName (isName_file className hslash hplain)]

theorem exists_plain_moduleExtension (target : Target) : ∃ c ∈ target.moduleExtension.toList, c ≠ '.' := by
  cases target
  · exact ⟨'j', by decide⟩
  · exact ⟨'p', by decide⟩

theorem exists_plain_generatedSuffix (target : Target) : ∃ c ∈ target.generatedSuffix.toList, c ≠ '.' := by
  cases target <;> exact ⟨'a', by decide⟩

/-- The generated file of a class and its override have one directory and one stem. -/
theorem exists_components_both (p : Placement) (className unitPath : String) :
    ∃ above, (p.generatedPath className unitPath).components =
        above ++ [.name (Text.lastPiece '/' className ++ p.target.generatedSuffix)] ∧
      (p.overridePath className unitPath).components =
        above ++ [.name (Text.lastPiece '/' className ++ p.target.moduleExtension)] := by
  obtain ⟨above, habove⟩ := exists_components_child (p.classDir unitPath) className
  refine ⟨above, habove _ ?_ (exists_plain_generatedSuffix p.target),
    habove _ ?_ (exists_plain_moduleExtension p.target)⟩ <;> cases p.target <;> decide

theorem isName_override_file (p : Placement) (className : String) :
    Entries.isName (Text.lastPiece '/' className ++ p.target.moduleExtension) = true := by
  refine isName_file className ?_ (exists_plain_moduleExtension p.target)
  cases p.target <;> decide

/-- The file of a class, whatever it is called, is named like a generated one, and the override that would
take over from that file is the one in which an override of the class is looked for. Two classes whose names
have no separator are generated into one file exactly if their unit paths have the same directories and
their names are the same. -/
theorem override_told_by_generated (p : Placement) (className unitPath : String) :
    (∃ name, (p.generatedPath className unitPath).fileName? = some name ∧ p.isGenerated name = true) ∧
    (∃ file, p.overrideFor? (p.generatedPath className unitPath) = some file ∧
      file.same (p.overridePath className unitPath) = true) ∧
    ('/' ∉ className.toList → ∀ other otherPath, '/' ∉ other.toList →
      ((p.generatedPath className unitPath).same (p.generatedPath other otherPath) = true ↔
        UnitPath.dirs unitPath = UnitPath.dirs otherPath ∧ className = other)) := by
  obtain ⟨above, hgenerated, hoverride⟩ := exists_components_both p className unitPath
  refine ⟨⟨_, Path.fileName?_of_components hgenerated, ?_⟩, ⟨_, overrideFor?_of_components hgenerated, ?_⟩, ?_⟩
  · exact Text.endsWith_iff.2 ⟨_, rfl⟩
  · rw [Path.same, decide_eq_true_eq, hoverride,
      Path.withFileName_components hgenerated (isName_override_file p className)]
  · intro hslash other otherPath hother
    exact same_generatedPath_iff hslash hother unitPath otherPath

/-- A class whose name leads up, and two at one unit path that are named alike but for the suffix. -/
theorem override_told_by_generated_rim :
    let p : Placement := ⟨.python, ⟨".//out/"⟩⟩
    (∃ file, p.overrideFor? (p.generatedPath "..//Rim" "a/Ring") = some file ∧
      file.same (p.overridePath "..//Rim" "a/Ring") = true) ∧
    p.overridePath "..//Rim" "a/Ring" = ⟨".//out/a/..//Rim.py"⟩ ∧
    '/' ∉ "Ring".toList ∧ '/' ∉ "Ring_autogen".toList ∧
    ¬ (p.generatedPath "Ring" "a/Ring").same (p.generatedPath "Ring_autogen" "a/Ring") = true := by
  intro p
  obtain ⟨-, -, hdistinct⟩ := override_told_by_generated p "Ring" "a/Ring"
  refine ⟨(override_told_by_generated p "..//Rim" "a/Ring").2.1, by decide +kernel, by decide, by decide,
    fun hsame => ?_⟩
  exact absurd ((hdistinct (by decide) _ _ (by decide)).1 hsame).2 (by decide)

end Placement
end WrapperGen
