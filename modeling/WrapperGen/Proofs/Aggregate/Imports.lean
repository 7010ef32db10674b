import WrapperGen.Proofs.Aggregate.Precedence
import WrapperGen.Proofs.Template.Lines

/-!
# What the aggregator says

The aggregator is a head and one line for every module it imports.
-/

namespace WrapperGen

namespace Aggregate

open Template (Writes tag tag?)

/-- How the aggregator begins. -/
def packageHead : List String := ["#", "# This file auto-generated with classgen " ++ version, "#", ""]

/-- The line that imports a module. -/
def importLine (module : String) : String := "from " ++ module ++ " import *"

theorem importLine_injective {m m' : String} (h : importLine m = importLine m') : m = m' := by
  simpa [importLine, String.append_left_inj, String.append_right_inj] using h

/-- The version is written as it is. -/
theorem writes_version {context : Value} {before : String} (hne : before ≠ "")
    (hbefore : '\x7b' ∉ before.toList) (hfind : Template.find context ["version"] = .value (.text version)) :
    Writes context [before ++ tag "version"] [before ++ version] := by
  have htag : tag? "version".toList = some (.print ["version"]) := by decide +kernel
  have hline : Writes context [before ++ tag "version" ++ ""] [before ++ version ++ ""] :=
    .print hne hbefore (by decide) (by decide) htag hfind
  rwa [String.append_empty, String.append_empty] at hline

/-- What the aggregator is filled from. -/
def packageContext (modules : List String) : Value :=
  .record [("version", .text version), ("modules", .ofTexts modules)]

theorem packageText_eq (aggregator : String) (modules : List String) :
    packageText aggregator modules = .ok (Text.ofLines (packageHead ++ modules.map importLine)) := by
  have hversion : Writes (packageContext modules)
      ["# This file auto-generated with classgen " ++ tag "version"]
      ["# This file auto-generated with classgen " ++ version] :=
    writes_version (by decide) (by decide +kernel) rfl
  have hhead : Writes (packageContext modules)
      (["#"] ++ ["# This file auto-generated with classgen " ++ tag "version"] ++ ["#", ""]) packageHead :=
    ((Writes.plain (by decide)).append hversion).append (Writes.plain (by decide))
  have heach : tag? "#each modules".toList = some (.start .each ["modules"]) := by decide +kernel
  have hmodules : Writes (packageContext modules)
      ([tag "#each modules"] ++ ["from " ++ tag "this" ++ " import *"] ++ [tag "/each"])
      (modules.map importLine) :=
    .listing (by decide) heach rfl (by decide) (by decide) (by decide)
  exact Template.render_of_writes (hhead.append hmodules) aggregator

/-- Where no module has a line end in it, the lines tell which modules are imported. -/
theorem importLine_mem_lines_iff {modules : List String} (h : ∀ m ∈ modules, '\n' ∉ m.toList) (m : String) :
    importLine m ∈ Text.pieces '\n' (Text.ofLines (packageHead ++ modules.map importLine)) ↔
      m ∈ modules := by
  have hhead : ∀ line ∈ packageHead ++ [""], '\n' ∉ line.toList ∧ line.toList.head? ≠ some 'f' := by
    decide +kernel
  have hline : ∀ m : String, (importLine m).toList.head? = some 'f' := fun m => by
    simp [importLine]
  have hends : ∀ m : String, '\n' ∉ m.toList → '\n' ∉ (importLine m).toList := fun m hm => by
    simp [importLine, hm]
  have hplain : ∀ line ∈ packageHead ++ modules.map importLine, '\n' ∉ line.toList := by
    intro line hmem
    rcases List.mem_append.1 hmem with hmem | hmem
    · exact (hhead line (List.mem_append_left _ hmem)).1
    · obtain ⟨m, hm, rfl⟩ := List.mem_map.1 hmem
      exact hends m (h m hm)
  rw [Text.pieces_ofLines hplain]
  constructor
  · intro hmem
    rcases List.mem_append.1 hmem with hmem | hmem
    · rcases List.mem_append.1 hmem with hmem | hmem
      · exact absurd (hline m) (hhead _ (List.mem_append_left _ hmem)).2
      · obtain ⟨m', hm', heq⟩ := List.mem_map.1 hmem
        exact importLine_injective heq ▸ hm'
    · exact absurd (hline m) (hhead _ (List.mem_append_right _ hmem)).2
  · intro hm
    exact List.mem_append_left _ (List.mem_append_right _ (List.mem_map_of_mem hm))

end Aggregate
end WrapperGen
