import WrapperGen.Proofs.Aggregate.Imports

/-!
# What indexes and the aggregator say

An index is a head, in the index of the output root the export of the library, and one line for every module
it exports. The aggregator is a head and one line for every module it imports. A module is put into its line
as it is, even where it looks like a tag or has quotes or line ends in it.
-/

namespace WrapperGen.Aggregate

open Template (Writes read? read?_of_ascii tag tag?)

/-- How an index begins. -/
def indexHead : List String := ["//", "// This file auto-generated with classgen " ++ version, "//"]

/-- The lines that export the library. -/
def libraryLines (l : Library) : List String :=
  ["", "import * as " ++ l.space ++ " from '" ++ l.module ++ "';", "export \x7b " ++ l.space ++ " \x7d;"]

/-- The line that exports a module. -/
def exportLine (module : String) : String := "export * from '" ++ module ++ "';"

def indexLines (library : Library) (plan : IndexPlan) : List String :=
  indexHead ++ (if plan.top then libraryLines library else []) ++ [""] ++ plan.modules.map exportLine

def packageLines (modules : List String) : List String := packageHead ++ modules.map importLine

section

variable (library : Library) (plan : IndexPlan)

/-- What an index is filled from. -/
def indexContext : Value :=
  .record [("version", .text version), ("top", .bool plan.top), ("library", library.value),
    ("modules", .ofTexts plan.modules)]

theorem writes_indexHead : Writes (indexContext library plan)
    (["//"] ++ ["// This file auto-generated with classgen " ++ tag "version"] ++ ["//"]) indexHead := by
  have hversion : Writes (indexContext library plan)
      ["// This file auto-generated with classgen " ++ tag "version"]
      ["// This file auto-generated with classgen " ++ version] :=
    writes_version (by decide) (by decide +kernel) rfl
  exact ((Writes.plain (by decide)).append hversion).append (Writes.plain (by decide))

theorem writes_libraryLines : Writes (indexContext library plan)
    ([""] ++ ["import * as " ++ tag "library.namespace" ++ " from '" ++ tag "library.module" ++ "';"] ++
      ["export \x7b " ++ tag "library.namespace" ++ " \x7d;"]) (libraryLines library) := by
  have himport : Writes (indexContext library plan)
      ["import * as " ++ tag "library.namespace" ++ " from '" ++ tag "library.module" ++ "';"]
      ["import * as " ++ library.space ++ " from '" ++ library.module ++ "';"] := by
    have hread : read?
        ["import * as " ++ tag "library.namespace" ++ " from '" ++ tag "library.module" ++ "';"] =
        some [.text "import * as ", .print ["library", "namespace"], .text " from '",
          .print ["library", "module"], .text "';\n"] :=
      read?_of_ascii (by decide +kernel)
    refine .line hread ?_
    simp [indexContext, Library.value, Template.fill, Template.fillPart, Template.find, Named.get?,
      Template.printed, String.append_assoc]
  have hexport : Writes (indexContext library plan) ["export \x7b " ++ tag "library.namespace" ++ " \x7d;"]
      ["export \x7b " ++ library.space ++ " \x7d;"] := by
    -- The line has braces of its own, so it does not stand between plain texts.
    have hread : read? ["export \x7b " ++ tag "library.namespace" ++ " \x7d;"] =
        some [.text "export \x7b ", .print ["library", "namespace"], .text " \x7d;\n"] :=
      read?_of_ascii (by decide +kernel)
    refine .line hread ?_
    simp [indexContext, Library.value, Template.fill, Template.fillPart, Template.find, Named.get?,
      Template.printed, String.append_assoc]
  exact ((Writes.plain (by decide)).append himport).append hexport

theorem writes_exportLines : Writes (indexContext library plan)
    ([tag "#each modules"] ++ ["export * from '" ++ tag "this" ++ "';"] ++ [tag "/each"])
    (plan.modules.map exportLine) := by
  have heach : tag? "#each modules".toList = some (.start .each ["modules"]) := by decide +kernel
  exact .listing (by decide) heach rfl (by decide) (by decide) (by decide)

theorem indexText_eq : indexText library plan = .ok (Text.ofLines (indexLines library plan)) := by
  have hif : tag? "#if top".toList = some (.start .when ["top"]) := by decide +kernel
  have htop : Writes (indexContext library plan) _ (if plan.top then libraryLines library else []) :=
    .when (by decide) hif rfl (writes_libraryLines library plan)
  have hblank : Writes (indexContext library plan) [""] [""] := .plain (by decide)
  exact Template.render_of_writes
    ((((writes_indexHead library plan).append htop).append hblank).append (writes_exportLines library plan))
    plan.path.text

end

variable {σ : Type} [Host σ]

theorem writeIndex_eq (library : Library) (plan : IndexPlan) :
    (writeIndex library plan : Step σ Path) = (do
      Host.write plan.path (Text.ofLines (indexLines library plan))
      return plan.path) := by
  rw [writeIndex, indexText_eq]
  rfl

theorem writePackage_eq (s : Settings) (p : Placement) :
    (writePackage s p : Step σ Path) = (do
      let modules ← planPackage (.ofSettings s) p (Host.disk (← get))
      Host.write (p.root.child s.python.aggregator) (Text.ofLines (packageLines modules))
      return p.root.child s.python.aggregator) := by
  simp only [writePackage, packageText_eq]
  rfl

theorem writeIndexes_eq (s : Settings) (p : Placement) :
    (writeIndexes s p : Step σ (List Path)) = (do
      let plans ← planIndexes (.ofSettings s) p (Host.disk (← get))
      plans.mapM fun plan => do
        Host.write plan.path (Text.ofLines (indexLines s.library plan))
        return plan.path) := by
  have hwrite : (writeIndex s.library : IndexPlan → Step σ Path) = (fun plan => do
      Host.write plan.path (Text.ofLines (indexLines s.library plan))
      return plan.path) :=
    funext (writeIndex_eq s.library)
  rw [writeIndexes, hwrite]

/-- Indexes and the aggregator say their lines and nothing else, whatever their modules are, and on every host
the lines of what was planned are what is written. -/
theorem files_list_modules (library : Library) (plan : IndexPlan) (aggregator : String)
    (modules : List String) (s : Settings) (p : Placement) :
    indexText library plan = .ok (Text.ofLines
      (indexHead ++ (if plan.top then libraryLines library else []) ++ [""] ++
        plan.modules.map exportLine)) ∧
    packageText aggregator modules = .ok (Text.ofLines (packageHead ++ modules.map importLine)) ∧
    (writeIndexes s p : Step σ (List Path)) = (do
      let plans ← planIndexes (.ofSettings s) p (Host.disk (← get))
      plans.mapM fun plan => do
        Host.write plan.path (Text.ofLines (indexLines s.library plan))
        return plan.path) ∧
    (writePackage s p : Step σ Path) = (do
      let modules ← planPackage (.ofSettings s) p (Host.disk (← get))
      Host.write (p.root.child s.python.aggregator) (Text.ofLines (packageLines modules))
      return p.root.child s.python.aggregator) :=
  ⟨indexText_eq library plan, packageText_eq aggregator modules, writeIndexes_eq s p, writePackage_eq s p⟩

example : packageText "_package.py" ["\x7b\x7bthis\x7d\x7d", "a'b\nc"] = .ok
    ("#\n# This file auto-generated with classgen 0.3.0\n#\n\nfrom \x7b\x7bthis\x7d\x7d import *\n" ++
      "from a'b\nc import *\n") := by
  cbv

end WrapperGen.Aggregate
