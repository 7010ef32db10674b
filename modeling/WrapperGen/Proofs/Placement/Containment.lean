import WrapperGen.Proofs.Generation.Scheduling
import WrapperGen.Proofs.Path.Lexical
import WrapperGen.Proofs.Placement.Places
import WrapperGen.Settings

/-!
# Files in their output tree

The directory of a class lies in the output tree, whatever its unit path says. Its files lie in that
directory under the name of the class, which is taken as it is: a name with separators in it leads on from
there, and may lead out of the output tree.
-/

namespace WrapperGen

open WrapperGen.Path (Below depth? enter)

namespace Placement

/-- What a class name leads through before its last separator. -/
def wayOf (className : String) : List Component :=
  (⟨Path.ofPieces ((Text.pieces '/' className).dropLast ++ [""])⟩ : Path).components

/-- Whether the way that a class name spells, begun in the directory of its unit path, ends in the output
tree. -/
def Admits (p : Placement) (unitPath className : String) : Prop :=
  ∃ names : List String,
    (wayOf className).foldl enter (p.root.lexical ++ (UnitPath.dirs unitPath).map .name) =
      p.root.lexical ++ names.map .name

variable {p : Placement} {className ending unitPath : String}

theorem wayOf_of_plain (h : '/' ∉ className.toList) : wayOf className = [] := by
  rw [wayOf, Text.pieces_eq_singleton h]
  rfl

/-- What a file is named, after what the name of the class leads through. -/
theorem isName_file (className : String) (hslash : '/' ∉ ending.toList)
    (hplain : ∃ c ∈ ending.toList, c ≠ '.') :
    Entries.isName (Text.lastPiece '/' className ++ ending) = true := by
  obtain ⟨before, last, hclass, -⟩ := Text.pieces_append_plain className hslash
  have hlast : Text.lastPiece '/' className = last := by
    rw [Text.lastPiece, hclass, List.getLast?_concat, Option.getD_some]
  rw [hlast]
  exact Entries.isName_append (Text.not_mem_of_mem_pieces (s := className) (by simp [hclass])) hslash hplain

/-- The name of a file is a last name after what the name of the class leads through. -/
theorem components_file (className : String) (hslash : '/' ∉ ending.toList)
    (hplain : ∃ c ∈ ending.toList, c ≠ '.') :
    (⟨className ++ ending⟩ : Path).components =
      wayOf className ++ [.name (Text.lastPiece '/' className ++ ending)] := by
  have hname := isName_file className hslash hplain
  have hcomponent := Component.ofPiece?_of_isName hname
  have hfile := Text.pieces_append_ending className hslash
  have hpieces : ∀ piece ∈ (Text.pieces '/' className).dropLast ++ [""], '/' ∉ piece.toList := by
    intro piece hpiece
    rcases List.mem_append.1 hpiece with hpiece | hpiece
    · exact Text.not_mem_of_mem_pieces (List.dropLast_subset _ hpiece)
    · simp [List.mem_singleton.1 hpiece]
  have hway : (⟨Path.ofPieces ((Text.pieces '/' className).dropLast ++ [""])⟩ : Path).pieces =
      (Text.pieces '/' className).dropLast ++ [""] :=
    Text.pieces_intercalate Path.sep_toList (by simp) hpieces
  rw [wayOf]
  generalize (Text.pieces '/' className).dropLast = before at hfile hway ⊢
  generalize Text.lastPiece '/' className ++ ending = name at hname hcomponent hfile ⊢
  have hends : ∀ pieces : List String, (pieces ++ [name]).filterMap Component.ofPiece? =
      (pieces ++ [""]).filterMap Component.ofPiece? ++ [.name name] := by
    intro pieces
    have hblank : Component.ofPiece? "" = none := rfl
    simp only [List.filterMap_append, List.filterMap_cons, hcomponent, hblank, List.filterMap_nil,
      List.append_nil]
  cases before with
  | nil =>
    obtain ⟨hempty, hdot, -, -⟩ := Entries.isName_iff.1 hname
    have hfile' : (⟨className ++ ending⟩ : Path).pieces = name :: [] := hfile
    rw [Path.components_of_pieces hfile', Path.components_of_pieces hway, ← List.nil_append [_], hends]
    simp [Path.leadOf, hdot]
  | cons first before =>
    -- Something follows the first piece in both, so it leads in the same way.
    have hfile' : (⟨className ++ ending⟩ : Path).pieces = first :: (before ++ [name]) := hfile
    rw [Path.components_of_pieces hfile', Path.components_of_pieces hway, ← List.cons_append, hends]
    simp [Path.leadOf]

theorem lexical_classDir (p : Placement) (unitPath : String) :
    (p.classDir unitPath).lexical = p.root.lexical ++ (UnitPath.dirs unitPath).map .name :=
  Path.lexical_of_components (p.components_classDir unitPath)

/-- A file of a class is strictly below the output root exactly if the name of the class leads to a
directory of the output tree. -/
theorem below_root_iff (hslash : '/' ∉ ending.toList) (hplain : ∃ c ∈ ending.toList, c ≠ '.') :
    Below p.root ((p.classDir unitPath).child (className ++ ending)) ↔ p.Admits unitPath className := by
  have hname := components_file className hslash hplain
  generalize Text.lastPiece '/' className ++ ending = name at hname
  have hlexical : ((p.classDir unitPath).child (className ++ ending)).lexical =
      (wayOf className).foldl enter (p.root.lexical ++ (UnitPath.dirs unitPath).map .name) ++
        [.name name] := by
    rw [Path.lexical_child, hname, List.foldl_append, lexical_classDir]
    rfl
  rw [Below, hlexical, Admits]
  constructor
  · rintro ⟨names, hne, hnames⟩
    obtain ⟨names, last, rfl⟩ := (List.eq_nil_or_concat names).resolve_left hne
    rw [List.concat_eq_append, List.map_append, ← List.append_assoc] at hnames
    exact ⟨names, List.append_inj_left' hnames rfl⟩
  · rintro ⟨names, hnames⟩
    exact ⟨names ++ [name], by simp, by rw [hnames]; simp⟩

theorem admits_of_depth? {n : Nat}
    (h : depth? (UnitPath.dirs unitPath).length (wayOf className) = some n) :
    p.Admits unitPath className := by
  obtain ⟨names, -, hnames⟩ := Path.exists_names_of_depth? h
  exact ⟨names, hnames⟩

theorem admits_of_plain (h : '/' ∉ className.toList) : p.Admits unitPath className :=
  ⟨UnitPath.dirs unitPath, by rw [wayOf_of_plain h, List.foldl_nil]⟩

theorem generatedPath_below_iff :
    Below p.root (p.generatedPath className unitPath) ↔ p.Admits unitPath className :=
  below_root_iff (by cases p.target <;> decide) ⟨'a', by cases p.target <;> decide, by decide⟩

theorem overridePath_below_iff :
    Below p.root (p.overridePath className unitPath) ↔ p.Admits unitPath className := by
  refine below_root_iff (by cases p.target <;> decide) ?_
  cases p.target
  · exact ⟨'j', by decide⟩
  · exact ⟨'p', by decide⟩

end Placement

namespace Generation

/-- Every class that is scheduled has a unit path, and whatever that path says, both files of the class are
strictly below the output root exactly if the class name, read as a way from the directory of the unit path,
leads to a directory of the output tree. A name does that if it never leads up further than the unit path
has led down, and every name without separators does. -/
theorem scheduled_below_root_iff (s : Settings) (t : ClassTable) (units : List SourceUnit)
    (target : Target) (c : Scheduled) (hc : c ∈ (Plan.ofUnits t units).classes) :
    ∃ unitPath, t.unitPath c.className = .ok unitPath ∧
      let p := s.placement target
      let Inside := Below p.root (p.generatedPath c.className unitPath) ∧
        Below p.root (p.overridePath c.className unitPath)
      (Below p.root (p.generatedPath c.className unitPath) ↔ p.Admits unitPath c.className) ∧
      (Below p.root (p.overridePath c.className unitPath) ↔ p.Admits unitPath c.className) ∧
      ((depth? (UnitPath.dirs unitPath).length (Placement.wayOf c.className)).isSome = true → Inside) ∧
      ('/' ∉ c.className.toList → Inside) := by
  obtain ⟨own, hown⟩ := ClassTable.has_iff.1 (Plan.has_of_mem_classes t units c hc)
  have hpath : t.unitPath c.className = .ok (own.unitPathOf c.className) := by
    rw [ClassTable.unitPath, hown]
  have hinside : (s.placement target).Admits (own.unitPathOf c.className) c.className →
      Below (s.placement target).root
          ((s.placement target).generatedPath c.className (own.unitPathOf c.className)) ∧
        Below (s.placement target).root
          ((s.placement target).overridePath c.className (own.unitPathOf c.className)) := fun h =>
    ⟨Placement.generatedPath_below_iff.2 h, Placement.overridePath_below_iff.2 h⟩
  refine ⟨_, hpath, Placement.generatedPath_below_iff, Placement.overridePath_below_iff, ?_, ?_⟩
  · intro hdepth
    obtain ⟨n, hn⟩ := Option.isSome_iff_exists.1 hdepth
    exact hinside (Placement.admits_of_depth? hn)
  · exact fun hplain => hinside (Placement.admits_of_plain hplain)

/-- A class beside another one whose name leads up out of the directory of their unit path. -/
def rimTable (unitPath : String) : ClassTable :=
  .ofRecords [("Ring", .located unitPath), ("../Rim", .located unitPath)] .empty

theorem scheduled_rim {unitPath : String} (h : unitPath = "geometries/Ring" ∨ unitPath = "Ring") :
    ⟨"../Rim", unitPath⟩ ∈ (Plan.ofUnits (rimTable unitPath) [⟨unitPath, "Ring"⟩]).classes := by
  have hpath : (rimTable unitPath).unitPath "Ring" = .ok unitPath := by
    rcases h with rfl | rfl <;> decide +kernel
  have hextras : (rimTable unitPath).extras "Ring" = .ok ["../Rim"] := by
    rw [ClassTable.extras_of_unitPath hpath]
    rcases h with rfl | rfl <;> decide +kernel
  rw [Plan.ofUnits, List.foldl_cons, List.foldl_nil, Plan.add, hextras]
  simp [Plan.schedule]

/-- One step up from `geometries` is still in the output tree. -/
theorem scheduled_below_root_rim :
    let p := Settings.placement {} .javascript
    p.generatedPath "../Rim" "geometries/Ring" = ⟨"js/src/geometries/../Rim.autogen.js"⟩ ∧
      Below p.root (p.generatedPath "../Rim" "geometries/Ring") := by
  intro p
  obtain ⟨unitPath, hpath, -, -, hdeep, -⟩ := scheduled_below_root_iff {} (rimTable "geometries/Ring")
    [⟨"geometries/Ring", "Ring"⟩] .javascript ⟨"../Rim", "geometries/Ring"⟩
    (scheduled_rim (.inl rfl))
  have hknown : (rimTable "geometries/Ring").unitPath "../Rim" = .ok "geometries/Ring" := by
    decide +kernel
  obtain rfl : unitPath = "geometries/Ring" := Except.ok.inj (hpath.symm.trans hknown)
  exact ⟨by decide +kernel, (hdeep (by decide +kernel)).1⟩

/-- One step up from the output root leaves the output tree. -/
theorem scheduled_outside_rim :
    let p := Settings.placement {} .javascript
    ⟨"../Rim", "Ring"⟩ ∈ (Plan.ofUnits (rimTable "Ring") [⟨"Ring", "Ring"⟩]).classes ∧
      (rimTable "Ring").unitPath "../Rim" = .ok "Ring" ∧
      p.generatedPath "../Rim" "Ring" = ⟨"js/src/../Rim.autogen.js"⟩ ∧
      ¬ Below p.root (p.generatedPath "../Rim" "Ring") := by
  refine ⟨scheduled_rim (.inr rfl), by decide +kernel, by decide +kernel, ?_⟩
  rw [Placement.generatedPath_below_iff]
  rintro ⟨names, hnames⟩
  have hroot : (Settings.placement {} .javascript).root.lexical = [.name "js", .name "src"] := by
    decide +kernel
  have hway : (Placement.wayOf "../Rim").foldl enter ([.name "js", .name "src"] ++
      (UnitPath.dirs "Ring").map .name) = [.name "js"] := by
    decide +kernel
  rw [hroot, hway] at hnames
  simpa using congrArg List.length hnames

end Generation
end WrapperGen
