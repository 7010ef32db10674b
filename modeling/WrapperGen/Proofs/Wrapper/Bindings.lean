import Mathlib.Data.List.Basic
import WrapperGen.Proofs.Linking
import WrapperGen.Proofs.References
import WrapperGen.Proofs.Wrapper.Consulted

/-!
# What a wrapper binds

A wrapper defines one symbol and imports others, one for each artifact that it refers to. The imported
symbols are always different ones. The defined one is among them only in two cases, and a file of its own
is imported only in two others.
-/

namespace WrapperGen

open Linker (Involves imported)

theorem Symbol.imported_injective (target : Target) : Function.Injective (imported target) := by
  intro a b h
  cases target with
  | javascript => exact String.append_left_inj _ |>.1 h
  | python => exact h

/-- In the front end the symbol of a module that has an override is never that of another class. -/
theorem Symbol.imported_ne_marked (a b : String) :
    imported .javascript a ≠ imported .javascript b ++ "Autogen" := by
  intro h
  have hlast := congrArg (fun s : String => s.toList.getLast?) h
  simp [imported, model] at hlast

namespace Placement

variable {p : Placement} {stem c : String}

theorem map_name_concat_inj {dirs others : List String} {name other : String} :
    (dirs ++ [name]).map Component.name = (others ++ [other]).map Component.name ↔
      dirs = others ∧ name = other := by
  rw [(List.map_injective_iff.2 fun _ _ => Component.name.inj).eq_iff]
  exact ⟨fun h => (List.append_inj' h rfl).imp_right List.singleton_inj.1, fun ⟨h, h'⟩ => by rw [h, h']⟩

theorem same_generatedPath_iff (hstem : '/' ∉ stem.toList) (hc : '/' ∉ c.toList) (a b : String) :
    (p.generatedPath stem a).same (p.generatedPath c b) = true ↔
      UnitPath.dirs a = UnitPath.dirs b ∧ stem = c := by
  rw [Path.same, decide_eq_true_eq, p.components_generatedPath hstem, p.components_generatedPath hc,
    List.append_cancel_left_eq, map_name_concat_inj, String.append_left_inj]

/-- An override lies in the place of a generated file only if it is named with the mark of one. -/
theorem same_overridePath_iff (hstem : '/' ∉ stem.toList) (hc : '/' ∉ c.toList) (a b : String) :
    (p.overridePath stem a).same (p.generatedPath c b) = true ↔
      UnitPath.dirs a = UnitPath.dirs b ∧ stem = c ++ p.target.mark := by
  rw [Path.same, decide_eq_true_eq, p.components_overridePath hstem, p.components_generatedPath hc,
    List.append_cancel_left_eq, map_name_concat_inj, p.target.generatedSuffix_eq, ← String.append_assoc,
    String.append_left_inj]

theorem overridePath_congr {a b : String} (h : UnitPath.dirs a = UnitPath.dirs b) :
    p.overridePath stem a = p.overridePath stem b := by
  have hdir : p.classDir a = p.classDir b := congrArg (List.foldl Path.child p.root) h
  rw [overridePath, hdir]
  rfl

theorem overridePath_marked (p : Placement) (c unitPath : String) :
    p.overridePath (c ++ p.target.mark) unitPath = p.generatedPath c unitPath := by
  rw [overridePath, generatedPath, p.target.generatedSuffix_eq, String.append_assoc]

end Placement

namespace Linker

variable {l : Linker} {r : Resolved} {file : Path} {refs : References} {c : String}

/-- The references of a class are those to artifacts that it imports, each with a name of its own. -/
theorem exists_entries (h : l.references r file = .ok refs) :
    ∃ parent others, ∃ entries : List Artifact, l.parent r = .ok parent ∧ l.named r = .ok others ∧
      refs.toList.map (·.2) = entries.map (l.describe file) ∧ (entries.map (·.name)).Nodup ∧
      ∀ a ∈ entries, a ∈ imported r parent others := by
  obtain ⟨parent, others, hparent, hothers, hrefs⟩ := references_eq_ok h
  let entry (name : String) : Option Artifact := (imported r parent others).reverse.find? (·.name = name)
  have hentry : ∀ e ∈ refs.toList, (entry e.1).map (l.describe file) = some e.2 := by
    intro e he
    rw [← Std.ExtTreeMap.mem_toList_iff_getElem?_eq_some.1 he, hrefs, getElem?_references]
  have hname : ∀ e ∈ refs.toList, (entry e.1).map (·.name) = some e.1 := by
    intro e he
    obtain ⟨a, ha, -⟩ := Option.map_eq_some_iff.1 (hentry e he)
    rw [ha, Option.map_some]
    exact congrArg some (by simpa using List.find?_some ha)
  refine ⟨parent, others, refs.toList.filterMap fun e => entry e.1, hparent, hothers, ?_, ?_, ?_⟩
  · rw [List.map_filterMap, List.filterMap_congr hentry, List.filterMap_eq_map']
  · rw [List.map_filterMap, List.filterMap_congr hname, List.filterMap_eq_map']
    refine List.pairwise_map.2 (Std.ExtTreeMap.distinct_keys_toList.imp fun hne heq => hne ?_)
    exact Std.compare_eq_iff_eq.2 heq
  · intro a ha
    obtain ⟨e, -, he⟩ := List.mem_filterMap.1 ha
    exact List.mem_reverse.1 (List.mem_of_find?_eq_some he)

theorem eq_base_or_stem_eq_name {a : Artifact} (h : l.Involves r a) : a = l.base ∨ a.stem = a.name := by
  have hlocate : ∀ {name : String} {a : Artifact}, l.locate r.className name = .ok a →
      a = l.base ∨ a.stem = a.name := by
    intro name a ha
    unfold locate at ha
    dsimp only at ha
    split at ha
    · exact .inr (Except.ok.inj ha ▸ rfl)
    · split at ha
      · exact .inl (Except.ok.inj ha).symm
      · split at ha
        · exact .inr (Except.ok.inj ha ▸ rfl)
        · exact nomatch ha
  rcases h with rfl | hparent | ⟨others, hothers, ha⟩
  · exact .inl rfl
  · rcases base_or_locate_of_parent hparent with hbase | ⟨name, -, hname⟩
    · exact .inl hbase
    · exact hlocate hname
  · rcases base_or_locate_of_named hothers a ha with hbase | ⟨name, -, hname⟩
    · exact .inl hbase
    · exact hlocate hname

/-- The superclass of a class that resolves has the name of that class only where the class is the root. -/
theorem name_parent_eq_iff (hr : l.table.resolve c = .ok r) {parent : Artifact}
    (h : l.parent r = .ok parent) : parent.name = c ↔ r.superClass = none ∧ c = l.table.root := by
  unfold Linker.parent at h
  cases hsuper : r.superClass with
  | none =>
    rw [hsuper] at h
    obtain rfl : l.base = parent := Except.ok.inj h
    exact ⟨fun hname => ⟨rfl, hname.symm⟩, fun hroot => hroot.2.symm⟩
  | some d =>
    rw [hsuper] at h
    obtain ⟨own, hown⟩ := ClassTable.get?_superClass_of_resolve hr hsuper
    obtain rfl : ⟨d, d, own.unitPathOf d⟩ = parent := by simpa [locate, hown] using h
    simpa using ClassTable.superClass_ne_of_resolve hr hsuper

end Linker

namespace Generator

variable {g : Generator} {r : Resolved} {w : Wrapper} {c : String}

/-- The artifacts whose symbols a wrapper imports: its superclass and others. Its helpers come from the base
type. -/
structure Binds (g : Generator) (r : Resolved) (w : Wrapper) (parent : Artifact) (others : List Artifact) :
    Prop where
  above : g.linker.parent r = .ok parent
  superClass : w.superClass = Import.ofReference g.target (g.linker.describe (g.file r) parent)
  imports : w.imports = others.map fun a => Import.ofReference g.target (g.linker.describe (g.file r) a)
  distinct : ((parent :: others).map (·.name)).Nodup
  helpers : w.helpersImport = (g.linker.describe (g.file r) g.linker.base).importPath
  named : ∀ a ∈ others, a.name ≠ r.className ∧ ∃ all, g.linker.named r = .ok all ∧ a ∈ all

theorem exists_binds (h : g.wrapper r = .ok w) : ∃ parent others, g.Binds r w parent others := by
  obtain ⟨s, hs, hw⟩ := wrapper_eq_ok_iff.1 h
  obtain ⟨refs, superclass, hrefs, hsuper, rfl⟩ := subject_eq_ok hs
  obtain ⟨_, _, _, _, _, -, rfl⟩ := Wrapper.build_eq_ok hw
  obtain ⟨parent, all, entries, hparent, hall, hentries, hnodup, himported⟩ := Linker.exists_entries hrefs
  obtain rfl : g.linker.describe (g.file r) parent = superclass := by
    simpa [Linker.superclass, hparent, Except.map] using hsuper
  refine ⟨parent, entries.filter (·.name ≠ parent.name), hparent, rfl, ?_, ?_, rfl, fun a ha => ?_⟩
  · show ((refs.toList.map (·.2)).filter _).map _ = _
    rw [hentries, List.filter_map, List.map_map]
    rfl
  · refine List.nodup_cons.2 ⟨?_, (List.filter_sublist.map _).nodup hnodup⟩
    simp
  · obtain ⟨hentry, hother⟩ := List.mem_filter.1 ha
    have hname : a.name ≠ parent.name := by simpa using hother
    rcases List.mem_cons.1 (himported a hentry) with rfl | hmem
    · exact absurd rfl hname
    · obtain ⟨hmem, hown⟩ := List.mem_filter.1 hmem
      exact ⟨by simpa using hown, all, hall, hmem⟩

namespace Binds

variable {parent : Artifact} {others : List Artifact} (h : g.Binds r w parent others)

include h

theorem symbols : w.superClass.symbol :: w.imports.map (·.symbol) =
    ((parent :: others).map (·.name)).map (Symbol.imported g.target) := by
  rw [h.superClass, h.imports, List.map_map, List.map_map]
  rfl

theorem involves {a : Artifact} (ha : a ∈ g.linker.base :: parent :: others) : g.linker.Involves r a := by
  rcases List.mem_cons.1 ha with rfl | ha
  · exact .inl rfl
  rcases List.mem_cons.1 ha with rfl | ha
  · exact .inr (.inl h.above)
  · exact .inr (.inr (h.named a ha).2)

/-- No two imported symbols are the same, so all depends on the symbol that is defined. -/
theorem nodup_iff : (w.exportName :: w.superClass.symbol :: w.imports.map (·.symbol)).Nodup ↔
    ∀ a ∈ parent :: others, w.exportName ≠ Symbol.imported g.target a.name := by
  rw [List.nodup_cons, h.symbols, and_iff_left (h.distinct.map (Symbol.imported_injective g.target)),
    List.map_map, List.mem_map, not_exists]
  exact forall_congr' fun a => not_and.trans (imp_congr_right fun _ => ne_comm)

/-- The defined symbol is imported as well where the class is a root in the table, or, with an override, in
the package where a class is named as the marked symbol is. -/
theorem exportName_ne_iff (hr : g.table.resolve c = .ok r) (hw : g.wrapper r = .ok w) :
    (∀ a ∈ parent :: others, w.exportName ≠ Symbol.imported g.target a.name) ↔
      if g.overridden (g.overrideFile r) = true then
        g.target = .python → ∀ a ∈ parent :: others, a.name ≠ c ++ "Autogen"
      else ¬ (r.superClass = none ∧ c = g.table.root) := by
  have hclass := ClassTable.className_of_resolve hr
  rw [wrapper_exportName hw, hclass]
  split
  · next hover =>
    rw [hover]
    cases htarget : g.target with
    | javascript =>
      refine ⟨fun _ => nofun, fun _ a _ heq => ?_⟩
      exact Symbol.imported_ne_marked a.name c heq.symm
    | python =>
      refine ⟨fun hne _ a ha heq => hne a ha heq.symm, fun hne a ha heq => hne rfl a ha heq.symm⟩
  · next hover =>
    rw [Bool.not_eq_true] at hover
    have hroot : parent.name = c ↔ r.superClass = none ∧ c = g.table.root :=
      Linker.name_parent_eq_iff (l := g.linker) hr h.above
    rw [hover, ← hroot]
    have hsymbol : ∀ a : Artifact, Symbol.exported g.target c false = Symbol.imported g.target a.name ↔
        a.name = c := fun a =>
      ⟨fun heq => (Symbol.imported_injective g.target heq).symm, fun heq => by rw [heq]; rfl⟩
    simp only [Ne, hsymbol]
    constructor
    · exact fun hne => hne parent List.mem_cons_self
    · intro hparent a ha
      rcases List.mem_cons.1 ha with rfl | ha
      · exact hparent
      · exact hclass ▸ (h.named a ha).1

/-- What is named like the class and still imported is the base type. -/
theorem eq_base_of_stem (hr : g.table.resolve c = .ok r) {a : Artifact}
    (ha : a ∈ g.linker.base :: parent :: others) (hstem : a.stem = c) : a = g.linker.base := by
  rcases Linker.eq_base_or_stem_eq_name (h.involves ha) with hbase | hname
  · exact hbase
  · rw [hstem] at hname
    rcases List.mem_cons.1 ha with hbase | ha
    · exact hbase
    rcases List.mem_cons.1 ha with rfl | ha
    · have hsuper := ((Linker.name_parent_eq_iff (l := g.linker) hr h.above).1 hname.symm).1
      have habove := h.above
      rw [Linker.parent, hsuper] at habove
      exact (Except.ok.inj habove).symm
    · exact absurd (hname.symm.trans (ClassTable.className_of_resolve hr).symm) (h.named a ha).1

/-- An import leads to the module itself where the base type has the files of the class and no override
stands for it, or where the module itself is taken for the override of an artifact named with the mark. -/
theorem same_file_iff (hr : g.table.resolve c = .ok r) (hplain : ∀ n ∈ g.table.names, '/' ∉ n.toList)
    {a : Artifact} (ha : a ∈ g.linker.base :: parent :: others) :
    (g.linker.describe (g.file r) a).file.same (g.file r) = true ↔
      UnitPath.dirs a.unitPath = UnitPath.dirs r.unitPath ∧
        (a = g.linker.base ∧ a.stem = c ∧ g.overridden (g.overrideFile r) = false ∨
          a.stem = c ++ g.target.mark ∧ g.overridden (g.file r) = true) := by
  have hclass := ClassTable.className_of_resolve hr
  obtain ⟨own, -, hown, -⟩ := ClassTable.resolve_eq_merge hr
  have hc : '/' ∉ c.toList := hplain c (ClassTable.has_iff_mem.1 (ClassTable.has_iff.2 ⟨own, hown⟩))
  have hstem := Linker.slash_not_mem_stem hplain (h.involves ha)
  have hmark : g.placement.target = g.target := g.settings.placement_target g.target
  have hfile : g.file r = g.placement.generatedPath c r.unitPath := by rw [file, hclass]
  have hoverride : g.overrideFile r = g.placement.overridePath c r.unitPath := by rw [overrideFile, hclass]
  -- In the directory of the class two names of files matter: that of its module and that of its override.
  have hself (hdirs : UnitPath.dirs a.unitPath = UnitPath.dirs r.unitPath)
      (heq : a.stem = c ++ g.target.mark) :
      g.placement.overridePath a.stem a.unitPath = g.file r := by
    rw [Placement.overridePath_congr hdirs, heq, ← hmark, Placement.overridePath_marked, hfile]
  have hown (hdirs : UnitPath.dirs a.unitPath = UnitPath.dirs r.unitPath) (heq : a.stem = c) :
      g.placement.overridePath a.stem a.unitPath = g.overrideFile r := by
    rw [Placement.overridePath_congr hdirs, heq, hoverride]
  by_cases hover : g.overridden (g.placement.overridePath a.stem a.unitPath) = true
  · have hmodule : (g.linker.describe (g.file r) a).file = g.placement.overridePath a.stem a.unitPath :=
      if_pos hover
    rw [hmodule, hfile, Placement.same_overridePath_iff hstem hc, hmark, ← hfile]
    refine and_congr_right fun hdirs => ⟨fun heq => .inr ⟨heq, hself hdirs heq ▸ hover⟩, ?_⟩
    rintro (⟨-, heq, hplain'⟩ | ⟨heq, -⟩)
    · rw [hown hdirs heq, hplain'] at hover
      exact absurd hover Bool.false_ne_true
    · exact heq
  · have hmodule : (g.linker.describe (g.file r) a).file = g.placement.generatedPath a.stem a.unitPath :=
      if_neg hover
    rw [hmodule, hfile, Placement.same_generatedPath_iff hstem hc, ← hfile]
    refine and_congr_right fun hdirs => ⟨fun heq => ?_, ?_⟩
    · rw [hown hdirs heq, Bool.not_eq_true] at hover
      exact .inl ⟨h.eq_base_of_stem hr ha heq, heq, hover⟩
    · rintro (⟨-, heq, -⟩ | ⟨heq, hover'⟩)
      · exact heq
      · rw [hself hdirs heq] at hover
        exact absurd hover' hover

end Binds

/-- A wrapper imports its superclass and other artifacts, each by a symbol of its own. The symbol that it
defines is a further one, unless the class is a root that has a record, or its override leaves it a marked
symbol that a class of the package has as well. Where classes have plain names, none of these imports
leads to the module itself, unless the base type has the files of the class and no override stands for it,
or the module itself is taken for an override, that of an artifact named with the mark. -/
theorem wrapper_bindings (g : Generator) {c : String} {r : Resolved} {w : Wrapper}
    (hr : g.table.resolve c = .ok r) (hw : g.wrapper r = .ok w) :
    ∃ parent others, g.Binds r w parent others ∧
      ((w.exportName :: w.superClass.symbol :: w.imports.map (·.symbol)).Nodup ↔
        if g.overridden (g.overrideFile r) = true then
          g.target = .python → ∀ a ∈ parent :: others, a.name ≠ c ++ "Autogen"
        else ¬ (r.superClass = none ∧ c = g.table.root)) ∧
      ((∀ n ∈ g.table.names, '/' ∉ n.toList) → ∀ a ∈ g.linker.base :: parent :: others,
        ((g.linker.describe (g.file r) a).file.same (g.file r) = true ↔
          UnitPath.dirs a.unitPath = UnitPath.dirs r.unitPath ∧
            (a = g.linker.base ∧ a.stem = c ∧ g.overridden (g.overrideFile r) = false ∨
              a.stem = c ++ g.target.mark ∧ g.overridden (g.file r) = true))) := by
  obtain ⟨parent, others, h⟩ := exists_binds hw
  exact ⟨parent, others, h, h.nodup_iff.trans (h.exportName_ne_iff hr hw),
    fun hplain a ha => h.same_file_iff hr hplain ha⟩

theorem wrapper_bindings_base : ∃ base w,
    ringGenerator.table.resolve "Base" = .ok base ∧ ringGenerator.wrapper base = .ok w ∧
      (w.exportName :: w.superClass.symbol :: w.imports.map (·.symbol)).Nodup ∧
      ∃ parent, ringGenerator.linker.parent base = .ok parent ∧
        (ringGenerator.linker.describe (ringGenerator.file base) parent).file.same
          (ringGenerator.file base) = false := by
  let base := ClassTable.ringTable.merge "Base" ClassTable.baseRecord none
  have hbase : ringGenerator.table.resolve "Base" = .ok base := by cbv
  have hwrapper : (ringGenerator.wrapper base).isOk = true := by decide
  cases hw : ringGenerator.wrapper base with
  | error e => simp [hw, Except.isOk, Except.toBool] at hwrapper
  | ok w =>
    obtain ⟨parent, others, h, hnodup, hself⟩ := wrapper_bindings ringGenerator hbase hw
    have hplain : ringGenerator.overridden (ringGenerator.overrideFile base) = false := by decide
    refine ⟨base, w, hbase, hw, hnodup.2 ?_, parent, h.above, ?_⟩
    · rw [hplain]
      exact fun hroot => absurd hroot.2 (by decide)
    · have hnames : ∀ n ∈ ringGenerator.table.names, '/' ∉ n.toList := by decide
      rw [← Bool.not_eq_true, hself hnames parent (by simp)]
      obtain rfl : ringGenerator.linker.base = parent := Except.ok.inj h.above
      decide

/-- The root class with a record of its own, at the place of the base type. -/
def rootTable : ClassTable := .ofRecords [("Three", .located "_base/Three")] .empty

/-- Its module defines the symbol that it imports, from itself. -/
theorem wrapper_binds_root :
    let g : Generator := ⟨{}, rootTable, .javascript, fun _ => false⟩
    let root := rootTable.merge "Three" (.located "_base/Three") none
    rootTable.resolve "Three" = .ok root ∧
      (g.wrapper root).map (fun w => (w.exportName, w.superClass)) =
        .ok ("ThreeModel", ⟨"ThreeModel", "./Three.autogen.js"⟩) ∧
      (g.linker.superclass root (g.file root)).map (·.file) = .ok (g.file root) := by
  refine ⟨by cbv, by decide +kernel, by decide +kernel⟩

end Generator
end WrapperGen
