import WrapperGen.Proofs.Inheritance.Properties
import WrapperGen.Proofs.Wrapper.Stages

/-!
# Linking

The importer and the generator of a class find its place each on their own. They agree: a reference to
a class leads to the override that the class's own module would find, or else to that module, and then
under the symbol which the module defines.
-/

namespace WrapperGen

namespace Linker

theorem locate_eq_of_get? {l : Linker} {c : String} {own : ClassRecord}
    (h : l.table.get? c = some own) (source : String) :
    l.locate source c = .ok ⟨c, c, own.unitPathOf c⟩ := by
  simp [locate, h]

theorem superclass_eq_of_locate {l : Linker} {x : Resolved} {c : String} {a : Artifact}
    (hx : x.superClass = some c) (h : l.locate x.className c = .ok a) (file : Path) :
    l.superclass x file = .ok (l.describe file a) := by
  simp [superclass, parent, hx, h, Except.map]

end Linker

namespace Generator

/-- The artifact of a class as importers see it. -/
def artifact (r : Resolved) : Artifact := ⟨r.className, r.className, r.unitPath⟩

theorem describe_artifact_file (g : Generator) (file : Path) (r : Resolved) :
    (g.linker.describe file (artifact r)).file =
      if g.overridden (g.overrideFile r) then g.overrideFile r else g.file r := rfl

theorem imported_eq_exportName {g : Generator} {r : Resolved} {w : Wrapper}
    (h : g.wrapper r = .ok w) (plain : g.overridden (g.overrideFile r) = false) :
    Symbol.imported g.target r.className = w.exportName := by
  rw [wrapper_exportName h, plain]
  rfl

/-- What a reference to a class owes to the class itself: it leads to the class's override if that
stands, and otherwise to its generated module and the symbol defined there. -/
structure LeadsTo (g : Generator) (ref : Reference) (r : Resolved) : Prop where
  overriding : g.overridden (g.overrideFile r) = true → ref.file = g.overrideFile r
  generated : g.overridden (g.overrideFile r) = false → ref.file = g.file r
  rendered : g.overridden (g.overrideFile r) = false →
    ∀ file text, g.render r = .ok (file, text) → file = ref.file
  symbol : g.overridden (g.overrideFile r) = false →
    ∀ w, g.wrapper r = .ok w → (Import.ofReference g.target ref).symbol = w.exportName

theorem describe_leadsTo (g : Generator) (file : Path) (r : Resolved) :
    g.LeadsTo (g.linker.describe file (artifact r)) r := by
  have hgenerated : g.overridden (g.overrideFile r) = false →
      (g.linker.describe file (artifact r)).file = g.file r := by
    intro plain
    rw [describe_artifact_file, if_neg (by simp [plain])]
  refine ⟨fun stands => ?_, hgenerated, fun plain path text hrender => ?_, fun plain w hw => ?_⟩
  · rw [describe_artifact_file, if_pos stands]
  · rw [hgenerated plain]
    exact (render_eq_ok_iff.1 hrender).1
  · exact imported_eq_exportName hw plain

/-- What is in the references of a class under a name other than that of its superclass is imported. -/
theorem ofReference_mem_imports {g : Generator} {x : Resolved} {v : Wrapper} {refs : References}
    {ref : Reference} (hv : g.wrapper x = .ok v) (hrefs : g.references x = .ok refs)
    (h : refs[ref.className]? = some ref)
    (hsuper : ∀ parent, g.linker.superclass x (g.file x) = .ok parent → parent.className ≠ ref.className) :
    Import.ofReference g.target ref ∈ v.imports := by
  obtain ⟨refs', parent, hrefs', hparent, himports⟩ := wrapper_imports hv
  obtain rfl := Except.ok.inj (hrefs.symm.trans hrefs')
  rw [himports]
  refine List.mem_map_of_mem (List.mem_filter.2 ⟨List.mem_map.2 ⟨(ref.className, ref), ?_, rfl⟩, ?_⟩)
  · exact Std.ExtTreeMap.mem_toList_iff_getElem?_eq_some.2 h
  · simpa using (hsuper parent hparent).symm

/-- A class of the table is referred to in the same way as a superclass, as a dependency and as the
target of a property, and this is the reference that a wrapper imports, unless something else of the same name
has taken its entry. Wherever the class resolves, that reference leads to it. -/
theorem reference_leads_to_class (g : Generator) {c : String} (h : g.table.has c = true)
    (x : Resolved) (file : Path) :
    ∃ ref : Reference,
      (x.superClass = some c → g.linker.superclass x file = .ok ref ∧
        ∀ v, file = g.file x → g.wrapper x = .ok v →
          v.superClass = Import.ofReference g.target ref) ∧
      (g.linker.locate x.className c).map (g.linker.describe file) = .ok ref ∧
      (g.linker.locateReferent x.className (.named c)).map (g.linker.describe file) = .ok ref ∧
      (∀ v refs, file = g.file x → g.wrapper x = .ok v → g.references x = .ok refs →
        refs[c]? = some ref →
        (∀ parent, g.linker.superclass x file = .ok parent → parent.className ≠ c) →
          Import.ofReference g.target ref ∈ v.imports) ∧
      ∀ r, g.table.resolve c = .ok r → g.LeadsTo ref r := by
  obtain ⟨own, hown⟩ := ClassTable.has_iff.1 h
  have hlocate := Linker.locate_eq_of_get? (l := g.linker) hown x.className
  have hmap : (g.linker.locate x.className c).map (g.linker.describe file) =
      .ok (g.linker.describe file ⟨c, c, own.unitPathOf c⟩) := by
    rw [hlocate]
    rfl
  refine ⟨_, fun hx => ⟨?_, fun v hfile hv => ?_⟩, hmap, hmap, fun v refs hfile hv hrefs hentry hsuper => ?_,
    fun r hr => ?_⟩
  · exact Linker.superclass_eq_of_locate hx hlocate file
  · obtain ⟨ref, href, hsuper⟩ := wrapper_superClass hv
    rw [Linker.superclass_eq_of_locate hx hlocate, ← hfile] at href
    rw [hsuper, ← Except.ok.inj href]
  · subst hfile
    exact ofReference_mem_imports hv hrefs hentry hsuper
  · obtain ⟨own', above, hown', rfl⟩ := ClassTable.resolve_eq_merge hr
    obtain rfl := Option.some.inj (hown.symm.trans hown')
    exact g.describe_leadsTo file (g.table.merge c own above)

/-- A generator of the front end for rings, in whose output tree one class is overridden. -/
def ringGenerator : Generator :=
  ⟨{}, ClassTable.ringTable, .javascript, fun p => p = ⟨"js/src/Shape.js"⟩⟩

theorem reference_leads_to_base : ∃ shape base ref w,
    ringGenerator.table.resolve "Shape" = .ok shape ∧
    ringGenerator.table.resolve "Base" = .ok base ∧
    ringGenerator.linker.superclass shape (ringGenerator.file shape) = .ok ref ∧
    ref.file = ⟨"js/src/core/Base.autogen.js"⟩ ∧
    ringGenerator.wrapper base = .ok w ∧
    (Import.ofReference .javascript ref).symbol = w.exportName := by
  let base := ClassTable.ringTable.merge "Base" ClassTable.baseRecord none
  have hbase : ringGenerator.table.resolve "Base" = .ok base := by cbv
  have hshape : ∃ shape, ringGenerator.table.resolve "Shape" = .ok shape := ⟨_, by cbv⟩
  obtain ⟨shape, hshape⟩ := hshape
  have hsuper : (ringGenerator.table.resolve "Shape").map (·.superClass) = .ok (some "Base") := by cbv
  rw [hshape] at hsuper
  have hknown : ringGenerator.table.has "Base" = true := by decide
  obtain ⟨ref, href, -, -, -, hleads⟩ :=
    reference_leads_to_class ringGenerator hknown shape (ringGenerator.file shape)
  have hplain : ringGenerator.overridden (ringGenerator.overrideFile base) = false := by decide
  have hwrapper : (ringGenerator.wrapper base).isOk = true := by decide
  cases hw : ringGenerator.wrapper base with
  | error e => simp [hw, Except.isOk, Except.toBool] at hwrapper
  | ok w =>
    refine ⟨shape, base, ref, w, hshape, hbase, (href (Except.ok.inj hsuper)).1, ?_, hw,
      (hleads base hbase).symbol hplain w hw⟩
    rw [(hleads base hbase).generated hplain]
    decide

end Generator
end WrapperGen
