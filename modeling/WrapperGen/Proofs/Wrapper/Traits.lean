import WrapperGen.ClassTable.Problems
import WrapperGen.Proofs.Wrapper.Bindings

/-!
# Traits of referring properties

A package wrapper declares a property that refers to one instance as a trait of the class that the property
names, of the base type if it names none, or says `This` for the class itself. The class of a trait is
imported under the name that the trait says in all cases but two: a bare path is imported under its last
segment, and a root with a record and a superclass does not import the base type that it declares a trait of.
-/

namespace WrapperGen

namespace Linker

variable {l : Linker} {r : Resolved} {file : Path} {refs : References} {c name : String} {a : Artifact}

/-- What the table knows is located under its own name, and a bare path under its last segment. -/
theorem name_of_locate (h : l.locate c name = .ok a) :
    (l.table.knows name = true ∧ a.name = name) ∨
      (l.table.knows name = false ∧ '/' ∈ name.toList ∧
        a.name = UnitPath.unitName (UnitPath.normalize name)) := by
  have hhas : l.table.has name = (l.table.get? name).isSome := (Named.get?_isSome _ _).symm
  unfold locate at h
  rw [ClassTable.knows, hhas]
  cases hown : l.table.get? name with
  | some own =>
    rw [hown] at h
    exact .inl ⟨rfl, Except.ok.inj h ▸ rfl⟩
  | none =>
    rw [hown] at h
    dsimp only at h
    by_cases hroot : l.table.isRoot name = true
    · rw [if_pos hroot] at h
      have hname : name = l.table.root := by simpa [ClassTable.isRoot] using hroot
      exact .inl ⟨hroot, Except.ok.inj h ▸ hname.symm⟩
    · rw [if_neg hroot] at h
      by_cases hpath : isBarePath name = true
      · rw [if_pos hpath] at h
        obtain rfl := Except.ok.inj h
        exact .inr ⟨by simpa using hroot, by simpa [isBarePath] using hpath, by dsimp only⟩
      · rw [if_neg hpath] at h
        cases h

/-- A name under which something is located that the table knows, or a plain one. -/
theorem knows_or_plain_of_imported {parent : Artifact} {others : List Artifact}
    (hparent : l.parent r = .ok parent) (hothers : l.named r = .ok others)
    (ha : a ∈ imported r parent others) : l.table.knows a.name = true ∨ '/' ∉ a.name.toList := by
  have hlocate : a = l.base ∨ ∃ name, r.RefersTo name ∧ l.locate r.className name = .ok a := by
    rcases List.mem_cons.1 ha with rfl | ha
    · exact base_or_locate_of_parent hparent
    · exact base_or_locate_of_named hothers a (List.mem_filter.1 ha).1
  rcases hlocate with rfl | ⟨name, -, hname⟩
  · exact .inl (by simp [ClassTable.knows, ClassTable.isRoot, base])
  · rcases name_of_locate hname with ⟨hknows, heq⟩ | ⟨-, -, hplain⟩
    · exact .inl (heq ▸ hknows)
    · exact .inr (hplain ▸ UnitPath.slash_not_mem_unitName _)

/-- What a property refers to is located, and imported unless it has the name of the class. -/
theorem exists_imported (parent : Artifact) {others : List Artifact} (h : l.named r = .ok others)
    {e : String × Property} (he : e ∈ r.ownProperties.entries) {referent : Referent}
    (hreferent : referent ∈ e.2.references) :
    ∃ a, l.locateReferent r.className referent = .ok a ∧
      (a.name ≠ r.className → a ∈ imported r parent others) := by
  obtain ⟨dependencies, -, h⟩ := bind_eq_ok_iff.1 h
  obtain ⟨referents, hreferents, h⟩ := bind_eq_ok_iff.1 h
  obtain rfl : dependencies ++ referents = others := Except.ok.inj h
  obtain ⟨a, ha, hlocate⟩ :=
    exists_mem_of_mapM_eq_ok hreferents referent (List.mem_flatMap.2 ⟨e, he, hreferent⟩)
  refine ⟨a, hlocate, fun hother => List.mem_cons_of_mem _ (List.mem_filter.2 ?_)⟩
  exact ⟨List.mem_append_right _ ha, by simpa using hother⟩

/-- The references of a class have the names of the artifacts that it imports. -/
theorem mem_classNames_iff (h : l.references r file = .ok refs) {parent : Artifact} {others : List Artifact}
    (hparent : l.parent r = .ok parent) (hothers : l.named r = .ok others) :
    name ∈ (refs.toList.map (·.2)).map (·.className) ↔ ∃ a ∈ imported r parent others, a.name = name := by
  obtain ⟨parent', others', hparent', hothers', rfl⟩ := references_eq_ok h
  obtain rfl : parent' = parent := Except.ok.inj (hparent'.symm.trans hparent)
  obtain rfl : others' = others := Except.ok.inj (hothers'.symm.trans hothers)
  rw [List.map_map, List.mem_map]
  constructor
  · rintro ⟨⟨key, ref⟩, hmem, rfl⟩
    rw [Std.ExtTreeMap.mem_toList_iff_getElem?_eq_some, getElem?_references] at hmem
    obtain ⟨a, ha, rfl⟩ := Option.map_eq_some_iff.1 hmem
    exact ⟨a, List.mem_reverse.1 (List.mem_of_find?_eq_some ha), rfl⟩
  · rintro ⟨a, ha, rfl⟩
    have hfind : ((imported r parent' others').reverse.find? (·.name = a.name)).isSome = true := by
      rw [List.find?_isSome]
      exact ⟨a, List.mem_reverse.2 ha, by simp⟩
    obtain ⟨b, hb⟩ := Option.isSome_iff_exists.1 hfind
    have hname : b.name = a.name := by simpa using List.find?_some hb
    refine ⟨(a.name, l.describe file b), ?_, hname⟩
    rw [Std.ExtTreeMap.mem_toList_iff_getElem?_eq_some, getElem?_references, hb, Option.map_some]

/-- A class of the table or the root is imported under the name that a property of another class gives it. A
bare path is not: the name of its import has no separator. -/
theorem named_imported_iff {parent : Artifact} {others : List Artifact} (hparent : l.parent r = .ok parent)
    (hothers : l.named r = .ok others) {e : String × Property} (he : e ∈ r.ownProperties.entries)
    (hname : .named name ∈ e.2.references) (hother : name ≠ r.className) :
    (∃ a ∈ imported r parent others, a.name = name) ↔ l.table.knows name = true := by
  obtain ⟨a, hlocate, himported⟩ := exists_imported parent hothers he hname
  rcases name_of_locate (hlocate : l.locate r.className name = .ok a) with
    ⟨hknows, rfl⟩ | ⟨hunknown, hpath, -⟩
  · exact iff_of_true ⟨a, himported hother, rfl⟩ hknows
  · refine iff_of_false ?_ (by simp [hunknown])
    rintro ⟨b, hb, rfl⟩
    rcases knows_or_plain_of_imported hparent hothers hb with hknows | hplain
    · exact Bool.false_ne_true (hunknown.symm.trans hknows)
    · exact hplain hpath

/-- The base type is imported under the name of the root for a property that names no class, unless that
is the name of the class itself, and its superclass another one. -/
theorem base_imported_iff (hr : l.table.resolve c = .ok r) {parent : Artifact} {others : List Artifact}
    (hparent : l.parent r = .ok parent) (hothers : l.named r = .ok others) {e : String × Property}
    (he : e ∈ r.ownProperties.entries) (hbase : .base ∈ e.2.references) :
    (∃ a ∈ imported r parent others, a.name = l.table.root) ↔
      c ≠ l.table.root ∨ r.superClass = none := by
  have hclass := ClassTable.className_of_resolve hr
  have hsuper := name_parent_eq_iff hr hparent
  constructor
  · rintro ⟨a, ha, hname⟩
    by_cases hroot : c = l.table.root
    · rcases List.mem_cons.1 ha with rfl | ha
      · exact .inr (hsuper.1 (hname.trans hroot.symm)).1
      · have hother : a.name ≠ r.className := by simpa using (List.mem_filter.1 ha).2
        exact absurd (hname.trans (hroot.symm.trans hclass.symm)) hother
    · exact .inl hroot
  · intro h
    by_cases hroot : c = l.table.root
    · exact ⟨parent, List.mem_cons_self,
        (hsuper.2 ⟨h.resolve_left (not_not.2 hroot), hroot⟩).trans hroot⟩
    · obtain ⟨a, hlocate, himported⟩ := exists_imported parent hothers he hbase
      obtain rfl : l.base = a := Except.ok.inj hlocate
      exact ⟨l.base, himported fun hname => hroot (hclass.symm.trans hname.symm), rfl⟩

end Linker

namespace Generator

variable {g : Generator} {r : Resolved} {w : Wrapper} {c n : String}

/-- The symbols that a wrapper imports are those of the artifacts that its class imports. -/
theorem mem_symbols_iff (h : g.wrapper r = .ok w) {parent : Artifact} {others : List Artifact}
    (hparent : g.linker.parent r = .ok parent) (hothers : g.linker.named r = .ok others) :
    n ∈ w.superClass.symbol :: w.imports.map (·.symbol) ↔
      ∃ a ∈ Linker.imported r parent others, Symbol.imported g.target a.name = n := by
  obtain ⟨s, hs, hbuild⟩ := wrapper_eq_ok_iff.1 h
  obtain ⟨refs, superclass, hrefs, hsuper, rfl⟩ := subject_eq_ok hs
  obtain ⟨_, _, _, _, _, -, rfl⟩ := Wrapper.build_eq_ok hbuild
  obtain rfl : g.linker.describe (g.file r) parent = superclass := by
    simpa [Linker.superclass, hparent, Except.map] using hsuper
  have hnames : ∀ name, name ∈ (refs.toList.map (·.2)).map (·.className) ↔
      ∃ a ∈ Linker.imported r parent others, a.name = name :=
    fun _ => Linker.mem_classNames_iff hrefs hparent hothers
  have hsuperclass : parent.name ∈ (refs.toList.map (·.2)).map (·.className) :=
    (hnames _).2 ⟨parent, List.mem_cons_self, rfl⟩
  -- The superclass is left out of the imports only to stand before them.
  have hsymbols : n ∈ Symbol.imported g.target parent.name ::
      (((refs.toList.map (·.2)).filter (·.className ≠ parent.name)).map
        (Import.ofReference g.target)).map (·.symbol) ↔
      ∃ name ∈ (refs.toList.map (·.2)).map (·.className), Symbol.imported g.target name = n := by
    rw [List.map_map, List.mem_cons, List.mem_map]
    constructor
    · rintro (rfl | ⟨ref, href, rfl⟩)
      · exact ⟨_, hsuperclass, rfl⟩
      · exact ⟨_, List.mem_map_of_mem (List.mem_filter.1 href).1, rfl⟩
    · rintro ⟨name, hmem, rfl⟩
      obtain ⟨ref, href, rfl⟩ := List.mem_map.1 hmem
      by_cases hname : ref.className = parent.name
      · exact .inl (by rw [hname])
      · exact .inr ⟨ref, List.mem_filter.2 ⟨href, by simpa using hname⟩, rfl⟩
  refine hsymbols.trans ⟨?_, ?_⟩
  · rintro ⟨name, hmem, rfl⟩
    obtain ⟨a, ha, rfl⟩ := (hnames name).1 hmem
    exact ⟨a, ha, rfl⟩
  · rintro ⟨a, ha, rfl⟩
    exact ⟨a.name, (hnames _).2 ⟨a, ha, rfl⟩, rfl⟩

end Generator

/-- Whether the class that a trait of another class names is imported under this name. A named class has to
be one of the table or the root. The base type, which stands for no name, is missing only in a root that
has a record and a superclass. -/
def ClassTable.Importable (t : ClassTable) (r : Resolved) : Option String → Prop
  | some name => t.knows name = true
  | none => r.className ≠ t.root ∨ r.superClass = none

namespace Wrapper

theorem trait_self (className base literal : String) (nullable : Bool) :
    trait className base literal (.ref (some className) nullable) =
      "This(" ++ allowNone (.ref (some className) nullable) ++ ")" := by
  unfold trait
  dsimp only
  rw [if_pos rfl]

theorem trait_other {className : String} (base literal : String) {target : Option String}
    (nullable : Bool) (h : target ≠ some className) :
    trait className base literal (.ref target nullable) =
      "Instance(" ++ target.getD base ++ ", " ++ allowNone (.ref target nullable) ++ ")" := by
  unfold trait
  cases target with
  | none => dsimp only [Option.getD_none]
  | some name =>
    have hname : name ≠ className := fun heq => h (congrArg some heq)
    dsimp only [Option.getD_some]
    rw [if_neg hname]

theorem exists_field_of_own {target : Target} {r : Resolved} {base : String} {fields : List Field}
    (h : fieldsOf target r base = .ok fields) {name : String} {p : Property}
    (hown : (name, p) ∈ r.ownProperties.entries) :
    ∃ f ∈ fields, f.name = name ∧ f.property = p ∧
      (target = .python → ∃ literal, f.declaration = declaration r.className base literal p) := by
  obtain ⟨f, hf, hfield⟩ := exists_mem_of_mapM_eq_ok h (name, p) hown
  unfold fieldOf at hfield
  cases hliteral : p.defaultLiteral? target with
  | none =>
    rw [hliteral] at hfield
    exact nomatch hfield
  | some literal =>
    rw [hliteral] at hfield
    have hfield := Except.ok.inj hfield
    refine ⟨f, hf, hfield ▸ rfl, hfield ▸ rfl, ?_⟩
    rintro rfl
    exact ⟨literal, hfield ▸ rfl⟩

end Wrapper

namespace Generator

variable {r : Resolved} {w : Wrapper} {c : String}

/-- A property that refers to one instance is declared as `This` if it names its own class, and otherwise as
an instance of the class that it names, or of the base type. That class is imported under its name exactly
if the name is a class or the root, and not a bare path; the base type is imported under the name of the
root unless the class is itself the root and has a superclass. -/
theorem reference_trait_imported_iff (s : Settings) (t : ClassTable) (overridden : Path → Bool)
    (hr : t.resolve c = .ok r) (hw : (⟨s, t, .python, overridden⟩ : Generator).wrapper r = .ok w)
    {name : String} {target : Option String} {nullable : Bool}
    (hown : (name, .ref target nullable) ∈ r.ownProperties.entries) :
    ∃ f ∈ w.fields, f.name = name ∧ f.property = .ref target nullable ∧
      (target = some c → f.declaration =
        "This(" ++ Wrapper.allowNone f.property ++ ")" ++ Wrapper.tag (some "widget_serialization")) ∧
      (target ≠ some c → f.declaration =
          "Instance(" ++ target.getD t.root ++ ", " ++ Wrapper.allowNone f.property ++ ")" ++
            Wrapper.tag (some "widget_serialization") ∧
        (target.getD t.root ∈ w.superClass.symbol :: w.imports.map (·.symbol) ↔
          t.Importable r target)) := by
  have hclass := ClassTable.className_of_resolve hr
  obtain ⟨x, hx, hbuild⟩ := wrapper_eq_ok_iff.1 hw
  obtain ⟨refs, superclass, hrefs, -, rfl⟩ := subject_eq_ok hx
  obtain ⟨parent, others, hparent, hothers, -⟩ := Linker.references_eq_ok hrefs
  obtain ⟨fields, _, _, _, _, hfields, hbuilt⟩ := Wrapper.build_eq_ok hbuild
  obtain ⟨f, hf, hname, hproperty, hdeclaration⟩ := Wrapper.exists_field_of_own hfields hown
  obtain ⟨literal, hdeclaration⟩ := hdeclaration rfl
  have hserializer : (Property.ref target nullable).serializer? .python = some "widget_serialization" := rfl
  have himported : target.getD t.root ∈ w.superClass.symbol :: w.imports.map (·.symbol) ↔
      ∃ a ∈ Linker.imported r parent others, a.name = target.getD t.root :=
    mem_symbols_iff hw hparent hothers
  rw [hclass, Wrapper.declaration, hserializer] at hdeclaration
  refine ⟨f, by rw [hbuilt]; exact hf, hname, hproperty, ?_, fun hother => ⟨?_, himported.trans ?_⟩⟩
  · rintro rfl
    rw [hdeclaration, hproperty, Wrapper.trait_self]
  · rw [hdeclaration, hproperty, Wrapper.trait_other _ _ _ hother]
    rfl
  · cases target with
    | none =>
      rw [ClassTable.Importable, hclass]
      exact Linker.base_imported_iff hr hparent hothers hown List.mem_cons_self
    | some n =>
      have hn : n ≠ r.className := fun heq => hother (congrArg some (heq.trans hclass))
      exact Linker.named_imported_iff hparent hothers hown List.mem_cons_self hn

/-- A holder of other instances, with a reference of each form. -/
def holderRecord : ClassRecord :=
  (((ClassRecord.empty.withProperty "rim" (.ref (some "Rim") true)).withProperty
    "next" (.ref (some "Holder") true)).withProperty "content" (.ref none true)).withProperty
    "helper" (.ref (some "extras/Helper") true)

def holderTable : ClassTable := .ofRecords [("Rim", .located "parts/Rim"), ("Holder", holderRecord)] .empty

def holderGenerator : Generator := ⟨{}, holderTable, .python, fun _ => false⟩

theorem reference_trait_imported_iff_content : ∃ r w,
    holderTable.resolve "Holder" = .ok r ∧ holderGenerator.wrapper r = .ok w ∧
      ("content", .ref none true) ∈ r.ownProperties.entries ∧
      "Three" ∈ w.superClass.symbol :: w.imports.map (·.symbol) := by
  let holder := holderTable.merge "Holder" holderRecord none
  have hholder : holderTable.resolve "Holder" = .ok holder := by cbv
  have hwrapper : (holderGenerator.wrapper holder).isOk = true := by decide +kernel
  have hcontent : ("content", .ref none true) ∈ holder.ownProperties.entries := by decide +kernel
  cases hw : holderGenerator.wrapper holder with
  | error e => simp [hw, Except.isOk, Except.toBool] at hwrapper
  | ok w =>
    obtain ⟨f, -, -, -, -, hother⟩ := reference_trait_imported_iff {} holderTable _ hholder hw hcontent
    obtain ⟨-, himported⟩ := hother (by decide)
    have hclass : holder.className ≠ holderTable.root := by decide +kernel
    exact ⟨holder, w, hholder, hw, hcontent, himported.2 (.inl hclass)⟩

/-- The class that a bare path leads to is imported as `Helper`, and the trait names the whole path. -/
theorem holder_helper_not_imported :
    let holder := holderTable.merge "Holder" holderRecord none
    holderTable.problems = [] ∧ holderTable.resolve "Holder" = .ok holder ∧
      (holderGenerator.wrapper holder).map (fun w => w.superClass.symbol :: w.imports.map (·.symbol)) =
        .ok ["Three", "Helper", "Rim"] ∧
      (holderGenerator.wrapper holder).map (fun w => w.fields.map (·.declaration)) =
        .ok ["Instance(Rim, allow_none=True).tag(sync=True, **widget_serialization)",
          "This(allow_none=True).tag(sync=True, **widget_serialization)",
          "Instance(Three, allow_none=True).tag(sync=True, **widget_serialization)",
          "Instance(extras/Helper, allow_none=True).tag(sync=True, **widget_serialization)"] := by
  refine ⟨by cbv, by cbv, by decide +kernel, by decide +kernel⟩

end Generator
end WrapperGen
