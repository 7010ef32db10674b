import WrapperGen.Proofs.Inheritance.Outcome
import WrapperGen.Proofs.Wrapper.Stages

/-!
# Entries of references

The references of a class are kept by name. Two artifacts may have one name: a bare path is known by its
last segment, which may also be a class, and the base type is known as the root, which may also have a
record. Of those the last one named has the entry. Classes of the table and the base type of a root
without record never share a name, so none of them loses its entry to another.
-/

namespace WrapperGen

/-- Whether a class refers to a name: as its superclass, as a dependency or in a property of its own. -/
def Resolved.RefersTo (r : Resolved) (name : String) : Prop :=
  r.superClass = some name ∨ name ∈ r.dependencies ∨
    ∃ e ∈ r.ownProperties.entries, .named name ∈ e.2.references

namespace Linker

/-- The module an artifact is imported from: its override if that stands, else what is generated. -/
def moduleOf (l : Linker) (a : Artifact) : Path :=
  let overriding := l.placement.overridePath a.stem a.unitPath
  if l.overridden overriding then overriding else l.placement.generatedPath a.stem a.unitPath

/-- What a class imports: its superclass, and what else it names, unless that has its own name. -/
def imported (r : Resolved) (parent : Artifact) (others : List Artifact) : List Artifact :=
  parent :: others.filter (·.name ≠ r.className)

/-- The base type, or a class of the table with the files its record gives it. -/
def Declared (l : Linker) (a : Artifact) : Prop :=
  a = l.base ∨ ∃ own, l.table.get? a.name = some own ∧ a = ⟨a.name, a.name, own.unitPathOf a.name⟩

variable {l : Linker} {r : Resolved} {file : Path} {refs : References}

theorem references_eq_ok (h : l.references r file = .ok refs) :
    ∃ parent others, l.parent r = .ok parent ∧ l.named r = .ok others ∧
      refs = ((imported r parent others).map (l.describe file)).foldl
        (fun refs d => refs.insert d.className d) .empty := by
  obtain ⟨first, hfirst, h⟩ := bind_eq_ok_iff.1 h
  obtain ⟨others, hothers, h⟩ := bind_eq_ok_iff.1 h
  unfold superclass at hfirst
  cases hparent : l.parent r with
  | error e => simp [hparent, Except.map] at hfirst
  | ok parent =>
    obtain rfl : l.describe file parent = first := by simpa [hparent, Except.map] using hfirst
    exact ⟨parent, others, rfl, hothers, (Except.ok.inj h).symm⟩

/-- Of several entries under one name the last one stays. -/
theorem getElem?_foldl_insert (ds : List Reference) (refs : References) (name : String) :
    (ds.foldl (fun refs d => refs.insert d.className d) refs)[name]? =
      (ds.reverse.find? (·.className = name)).or refs[name]? := by
  induction ds generalizing refs with
  | nil => simp
  | cons d ds ih =>
    rw [List.foldl_cons, ih, Std.ExtTreeMap.getElem?_insert, List.reverse_cons, List.find?_append,
      Option.or_assoc]
    by_cases h : d.className = name <;> simp [h]

theorem getElem?_references (artifacts : List Artifact) (name : String) :
    ((artifacts.map (l.describe file)).foldl (fun refs d => refs.insert d.className d)
      (Std.ExtTreeMap.empty : References))[name]? =
      (artifacts.reverse.find? (·.name = name)).map (l.describe file) := by
  rw [getElem?_foldl_insert, ← List.map_reverse, List.find?_map, Std.ExtTreeMap.empty_eq_emptyc,
    Std.ExtTreeMap.getElem?_empty, Option.or_none]
  rfl

/-- An artifact is found under its name when no other one has that name. -/
theorem find?_reverse_of_unique {artifacts : List Artifact} {a : Artifact} (ha : a ∈ artifacts)
    (unique : ∀ b ∈ artifacts, b.name = a.name → b = a) :
    artifacts.reverse.find? (·.name = a.name) = some a := by
  cases hfind : artifacts.reverse.find? (·.name = a.name) with
  | none =>
    have hnone := List.find?_eq_none.1 hfind a (List.mem_reverse.2 ha)
    simp at hnone
  | some b =>
    have hname : b.name = a.name := by simpa using List.find?_some hfind
    rw [unique b (List.mem_reverse.1 (List.mem_of_find?_eq_some hfind)) hname]

theorem base_or_locate_of_parent {a : Artifact} (h : l.parent r = .ok a) :
    a = l.base ∨ ∃ name, r.RefersTo name ∧ l.locate r.className name = .ok a := by
  unfold parent at h
  split at h
  · next c hc => exact .inr ⟨c, .inl hc, h⟩
  · exact .inl (Except.ok.inj h).symm

theorem base_or_locate_of_named {others : List Artifact} (h : l.named r = .ok others) :
    ∀ a ∈ others, a = l.base ∨ ∃ name, r.RefersTo name ∧ l.locate r.className name = .ok a := by
  obtain ⟨dependencies, hdependencies, h⟩ := bind_eq_ok_iff.1 h
  obtain ⟨referents, hreferents, h⟩ := bind_eq_ok_iff.1 h
  obtain rfl : dependencies ++ referents = others := Except.ok.inj h
  intro a ha
  rcases List.mem_append.1 ha with ha | ha
  · obtain ⟨name, hname, ha⟩ := exists_of_mapM_eq_ok hdependencies a ha
    exact .inr ⟨name, .inr (.inl hname), ha⟩
  · obtain ⟨referent, hreferent, ha⟩ := exists_of_mapM_eq_ok hreferents a ha
    obtain ⟨e, he, hreferent⟩ := List.mem_flatMap.1 hreferent
    cases referent with
    | named name => exact .inr ⟨name, .inr (.inr ⟨e, he, hreferent⟩), ha⟩
    | base => exact .inl (Except.ok.inj ha).symm

theorem declared_of_locate {source name : String} {a : Artifact} (h : l.locate source name = .ok a)
    (hknows : l.table.knows name = true) : l.Declared a := by
  unfold locate at h
  split at h
  · next own hown =>
    obtain rfl := Except.ok.inj h
    exact .inr ⟨own, hown, rfl⟩
  · next hnone =>
    have hroot : l.table.isRoot name = true := by
      have hhas : l.table.has name = false := by
        rw [Bool.eq_false_iff, Ne, ClassTable.has_iff]
        rintro ⟨own, hown⟩
        rw [hnone] at hown
        exact nomatch hown
      simpa [ClassTable.knows, hhas] using hknows
    rw [if_pos hroot] at h
    exact .inl (Except.ok.inj h).symm

/-- Where the root has no record, a name says which class is meant. -/
theorem Declared.eq_of_name_eq {a b : Artifact} (ha : l.Declared a) (hb : l.Declared b)
    (hroot : l.table.get? l.table.root = none) (h : a.name = b.name) : a = b := by
  have hbase : l.base.name = l.table.root := rfl
  rcases ha with rfl | ⟨own, hown, ha⟩ <;> rcases hb with rfl | ⟨own', hown', hb⟩
  · rfl
  · rw [← h, hbase, hroot] at hown'
    exact nomatch hown'
  · rw [h, hbase, hroot] at hown
    exact nomatch hown
  · rw [h, hown'] at hown
    obtain rfl := Option.some.inj hown
    rw [ha, hb, h]

/-- What the references of a class hold. Under every name stands the last artifact imported under it, so an
artifact that shares its name with no other one has its entry, which leads to its override or to its
generated module. Where a class refers only to what its table knows, and the root has no record, no two
of them share a name. -/
theorem references_entry (h : l.references r file = .ok refs) :
    ∃ parent others, l.parent r = .ok parent ∧ l.named r = .ok others ∧
      let artifacts := imported r parent others
      (∀ name : String,
        refs[name]? = (artifacts.reverse.find? (·.name = name)).map (l.describe file)) ∧
      (∀ a ∈ artifacts, (∀ b ∈ artifacts, b.name = a.name → b = a) →
        ∃ ref, refs[a.name]? = some ref ∧ ref.className = a.name ∧ ref.file = l.moduleOf a) ∧
      (l.table.get? l.table.root = none → (∀ name, r.RefersTo name → l.table.knows name = true) →
        ∀ a ∈ artifacts, ∀ b ∈ artifacts, b.name = a.name → b = a) := by
  obtain ⟨parent, others, hparent, hothers, rfl⟩ := references_eq_ok h
  refine ⟨parent, others, hparent, hothers, getElem?_references _, fun a ha unique => ?_, ?_⟩
  · refine ⟨l.describe file a, ?_, rfl, rfl⟩
    rw [getElem?_references, find?_reverse_of_unique ha unique, Option.map_some]
  · intro hroot hknown a ha b hb hname
    have hdeclared : ∀ c ∈ imported r parent others, l.Declared c := by
      intro c hc
      have hc : c = l.base ∨ ∃ name, r.RefersTo name ∧ l.locate r.className name = .ok c := by
        rcases List.mem_cons.1 hc with rfl | hc
        · exact base_or_locate_of_parent hparent
        · exact base_or_locate_of_named hothers c (List.mem_filter.1 hc).1
      rcases hc with rfl | ⟨name, hrefers, hlocate⟩
      · exact .inl rfl
      · exact declared_of_locate hlocate (hknown name hrefers)
    exact (hdeclared b hb).eq_of_name_eq (hdeclared a ha) hroot hname

/-- A scene depends on a class and on a file that has the name of that class and lies elsewhere. -/
def sceneRecord : ClassRecord := (ClassRecord.empty.withDependency "Mesh").withDependency "extras/Mesh"

def sceneLinker : Linker where
  table := ClassTable.ofRecords [("Mesh", .located "objects/Mesh"), ("Scene", sceneRecord)] .empty
  placement := ⟨.javascript, ⟨"out"⟩⟩
  overridden := fun _ => false
  basePath := defaultBasePath "Three"

def scene : Resolved := sceneLinker.table.merge "Scene" sceneRecord none

def sceneFile : Path := ⟨"out/Scene.autogen.js"⟩

theorem references_entry_base : sceneLinker.table.resolve "Scene" = .ok scene ∧
    ∃ refs ref, sceneLinker.references scene sceneFile = .ok refs ∧ refs["Three"]? = some ref ∧
      ref.className = "Three" ∧ ref.file = ⟨"out/_base/Three.autogen.js"⟩ := by
  have hscene : sceneLinker.table.resolve "Scene" = .ok scene := by cbv
  have hreferences : ∃ refs, sceneLinker.references scene sceneFile = .ok refs := ⟨_, rfl⟩
  obtain ⟨refs, hrefs⟩ := hreferences
  obtain ⟨parent, others, hparent, hothers, -, hentry, -⟩ := references_entry hrefs
  obtain rfl : sceneLinker.base = parent := Except.ok.inj hparent
  obtain rfl : [⟨"Mesh", "Mesh", "objects/Mesh"⟩, ⟨"Mesh", "Mesh", "extras/Mesh"⟩] = others :=
    Except.ok.inj hothers
  obtain ⟨ref, href, hname, hfile⟩ := hentry sceneLinker.base List.mem_cons_self (by decide)
  exact ⟨hscene, refs, ref, hrefs, href, hname, hfile⟩

/-- The entry of the class is lost to the file of its name. -/
theorem references_lose_mesh : ∃ refs,
    sceneLinker.references scene sceneFile = .ok refs ∧ "Mesh" ∈ scene.dependencies ∧
      sceneLinker.locate "Scene" "Mesh" = .ok ⟨"Mesh", "Mesh", "objects/Mesh"⟩ ∧
      sceneLinker.moduleOf ⟨"Mesh", "Mesh", "objects/Mesh"⟩ = ⟨"out/objects/Mesh.autogen.js"⟩ ∧
      refs["Mesh"]?.map (·.file) = some ⟨"out/extras/Mesh.autogen.js"⟩ := by
  have hreferences : ∃ refs, sceneLinker.references scene sceneFile = .ok refs := ⟨_, rfl⟩
  obtain ⟨refs, hrefs⟩ := hreferences
  refine ⟨refs, hrefs, by decide, rfl, by decide, ?_⟩
  obtain ⟨parent, others, hparent, hothers, rfl⟩ := references_eq_ok hrefs
  obtain rfl : sceneLinker.base = parent := Except.ok.inj hparent
  obtain rfl : [⟨"Mesh", "Mesh", "objects/Mesh"⟩, ⟨"Mesh", "Mesh", "extras/Mesh"⟩] = others :=
    Except.ok.inj hothers
  rw [getElem?_references]
  decide

end Linker
end WrapperGen
