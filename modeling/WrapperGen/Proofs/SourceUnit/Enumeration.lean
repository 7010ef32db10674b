import WrapperGen.Enumeration
import WrapperGen.Proofs.Inheritance.Walk
import WrapperGen.Proofs.UnitPath.Normal

/-!
# Enumeration from the table

Without a library the units are those of the primary classes, whose names are the last segments of their unit
paths. A unit path is normalized once more when its unit is made, which cuts off one more extension. So the
units are those of the primary classes exactly if this changes nothing for the classes that are primary before
it or after it.
-/

namespace WrapperGen

namespace SourceUnit

variable {t : ClassTable} {name path : String} {u : SourceUnit}

/-- The unit of a class whose name is the last segment of its unit path, where a unit path is read by `read`. -/
def unitAs? (read : String → String) (t : ClassTable) (name : String) : Option SourceUnit :=
  match t.unitPath name with
  | .ok path => if UnitPath.unitName (read path) = name then some ⟨read path, name⟩ else none
  | .error _ => none

/-- The units of the primary classes, in table order. -/
def primaries (t : ClassTable) : List SourceUnit := t.names.filterMap (unitAs? id t)

theorem unitAs?_eq_some_iff {read : String → String} : unitAs? read t name = some u ↔
    ∃ path, t.unitPath name = .ok path ∧ UnitPath.unitName (read path) = name ∧ u = ⟨read path, name⟩ := by
  unfold unitAs?
  cases t.unitPath name with
  | error e => simp
  | ok path => simp [eq_comm]

theorem className_of_unitAs? {read : String → String} (h : unitAs? read t name = some u) :
    u.className = name := by
  obtain ⟨path, -, -, rfl⟩ := unitAs?_eq_some_iff.1 h
  rfl

/-- A unit tells the name of its class, so the list of all units gives back the unit of each class. -/
theorem unitAs?_eq_some_iff_mem {read : String → String} (h : name ∈ t.names) :
    unitAs? read t name = some u ↔ u ∈ t.names.filterMap (unitAs? read t) ∧ u.className = name := by
  refine ⟨fun hu => ⟨List.mem_filterMap.2 ⟨name, h, hu⟩, className_of_unitAs? hu⟩, ?_⟩
  rintro ⟨hu, rfl⟩
  obtain ⟨other, -, hother⟩ := List.mem_filterMap.1 hu
  rwa [← className_of_unitAs? hother] at hother

/-- Two ways to read unit paths give the same unit to a class exactly if they agree on its unit path, or both
give it none. -/
theorem unitAs?_eq_unitAs?_iff {read read' : String → String} (h : t.unitPath name = .ok path) :
    unitAs? read t name = unitAs? read' t name ↔
      (UnitPath.unitName (read path) = name ∨ UnitPath.unitName (read' path) = name →
        read path = read' path) := by
  have hread : ∀ {r : String → String}, UnitPath.unitName (r path) = name →
      unitAs? r t name = some ⟨r path, name⟩ := fun hname =>
    unitAs?_eq_some_iff.2 ⟨path, h, hname, rfl⟩
  have hunit : ∀ {r : String → String} {u}, unitAs? r t name = some u → u.unitPath = r path := by
    intro r u hu
    obtain ⟨path', hpath, -, rfl⟩ := unitAs?_eq_some_iff.1 hu
    rw [Except.ok.inj (h.symm.trans hpath)]
  constructor
  · -- The reading that gives a unit decides its path, and the other one gives the same unit.
    rintro hsame (hname | hname)
    · exact hunit (hsame.symm.trans (hread hname))
    · exact (hunit (hsame.trans (hread hname))).symm
  · intro hagree
    refine Option.ext fun u => ?_
    rw [unitAs?_eq_some_iff, unitAs?_eq_some_iff]
    refine exists_congr fun path' => and_congr_right fun hpath => ?_
    obtain rfl := Except.ok.inj (h.symm.trans hpath)
    constructor
    · rintro ⟨hname, rfl⟩
      have hsame := hagree (.inl hname)
      exact ⟨hsame ▸ hname, by rw [hsame]⟩
    · rintro ⟨hname, rfl⟩
      have hsame := hagree (.inr hname)
      exact ⟨hsame ▸ hname, by rw [hsame]⟩

theorem filterMap_unitAs?_eq_iff {read read' : String → String} :
    t.names.filterMap (unitAs? read t) = t.names.filterMap (unitAs? read' t) ↔
      ∀ name path, t.unitPath name = .ok path →
        UnitPath.unitName (read path) = name ∨ UnitPath.unitName (read' path) = name →
          read path = read' path := by
  constructor
  · intro h name path hpath
    have hname := ClassTable.has_iff_mem.1 (ClassTable.has_iff_exists_unitPath.2 ⟨path, hpath⟩)
    refine (unitAs?_eq_unitAs?_iff hpath).1 (Option.ext fun u => ?_)
    rw [unitAs?_eq_some_iff_mem hname, unitAs?_eq_some_iff_mem hname, h]
  · intro h
    refine List.filterMap_congr fun name hname => ?_
    obtain ⟨path, hpath⟩ := ClassTable.has_iff_exists_unitPath.1 (ClassTable.has_iff_mem.2 hname)
    exact (unitAs?_eq_unitAs?_iff hpath).2 (h name path hpath)

/-- Making the unit of a unit path normalizes it. -/
theorem unitAs?_normalize (h : t.unitPath name = .ok path) :
    unitAs? UnitPath.normalize t name =
      if (ofPath path).className = name then some (ofPath path) else none := by
  have hclass : (ofPath path).className = UnitPath.unitName (UnitPath.normalize path) := by
    simp only [ofPath]
  by_cases hname : UnitPath.unitName (UnitPath.normalize path) = name
  · have hunit : ofPath path = ⟨UnitPath.normalize path, name⟩ := by
      simp only [ofPath, hname]
    rw [if_pos (hclass.trans hname), hunit]
    simp only [unitAs?, h, if_pos hname]
  · rw [if_neg (hclass ▸ hname)]
    simp only [unitAs?, h, if_neg hname]

theorem ofTable_eq (t : ClassTable) : ofTable t = t.names.filterMap (unitAs? UnitPath.normalize t) := by
  rw [ClassTable.names, Keyed.names, Named.names, List.filterMap_map, ofTable]
  refine List.filterMap_congr fun e he => ?_
  exact (unitAs?_normalize (ClassTable.unitPath_of_mem he)).symm

theorem mem_ofTable_iff : u ∈ ofTable t ↔ ∃ path, t.unitPath u.className = .ok path ∧
    u.unitPath = UnitPath.normalize path ∧ UnitPath.unitName u.unitPath = u.className := by
  rw [ofTable_eq, List.mem_filterMap]
  constructor
  · rintro ⟨name, -, hunit⟩
    obtain ⟨path, hpath, hname, rfl⟩ := unitAs?_eq_some_iff.1 hunit
    exact ⟨path, hpath, rfl, hname⟩
  · rintro ⟨path, hpath, hunit, hname⟩
    have hmem := ClassTable.has_iff_mem.1 (ClassTable.has_iff_exists_unitPath.2 ⟨path, hpath⟩)
    refine ⟨u.className, hmem, unitAs?_eq_some_iff.2 ⟨path, hpath, ?_, ?_⟩⟩
    · rw [← hunit, hname]
    · rw [← hunit]

/-- Units come in table order, and no class has two. -/
theorem classNames_ofTable_sublist (t : ClassTable) : ((ofTable t).map (·.className)).Sublist t.names := by
  have hnames : (ofTable t).map (·.className) =
      t.names.filter fun n => (unitAs? UnitPath.normalize t n).isSome := by
    rw [ofTable_eq, List.map_filterMap, ← List.filterMap_eq_filter]
    refine List.filterMap_congr fun n _ => ?_
    cases hunit : unitAs? UnitPath.normalize t n with
    | none => simp [Option.guard, hunit]
    | some u => simp [Option.guard, hunit, className_of_unitAs? hunit]
  rw [hnames]
  exact List.filter_sublist

/-- A class whose unit path is normal is enumerated exactly if it is primary, and then with this path. -/
theorem mem_ofTable_iff_of_isNormal (h : t.unitPath name = .ok path) (hnormal : UnitPath.IsNormal path)
    (unitPath : String) :
    ⟨unitPath, name⟩ ∈ ofTable t ↔ unitPath = path ∧ UnitPath.unitName path = name := by
  rw [mem_ofTable_iff]
  constructor
  · rintro ⟨path', hpath, hunit, hname⟩
    obtain rfl := Except.ok.inj (h.symm.trans hpath)
    have hsame : unitPath = path := hunit.trans hnormal.normalize_eq
    exact ⟨hsame, hsame ▸ hname⟩
  · rintro ⟨rfl, hname⟩
    exact ⟨unitPath, h, hnormal.normalize_eq.symm, hname⟩

theorem not_mem_ofTable (h : t.unitPath name = .ok path) (hnormal : ¬ UnitPath.IsNormal path) :
    ⟨path, name⟩ ∉ ofTable t := by
  rw [mem_ofTable_iff]
  rintro ⟨path', hpath, hunit, -⟩
  obtain rfl := Except.ok.inj (h.symm.trans hpath)
  exact hnormal (UnitPath.normalize_eq_self_iff.1 hunit.symm)

/-- The classes enumerated are those whose names are the last segments of their unit paths normalized once more,
in table order. A class whose unit path is normal is enumerated exactly if it is primary; with a unit path that
is not normal it is not enumerated there. So the primary classes are found, and no others, exactly if all unit
paths are normal of the classes that are primary before or after they are normalized once more. -/
theorem ofTable_eq_primaries_iff (t : ClassTable) :
    (∀ u, u ∈ ofTable t ↔ ∃ path, t.unitPath u.className = .ok path ∧
      u.unitPath = UnitPath.normalize path ∧ UnitPath.unitName u.unitPath = u.className) ∧
    ((ofTable t).map (·.className)).Sublist t.names ∧
    (∀ name path, t.unitPath name = .ok path → UnitPath.IsNormal path → ∀ unitPath,
      (⟨unitPath, name⟩ ∈ ofTable t ↔ unitPath = path ∧ UnitPath.unitName path = name)) ∧
    (∀ name path, t.unitPath name = .ok path → ¬ UnitPath.IsNormal path → ⟨path, name⟩ ∉ ofTable t) ∧
    (ofTable t = primaries t ↔ ∀ name path, t.unitPath name = .ok path →
      UnitPath.unitName (UnitPath.normalize path) = name ∨ UnitPath.unitName path = name →
        UnitPath.IsNormal path) := by
  refine ⟨fun u => mem_ofTable_iff, classNames_ofTable_sublist t,
    fun _ _ h hnormal => mem_ofTable_iff_of_isNormal h hnormal, fun _ _ => not_mem_ofTable, ?_⟩
  rw [ofTable_eq, primaries, filterMap_unitAs?_eq_iff]
  simp only [id_eq, UnitPath.normalize_eq_self_iff]

/-- A primary class, another one at its unit path, and one at a unit path that is not normal. -/
def ringTable : ClassTable :=
  .ofRecords [("Ring", .located "geometries/Ring"), ("RingOutline", .located "./geometries/Ring.js"),
    ("Loader", .located "lib/three.min.js")] .empty

theorem ofTable_eq_primaries_ring :
    let t := ringTable
    t.unitPath "Ring" = .ok "geometries/Ring" ∧ UnitPath.IsNormal "geometries/Ring" ∧
      ⟨"geometries/Ring", "Ring"⟩ ∈ ofTable t ∧
      t.unitPath "RingOutline" = .ok "geometries/Ring" ∧ ⟨"geometries/Ring", "RingOutline"⟩ ∉ ofTable t ∧
      t.unitPath "Loader" = .ok "lib/three.min" ∧ ¬ UnitPath.IsNormal "lib/three.min" ∧
      ⟨"lib/three.min", "Loader"⟩ ∉ ofTable t ∧
      ofTable t = primaries t := by
  intro t
  obtain ⟨-, -, hnormal, hother, hprimaries⟩ := ofTable_eq_primaries_iff t
  have hring : t.unitPath "Ring" = .ok "geometries/Ring" := by decide +kernel
  have houtline : t.unitPath "RingOutline" = .ok "geometries/Ring" := by decide +kernel
  have hloader : t.unitPath "Loader" = .ok "lib/three.min" := by decide +kernel
  have hall : ofTable t = primaries t := by decide +kernel
  have hpath : UnitPath.IsNormal "geometries/Ring" :=
    hprimaries.1 hall "Ring" _ hring (.inr (by decide +kernel))
  have hdot : ¬ UnitPath.IsNormal "lib/three.min" := fun h => absurd h.noExtension (by decide +kernel)
  have hfirst := (hnormal "Ring" _ hring hpath "geometries/Ring").2 ⟨rfl, by decide +kernel⟩
  refine ⟨hring, hpath, hfirst, houtline, fun hmem => ?_, hloader, hdot, hother _ _ hloader hdot, hall⟩
  exact absurd ((hnormal _ _ houtline hpath _).1 hmem).2 (by decide +kernel)

/-- A class with a dot in its name is primary and not enumerated, and one that loses a dot in its path is
enumerated and not primary. -/
theorem ofTable_misses_dotted :
    let dotted : ClassTable := .ofRecords [("A.B", .empty)] .empty
    let plain : ClassTable := .ofRecords [("A", .located "A.B.js")] .empty
    dotted.unitPath "A.B" = .ok "A.B" ∧ primaries dotted = [⟨"A.B", "A.B"⟩] ∧ ofTable dotted = [] ∧
      plain.unitPath "A" = .ok "A.B" ∧ primaries plain = [] ∧ ofTable plain = [⟨"A", "A"⟩] := by
  decide +kernel

end SourceUnit
end WrapperGen
