import WrapperGen.Proofs.Inheritance.Properties
import WrapperGen.Proofs.Wrapper.Conditions

/-!
# Parameters of an initializer

The initializer of a package wrapper takes the properties that the constructor arguments name, in their
order. The names of a class's own properties are looked at when its wrapper is built, but an argument may name
a property of a class further up, and the arguments are not compared with each other.
-/

namespace WrapperGen

/-- The property a constructor argument names, if it is not the object of all own properties. -/
def Argument.property? : Argument → Option String
  | .property name => some name
  | .parameters => none

/-- The properties that the constructor arguments of a class name, in order. -/
def Resolved.listed (r : Resolved) : List String := r.arguments.filterMap Argument.property?

theorem Resolved.mem_listed {r : Resolved} {a : String} : a ∈ r.listed ↔ .property a ∈ r.arguments := by
  simp only [listed, List.mem_filterMap]
  constructor
  · rintro ⟨argument, hmem, hname⟩
    cases argument with
    | property name =>
      obtain rfl : name = a := Option.some.inj hname
      exact hmem
    | parameters => exact nomatch hname
  · exact fun hmem => ⟨_, hmem, rfl⟩

theorem Resolved.count_listed (r : Resolved) (a : String) :
    r.listed.count a = r.arguments.count (.property a) := by
  rw [listed]
  induction r.arguments with
  | nil => rfl
  | cons argument rest ih =>
    cases argument with
    | property name => by_cases h : name = a <;> simp [Argument.property?, ih, h]
    | parameters =>
      rw [List.filterMap_cons_none rfl, List.count_cons_of_ne (by simp), ih]

namespace Wrapper

variable {r : Resolved} {settings : Settings} {s : Subject} {w : Wrapper}

theorem map_name_of_initParameters {parameters : List Parameter}
    (h : initParameters r = .ok parameters) : parameters.map (·.name) = r.listed := by
  rw [initParameters] at h
  cases hm : r.arguments.mapM (initParameter r) with
  | error e =>
    rw [hm] at h
    cases h
  | ok given =>
    rw [hm] at h
    obtain rfl : given.filterMap id = parameters := Except.ok.inj h
    have hname : ∀ argument parameter, initParameter r argument = .ok parameter →
        parameter.map (·.name) = argument.property? := by
      intro argument parameter hgiven
      cases argument with
      | parameters => exact Except.ok.inj hgiven ▸ rfl
      | property name =>
        obtain ⟨p, -, hgiven⟩ := bind_eq_ok_iff.1 hgiven
        split at hgiven
        · exact Except.ok.inj hgiven ▸ rfl
        · cases hgiven
    have hnames := map_eq_map_of_mapM_eq_ok hname hm
    calc (given.filterMap id).map (·.name)
      _ = (given.map fun parameter => parameter.map (·.name)).filterMap id := by
        rw [List.map_filterMap, List.filterMap_map]
        rfl
      _ = r.listed := by
        rw [hnames, List.filterMap_map]
        rfl

theorem initParameters_of_build (h : build settings .python s = .ok w) :
    initParameters s.resolved = .ok w.parameters := by
  obtain ⟨_, -, h⟩ := bind_eq_ok_iff.1 h
  obtain ⟨_, -, h⟩ := bind_eq_ok_iff.1 h
  obtain ⟨parameters, hparameters, h⟩ := bind_eq_ok_iff.1 h
  rw [hparameters, ← Except.ok.inj h]

end Wrapper

namespace Generator

variable {g : Generator} {r : Resolved} {w : Wrapper} {c : String}

/-- Where a wrapper is built, the own properties have identifiers as names, and the arguments are properties. -/
theorem named_of_wrapper (h : g.wrapper r = .ok w) :
    (∀ a ∈ r.ownProperties.names, Symbol.isIdentifier a = true) ∧
      ∀ a, .property a ∈ r.arguments → a ∈ r.allProperties.names := by
  obtain ⟨s, hs, hbuild⟩ := wrapper_eq_ok_iff.1 h
  obtain ⟨_, _, -, -, rfl⟩ := subject_eq_ok hs
  obtain ⟨hidentified, -, hdeclared, -⟩ := Wrapper.exists_build_iff.1 ⟨w, hbuild⟩
  refine ⟨fun a ha => ?_, hdeclared⟩
  obtain ⟨e, he, rfl⟩ := List.mem_map.1 ha
  exact hidentified e he

theorem map_name_parameters (h : g.wrapper r = .ok w) (hpython : g.target = .python) :
    w.parameters.map (·.name) = r.listed := by
  obtain ⟨s, hs, hbuild⟩ := wrapper_eq_ok_iff.1 h
  obtain ⟨_, _, -, -, rfl⟩ := subject_eq_ok hs
  rw [hpython] at hbuild
  exact Wrapper.map_name_of_initParameters (Wrapper.initParameters_of_build hbuild)

/-- A property of a class that is not its own is the own property of a class further up. -/
theorem exists_above_of_inherited {t : ClassTable} (h : t.resolve c = .ok r) {a : String}
    (ha : a ∈ r.allProperties.names) (hown : a ∉ r.ownProperties.names) :
    ∃ line d above, t.Lineage c line ∧ d ∈ line.names ∧ d ≠ c ∧ t.resolve d = .ok above ∧
      a ∈ above.ownProperties.names := by
  obtain ⟨line, lineage, hmerged⟩ := ClassTable.resolve_eq_ok_iff.1 h
  have overlay := ClassTable.overlay_merged hmerged
  obtain ⟨⟨d, own⟩, hmem, hdeclared⟩ := (overlay.mem a).1 ha
  obtain ⟨front, rest, hline⟩ := List.append_of_mem hmem
  have hlineage : t.Lineage d ((d, own) :: rest) := (hline ▸ lineage).of_append
  refine ⟨line, d, t.merge d own (t.merged rest), lineage, List.mem_map_of_mem hmem, ?_,
    ClassTable.resolve_eq_ok_iff.2 ⟨_, hlineage, rfl⟩, hdeclared⟩
  rintro rfl
  obtain ⟨record, above, hrecord, rfl⟩ := ClassTable.resolve_eq_merge h
  obtain rfl : record = own := Option.some.inj (hrecord.symm.trans (lineage.get? _ hmem))
  exact hown hdeclared

/-- The initializer of a package wrapper takes the properties that the constructor arguments name, in order.
No parameter comes twice exactly if no argument does, and all parameters are identifiers exactly if those
are that no own property has as its name. A parameter that is not an identifier is the own property of a
class further up, for which no wrapper can be built at all. -/
theorem parameters_sound_iff (s : Settings) (t : ClassTable) (overridden : Path → Bool)
    (hr : t.resolve c = .ok r) (hw : (⟨s, t, .python, overridden⟩ : Generator).wrapper r = .ok w) :
    w.parameters.map (·.name) = r.listed ∧
    ((w.parameters.map (·.name)).Nodup ↔ ∀ a, r.arguments.count (.property a) ≤ 1) ∧
    ((∀ p ∈ w.parameters, Symbol.isIdentifier p.name = true) ↔
      ∀ a, .property a ∈ r.arguments → a ∉ r.ownProperties.names → Symbol.isIdentifier a = true) ∧
    ∀ p ∈ w.parameters, Symbol.isIdentifier p.name = false →
      ∃ line d above, t.Lineage c line ∧ d ∈ line.names ∧ d ≠ c ∧ t.resolve d = .ok above ∧
        p.name ∈ above.ownProperties.names ∧
        ∀ g : Generator, g.table = t → ∀ v, g.wrapper above ≠ .ok v := by
  have hnames := map_name_parameters hw rfl
  obtain ⟨hidentified, hdeclared⟩ := named_of_wrapper hw
  have hlisted : ∀ p ∈ w.parameters, .property p.name ∈ r.arguments := fun p hp =>
    Resolved.mem_listed.1 (hnames ▸ List.mem_map_of_mem hp)
  refine ⟨hnames, ?_, ⟨fun h a ha _ => ?_, fun h p hp => ?_⟩, fun p hp hbad => ?_⟩
  · rw [hnames, List.nodup_iff_count_le_one]
    exact forall_congr' fun a => by rw [r.count_listed]
  · obtain ⟨p, hp, rfl⟩ := List.mem_map.1 (hnames ▸ Resolved.mem_listed.2 ha)
    exact h p hp
  · by_cases hown : p.name ∈ r.ownProperties.names
    · exact hidentified _ hown
    · exact h _ (hlisted p hp) hown
  · have hown : p.name ∉ r.ownProperties.names := fun hown => by simp [hidentified _ hown] at hbad
    obtain ⟨line, d, above, lineage, hd, hother, habove, hp⟩ :=
      exists_above_of_inherited hr (hdeclared _ (hlisted p hp)) hown
    refine ⟨line, d, above, lineage, hd, hother, habove, hp, fun g _ v hv => ?_⟩
    simp [(named_of_wrapper hv).1 _ hp] at hbad

def hoopRecord : ClassRecord := ClassRecord.empty.withProperty "inner-radius" (.float none false)

def cuffRecord : ClassRecord :=
  ((ClassRecord.empty.extending "Hoop").withProperty "width" (.float none false)).withArguments
    ["inner-radius", "width", "parameters", "width"]

/-- A class that is constructed with one of its properties twice, and with one of its superclass that no
initializer can take. -/
def cuffTable : ClassTable := .ofRecords [("Hoop", hoopRecord), ("Cuff", cuffRecord)] .empty

def cuffGenerator : Generator := ⟨{}, cuffTable, .python, fun _ => false⟩

theorem cuff_resolved : ∃ r w, cuffTable.resolve "Cuff" = .ok r ∧ cuffGenerator.wrapper r = .ok w ∧
    r.arguments = [.property "inner-radius", .property "width", .parameters, .property "width"] := by
  let hoop := cuffTable.merge "Hoop" hoopRecord none
  let cuff := cuffTable.merge "Cuff" cuffRecord (some hoop)
  have hcuff : cuffTable.resolve "Cuff" = .ok cuff := by cbv
  have hwrapper : (cuffGenerator.wrapper cuff).isOk = true := by decide +kernel
  cases hw : cuffGenerator.wrapper cuff with
  | error e => simp [hw, Except.isOk, Except.toBool] at hwrapper
  | ok w => exact ⟨cuff, w, hcuff, hw, by decide +kernel⟩

theorem parameters_sound_iff_cuff : ∃ r w, cuffTable.resolve "Cuff" = .ok r ∧
    cuffGenerator.wrapper r = .ok w ∧
    w.parameters.map (·.name) = ["inner-radius", "width", "width"] ∧
    (w.parameters.map (·.name)).count "width" = 2 := by
  obtain ⟨r, w, hr, hw, harguments⟩ := cuff_resolved
  obtain ⟨hnames, -⟩ := parameters_sound_iff {} cuffTable _ hr hw
  have hlisted : r.listed = ["inner-radius", "width", "width"] := by
    rw [Resolved.listed, harguments]
    rfl
  exact ⟨r, w, hr, hw, hnames.trans hlisted, by rw [hnames, hlisted]; decide⟩

/-- The wrapper is built, with a parameter that comes twice and one that is not an identifier. -/
theorem cuff_parameters_unsound : ∃ r w, cuffTable.resolve "Cuff" = .ok r ∧
    cuffGenerator.wrapper r = .ok w ∧ ¬ (w.parameters.map (·.name)).Nodup ∧
    ∃ p ∈ w.parameters, Symbol.isIdentifier p.name = false := by
  obtain ⟨r, w, hr, hw, harguments⟩ := cuff_resolved
  have hnames : w.parameters.map (·.name) = ["inner-radius", "width", "width"] := by
    rw [map_name_parameters hw rfl, Resolved.listed, harguments]
    rfl
  obtain ⟨p, hp, hname⟩ : ∃ p ∈ w.parameters, p.name = "inner-radius" :=
    List.mem_map.1 (by rw [hnames]; decide)
  exact ⟨r, w, hr, hw, by rw [hnames]; decide, p, hp, by rw [hname]; decide⟩

end Generator
end WrapperGen
