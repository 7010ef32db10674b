import WrapperGen.Proofs.Inheritance.Outcome

/-!
# Inherited properties

The properties of a resolved class, read off its lineage: the declaration nearest to the class wins, and
a name stands where it is first declared when the lineage is read from the top.
-/

namespace WrapperGen.ClassTable

variable {t : ClassTable}

/-- The names declared in a lineage, from the top down. -/
def declaredNames (line : Named ClassRecord) : List String :=
  line.reverse.flatMap fun e => e.2.properties.names

/-- The nearest declaration of a name in a lineage. -/
def nearest? (line : Named ClassRecord) (name : String) : Option Property :=
  line.findSome? fun e => e.2.properties.get? name

theorem declaredNames_cons (e : String × ClassRecord) (line : Named ClassRecord) :
    declaredNames (e :: line) = declaredNames line ++ e.2.properties.names := by
  simp [declaredNames]

theorem mem_declaredNames {line : Named ClassRecord} {name : String} :
    name ∈ declaredNames line ↔ ∃ e ∈ line, name ∈ e.2.properties.names := by
  simp [declaredNames]

theorem inherited_cons (e : String × ClassRecord) (line : Named ClassRecord) :
    Resolved.inherited (t.merged (e :: line)) =
      (Resolved.inherited (t.merged line)).setAll e.2.properties.entries := rfl

theorem inherited_get? (line : Named ClassRecord) (name : String) :
    (Resolved.inherited (t.merged line)).get? name = nearest? line name := by
  induction line with
  | nil => rfl
  | cons e line ih =>
    rw [inherited_cons, Keyed.get?_setAll, ih, nearest?, nearest?, List.findSome?_cons]
    cases e.2.properties.get? name with
    | none => rfl
    | some p => rfl

theorem inherited_names (line : Named ClassRecord) :
    (Resolved.inherited (t.merged line)).names = (declaredNames line).eraseDups := by
  induction line with
  | nil => rfl
  | cons e line ih =>
    rw [inherited_cons, declaredNames_cons]
    exact Keyed.names_setAll ih _

/-- How the properties of a resolved class come from its lineage. -/
structure Overlay (line : Named ClassRecord) (r : Resolved) : Prop where
  mem : ∀ name, name ∈ r.allProperties.names ↔ ∃ e ∈ line, name ∈ e.2.properties.names
  nearest : ∀ name, r.allProperties.get? name = nearest? line name
  order : r.allProperties.names = (declaredNames line).eraseDups
  distinct : r.allProperties.names.Nodup
  own : (line.head?.map fun e => e.2.properties) = some r.ownProperties

theorem overlay_merged {line : Named ClassRecord} {r : Resolved} (h : t.merged line = some r) :
    Overlay line r := by
  have hall : r.allProperties = Resolved.inherited (t.merged line) := by rw [h]; rfl
  have horder : r.allProperties.names = (declaredNames line).eraseDups := by
    rw [hall, inherited_names]
  refine ⟨fun name => ?_, fun name => ?_, horder, r.allProperties.distinct, ?_⟩
  · rw [horder, List.mem_eraseDups, mem_declaredNames]
  · rw [hall, inherited_get?]
  · cases line with
    | nil => cases h
    | cons e above =>
      obtain rfl := Option.some.inj h
      rfl

/-- The table with other default properties. -/
def withDefaultProperties (t : ClassTable) (properties : Keyed Property) : ClassTable :=
  { t with defaults := { t.defaults with properties } }

theorem climb_withDefaultProperties (t : ClassTable) (properties : Keyed Property) (memo : Memo)
    (start : String) (fuel : Nat) (a : Ascent) :
    (t.withDefaultProperties properties).climb memo start fuel a = t.climb memo start fuel a := by
  induction fuel generalizing a with
  | zero => rfl
  | succ fuel ih =>
    have hstep : (t.withDefaultProperties properties).climbStep memo start a =
        t.climbStep memo start a := rfl
    simp only [climb, hstep]
    cases t.climbStep memo start a with
    | onward b => exact ih b
    | ended outcome => rfl

theorem mergeDown_withDefaultProperties (t : ClassTable) (properties : Keyed Property) (memo : Memo)
    (above : Option Resolved) (links : Named ClassRecord) :
    (t.withDefaultProperties properties).mergeDown memo above links =
      t.mergeDown memo above links := by
  induction links generalizing memo above with
  | nil => rfl
  | cons e links ih => exact ih _ _

theorem resolve_withDefaultProperties (t : ClassTable) (properties : Keyed Property) (c : String) :
    (t.withDefaultProperties properties).resolve c = t.resolve c := by
  simp only [resolve, resolveWith, ascend, climb_withDefaultProperties,
    mergeDown_withDefaultProperties]
  rfl

/-- The properties of a class are those of its lineage, the nearest declaration winning in the place of
the first one. What the defaults say on properties has no effect. -/
theorem resolve_properties {c : String} {r : Resolved} (h : t.resolve c = .ok r) :
    ∃ line, t.Lineage c line ∧ Overlay line r ∧
      ∀ properties, (t.withDefaultProperties properties).resolve c = .ok r := by
  obtain ⟨line, lineage, hmerged⟩ := resolve_eq_ok_iff.1 h
  refine ⟨line, lineage, overlay_merged hmerged, fun properties => ?_⟩
  rw [resolve_withDefaultProperties, h]

/-- The record of a class at the top, with one property. -/
def baseRecord : ClassRecord :=
  (ClassRecord.located "./core/Base.js").withProperty "color" (.color none false)

/-- A ring is a shape with an inner radius and a color of another kind than all shapes have. -/
def ringTable : ClassTable :=
  ofRecords
    [("Base", baseRecord),
      ("Shape", (ClassRecord.empty.extending "Base").withProperty "radius" (.float none false)),
      ("Ring", ((ClassRecord.empty.extending "Shape").withProperty "innerRadius" (.float none false)
        ).withProperty "color" (.string none true))]
    (ClassRecord.empty.withProperty "visible" (.bool none false))

theorem resolve_properties_ring : ∃ r, ringTable.resolve "Ring" = .ok r ∧
    r.allProperties.names = ["color", "radius", "innerRadius"] ∧
    r.allProperties.get? "color" = some (.string none true) ∧
    ∃ line, ringTable.Lineage "Ring" line ∧ Overlay line r ∧
      ∀ properties, (ringTable.withDefaultProperties properties).resolve "Ring" = .ok r := by
  have hring : ∃ r, ringTable.resolve "Ring" = .ok r := ⟨_, by cbv⟩
  obtain ⟨r, hr⟩ := hring
  have hnames : (ringTable.resolve "Ring").map (·.allProperties.names) =
      .ok ["color", "radius", "innerRadius"] := by cbv
  have hcolor : (ringTable.resolve "Ring").map (·.allProperties.get? "color") =
      .ok (some (.string none true)) := by cbv
  rw [hr] at hnames hcolor
  exact ⟨r, hr, Except.ok.inj hnames, Except.ok.inj hcolor, resolve_properties hr⟩

end WrapperGen.ClassTable
