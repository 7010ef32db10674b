import WrapperGen.Proofs.ClassTable.Problems
import WrapperGen.Proofs.Template.Shape
import WrapperGen.Proofs.Wrapper.Stages

/-!
# When a class can be rendered

A class that resolves is rendered exactly if its names lead somewhere, its properties have identifiers
as names and literals as defaults, and its constructor arguments are properties, which for the package
need literals as well. Which overrides stand does not matter.
-/

namespace WrapperGen

theorem Property.defaultLiteral?_eq_none_iff (target : Target) (p : Property) :
    p.defaultLiteral? target = none ↔ p = .any none false := by
  cases p with
  | any d n => cases d <;> cases n <;> simp [defaultLiteral?]
  | _ => simp [defaultLiteral?]

theorem Property.exists_defaultLiteral_iff (target : Target) (p : Property) :
    (∃ literal, p.defaultLiteral? target = some literal) ↔ p ≠ .any none false := by
  rw [← Option.ne_none_iff_exists', Ne, defaultLiteral?_eq_none_iff]

/-- What a resolved class needs in order to be rendered for either target language. -/
structure Renderable (t : ClassTable) (r : Resolved) : Prop where
  linked : ∀ name, name ∈ r.dependencies ∨
      (∃ e ∈ r.ownProperties.entries, .named name ∈ e.2.references) →
    t.has name = true ∨ name = t.root ∨ '/' ∈ name.toList
  identified : ∀ e ∈ r.ownProperties.entries, Symbol.isIdentifier e.1 = true
  initialized : ∀ e ∈ r.ownProperties.entries, e.2 ≠ .any none false
  declared : ∀ a, .property a ∈ r.arguments → a ∈ r.allProperties.names

/-- What the package needs besides: a literal for every argument of the initializer. -/
def Defaulted (r : Resolved) : Prop :=
  ∀ a, .property a ∈ r.arguments → r.allProperties.get? a ≠ some (.any none false)

namespace ClassTable

variable {t : ClassTable} {r : Resolved}

theorem leads_iff {name : String} :
    t.leads name = true ↔ t.has name = true ∨ name = t.root ∨ '/' ∈ name.toList := by
  simp [leads, knows, isRoot, isBarePath, or_assoc]

theorem dangling_eq_nil_iff :
    t.dangling r = [] ↔ ∀ name, name ∈ r.dependencies ∨
      (∃ e ∈ r.ownProperties.entries, .named name ∈ e.2.references) →
        t.has name = true ∨ name = t.root ∨ '/' ∈ name.toList := by
  have hmention : ∀ name, (∃ m ∈ r.mentions, m.name = name) ↔ name ∈ r.dependencies ∨
      ∃ e ∈ r.ownProperties.entries, .named name ∈ e.2.references := by
    intro name
    rw [Resolved.mentions]
    simp only [List.mem_append, List.mem_map, List.mem_flatMap, List.mem_filterMap]
    constructor
    · rintro ⟨m, ⟨name, hname, rfl⟩ | ⟨e, he, referent, hreferent, hm⟩, rfl⟩
      · exact .inl hname
      · cases referent with
        | base => cases hm
        | named c =>
          obtain rfl := Option.some.inj hm
          exact .inr ⟨e, he, hreferent⟩
    · rintro (hname | ⟨e, he, hreferent⟩)
      · exact ⟨⟨name, none⟩, .inl ⟨name, hname, rfl⟩, rfl⟩
      · exact ⟨⟨name, some e.1⟩, .inr ⟨e, he, .named name, hreferent, rfl⟩, rfl⟩
  rw [dangling, List.filter_eq_nil_iff]
  simp only [Bool.not_eq_true', Bool.not_eq_false, ← leads_iff, ← hmention]
  constructor
  · rintro h name ⟨m, hm, rfl⟩
    exact h m hm
  · exact fun h m hm => h m.name ⟨m, hm, rfl⟩

end ClassTable

namespace Wrapper

variable {target : Target} {r : Resolved}

theorem exists_checkNames_iff :
    (∃ u, checkNames r = .ok u) ↔ ∀ e ∈ r.ownProperties.entries, Symbol.isIdentifier e.1 = true := by
  unfold checkNames
  split
  · next name p hfind =>
    have hmem := List.mem_of_find?_eq_some hfind
    have hbad := List.find?_some hfind
    simp only [reduceCtorEq, exists_const, false_iff]
    intro hall
    simp [hall _ hmem] at hbad
  · next hnone =>
    simpa using List.find?_eq_none.1 hnone

theorem exists_fieldsOf_iff (target : Target) (r : Resolved) (base : String) :
    (∃ fields, fieldsOf target r base = .ok fields) ↔
      ∀ e ∈ r.ownProperties.entries, e.2 ≠ .any none false := by
  rw [fieldsOf, exists_mapM_eq_ok_iff]
  refine forall₂_congr fun e _ => ?_
  rw [← Property.exists_defaultLiteral_iff target, fieldOf]
  cases e.2.defaultLiteral? target <;> simp

theorem exists_argumentProperty_iff {a : String} :
    (∃ p, argumentProperty r a = .ok p) ↔ a ∈ r.allProperties.names := by
  rw [← not_iff_not, Keyed.names, ← Named.get?_eq_none_iff, argumentProperty]
  show _ ↔ r.allProperties.get? a = none
  cases r.allProperties.get? a <;> simp

theorem exists_argumentExpressions_iff :
    (∃ expressions, argumentExpressions r = .ok expressions) ↔
      ∀ a, .property a ∈ r.arguments → a ∈ r.allProperties.names := by
  have hproperty : ∀ a, (∃ text, argumentExpression r (.property a) = .ok text) ↔
      a ∈ r.allProperties.names := by
    intro a
    rw [← exists_argumentProperty_iff, argumentExpression]
    cases argumentProperty r a <;> simp [Except.map]
  rw [argumentExpressions, exists_mapM_eq_ok_iff]
  constructor
  · intro h a ha
    exact (hproperty a).1 (h _ ha)
  · intro h a ha
    cases a with
    | property a => exact (hproperty a).2 (h a ha)
    | parameters => exact ⟨bagExpression r, rfl⟩

theorem exists_initParameters_iff :
    (∃ parameters, initParameters r = .ok parameters) ↔
      (∀ a, .property a ∈ r.arguments → a ∈ r.allProperties.names) ∧ Defaulted r := by
  have hproperty : ∀ a, (∃ parameter, initParameter r (.property a) = .ok parameter) ↔
      a ∈ r.allProperties.names ∧ r.allProperties.get? a ≠ some (.any none false) := by
    intro a
    rw [← exists_argumentProperty_iff, initParameter, argumentProperty]
    cases hp : r.allProperties.get? a with
    | none => simp [bind, Except.bind]
    | some p =>
      have hliteral := p.exists_defaultLiteral_iff .python
      cases hd : p.defaultLiteral? .python <;> simp [bind, Except.bind, hd] at hliteral ⊢ <;>
        simpa using hliteral
  have hmap : (∃ parameters, initParameters r = .ok parameters) ↔
      ∃ parameters, r.arguments.mapM (initParameter r) = .ok parameters := by
    rw [initParameters]
    cases r.arguments.mapM (initParameter r) <;> simp [Except.map]
  rw [hmap, exists_mapM_eq_ok_iff, Defaulted]
  constructor
  · intro h
    exact ⟨fun a ha => ((hproperty a).1 (h _ ha)).1, fun a ha => ((hproperty a).1 (h _ ha)).2⟩
  · rintro ⟨hdeclared, hdefault⟩ a ha
    cases a with
    | property a => exact (hproperty a).2 ⟨hdeclared a ha, hdefault a ha⟩
    | parameters => exact ⟨none, rfl⟩

/-- What building a wrapper needs of a class. -/
theorem exists_build_iff {settings : Settings} {s : Subject} :
    (∃ w, build settings target s = .ok w) ↔
      (∀ e ∈ s.resolved.ownProperties.entries, Symbol.isIdentifier e.1 = true) ∧
      (∀ e ∈ s.resolved.ownProperties.entries, e.2 ≠ .any none false) ∧
      (∀ a, .property a ∈ s.resolved.arguments → a ∈ s.resolved.allProperties.names) ∧
      (target = .python → Defaulted s.resolved) := by
  rw [← exists_checkNames_iff,
    ← exists_fieldsOf_iff target s.resolved s.base.className]
  cases target with
  | javascript =>
    rw [← exists_argumentExpressions_iff]
    constructor
    · rintro ⟨w, hw⟩
      obtain ⟨u, hnames, hw⟩ := bind_eq_ok_iff.1 hw
      obtain ⟨fields, hfields, hw⟩ := bind_eq_ok_iff.1 hw
      obtain ⟨expressions, hexpressions, -⟩ := bind_eq_ok_iff.1 hw
      exact ⟨⟨u, hnames⟩, ⟨fields, hfields⟩, ⟨expressions, hexpressions⟩, nofun⟩
    · rintro ⟨⟨u, hnames⟩, ⟨fields, hfields⟩, ⟨expressions, hexpressions⟩, -⟩
      exact ⟨_, bind_eq_ok_iff.2 ⟨u, hnames, bind_eq_ok_iff.2 ⟨fields, hfields,
        bind_eq_ok_iff.2 ⟨expressions, hexpressions, rfl⟩⟩⟩⟩
  | python =>
    constructor
    · rintro ⟨w, hw⟩
      obtain ⟨u, hnames, hw⟩ := bind_eq_ok_iff.1 hw
      obtain ⟨fields, hfields, hw⟩ := bind_eq_ok_iff.1 hw
      obtain ⟨parameters, hparameters, -⟩ := bind_eq_ok_iff.1 hw
      obtain ⟨hdeclared, hdefaulted⟩ := exists_initParameters_iff.1 ⟨parameters, hparameters⟩
      exact ⟨⟨u, hnames⟩, ⟨fields, hfields⟩, hdeclared, fun _ => hdefaulted⟩
    · rintro ⟨⟨u, hnames⟩, ⟨fields, hfields⟩, hdeclared, hdefaulted⟩
      obtain ⟨parameters, hparameters⟩ := exists_initParameters_iff.2 ⟨hdeclared, hdefaulted rfl⟩
      exact ⟨_, bind_eq_ok_iff.2 ⟨u, hnames, bind_eq_ok_iff.2 ⟨fields, hfields,
        bind_eq_ok_iff.2 ⟨parameters, hparameters, rfl⟩⟩⟩⟩

/-- A class can be rendered if its names lead somewhere and its wrapper can be built. -/
theorem renderable_iff {settings : Settings} {t : ClassTable} {s : Subject} :
    (Renderable t s.resolved ∧ (target = .python → Defaulted s.resolved)) ↔
      t.dangling s.resolved = [] ∧ ∃ w, build settings target s = .ok w := by
  rw [exists_build_iff, ClassTable.dangling_eq_nil_iff]
  constructor
  · rintro ⟨⟨hlinked, hidentified, hinitialized, hdeclared⟩, hdefaulted⟩
    exact ⟨hlinked, hidentified, hinitialized, hdeclared, hdefaulted⟩
  · rintro ⟨hlinked, hidentified, hinitialized, hdeclared, hdefaulted⟩
    exact ⟨⟨hlinked, hidentified, hinitialized, hdeclared⟩, hdefaulted⟩

end Wrapper

namespace Generator

variable {g : Generator} {c : String} {r : Resolved}

theorem linker_table (g : Generator) : g.linker.table = g.table := rfl

theorem exists_references_iff (h : g.table.resolve c = .ok r) :
    (∃ refs, g.references r = .ok refs) ↔ g.table.dangling r = [] := by
  rw [← failure?_eq_none_iff, references, Linker.failure?_references (l := g.linker) h,
    List.head?_eq_none_iff, List.map_eq_nil_iff, linker_table]

theorem exists_subject_iff (h : g.table.resolve c = .ok r) :
    (∃ s, g.subject r = .ok s ∧ s.resolved = r) ↔ g.table.dangling r = [] := by
  rw [← exists_references_iff h]
  obtain ⟨ref, href⟩ := Linker.exists_superclass (l := g.linker) h (g.file r)
  constructor
  · rintro ⟨s, hs, -⟩
    obtain ⟨refs, -, hrefs, -⟩ := subject_eq_ok hs
    exact ⟨refs, hrefs⟩
  · rintro ⟨refs, hrefs⟩
    exact ⟨_, bind_eq_ok_iff.2 ⟨refs, hrefs, bind_eq_ok_iff.2 ⟨ref, href, rfl⟩⟩, rfl⟩

/-- When a class is rendered, whatever overrides stand. -/
theorem exists_render_iff (h : g.table.resolve c = .ok r) :
    (∃ out, g.render r = .ok out) ↔
      Renderable g.table r ∧ (g.target = .python → Defaulted r) := by
  have hwrapper : (∃ out, g.render r = .ok out) ↔ ∃ w, g.wrapper r = .ok w := by
    constructor
    · rintro ⟨⟨file, text⟩, hout⟩
      obtain ⟨-, w, hw, -⟩ := render_eq_ok_iff.1 hout
      exact ⟨w, hw⟩
    · rintro ⟨w, hw⟩
      obtain ⟨text, htext⟩ := w.exists_text g.target
      exact ⟨_, render_eq_ok_iff.2 ⟨rfl, w, hw, htext⟩⟩
  rw [hwrapper]
  constructor
  · rintro ⟨w, hw⟩
    obtain ⟨s, hs, hbuild⟩ := wrapper_eq_ok_iff.1 hw
    obtain ⟨_, _, -, -, hsubject⟩ := subject_eq_ok hs
    obtain rfl : s.resolved = r := by rw [hsubject]
    exact Wrapper.renderable_iff.2 ⟨(exists_subject_iff h).1 ⟨s, hs, rfl⟩, w, hbuild⟩
  · intro hrenderable
    obtain ⟨s, hs, rfl⟩ :=
      (exists_subject_iff h).2 (ClassTable.dangling_eq_nil_iff.2 hrenderable.1.linked)
    obtain ⟨-, w, hw⟩ := Wrapper.renderable_iff.1 hrenderable
    exact ⟨w, wrapper_eq_ok_iff.2 ⟨s, hs, hw⟩⟩

/-- A class that resolves is rendered for the front end exactly if it is renderable, and for the package
if its arguments have literals besides. The lookup of its superclass and the text of a wrapper that is
built never fail, and what is not rendered for the front end is not rendered for the package either. -/
theorem render_succeeds_iff {t : ClassTable} (h : t.resolve c = .ok r) (s : Settings) :
    (∀ overridden, (∃ out, (⟨s, t, .javascript, overridden⟩ : Generator).render r = .ok out) ↔
      Renderable t r) ∧
    (∀ overridden, (∃ out, (⟨s, t, .python, overridden⟩ : Generator).render r = .ok out) ↔
      Renderable t r ∧ Defaulted r) ∧
    (∀ target overridden file,
      ∃ ref, (⟨s, t, target, overridden⟩ : Generator).linker.superclass r file = .ok ref) ∧
    (∀ target w, ∃ text, Wrapper.text target w = .ok text) ∧
    ∀ overridden overridden' e, (⟨s, t, .javascript, overridden⟩ : Generator).render r = .error e →
      ∃ e', (⟨s, t, .python, overridden'⟩ : Generator).render r = .error e' := by
  have hfront : ∀ overridden,
      (∃ out, (⟨s, t, .javascript, overridden⟩ : Generator).render r = .ok out) ↔ Renderable t r := by
    intro overridden
    rw [exists_render_iff (g := ⟨s, t, .javascript, overridden⟩) h]
    simp
  have hpackage : ∀ overridden,
      (∃ out, (⟨s, t, .python, overridden⟩ : Generator).render r = .ok out) ↔
        Renderable t r ∧ Defaulted r := by
    intro overridden
    rw [exists_render_iff (g := ⟨s, t, .python, overridden⟩) h]
    simp
  refine ⟨hfront, hpackage, fun target overridden file => ?_, fun target w => w.exists_text target,
    fun overridden overridden' e he => ?_⟩
  · exact Linker.exists_superclass (l := (⟨s, t, target, overridden⟩ : Generator).linker) h file
  · cases hrender : (⟨s, t, .python, overridden'⟩ : Generator).render r with
    | error e' => exact ⟨e', rfl⟩
    | ok out =>
      obtain ⟨front, hok⟩ := (hfront overridden).2 ((hpackage overridden').1 ⟨out, hrender⟩).1
      rw [he] at hok
      cases hok

def carrierRecord : ClassRecord := ClassRecord.empty.withProperty "payload" (.any none false)

def parcelRecord : ClassRecord :=
  ((ClassRecord.empty.extending "Carrier").withProperty "weight" (.float none false)).withArguments
    ["payload", "parameters"]

/-- A class that is constructed with an untyped property of its superclass. -/
def parcelTable : ClassTable :=
  .ofRecords [("Carrier", carrierRecord), ("Parcel", parcelRecord)] .empty

/-- An inherited property needs no literal in the front end, but the initializer asks for one. -/
theorem render_succeeds_parcel : ∃ r, parcelTable.resolve "Parcel" = .ok r ∧
    (∃ out, (⟨{}, parcelTable, .javascript, fun _ => false⟩ : Generator).render r = .ok out) ∧
    ¬ ∃ out, (⟨{}, parcelTable, .python, fun _ => false⟩ : Generator).render r = .ok out := by
  let carrier := parcelTable.merge "Carrier" carrierRecord none
  let parcel := parcelTable.merge "Parcel" parcelRecord (some carrier)
  have hresolve : parcelTable.resolve "Parcel" = .ok parcel := by cbv
  have hown : parcel.ownProperties.entries = [("weight", .float none false)] := by decide
  have harguments : parcel.arguments = [.property "payload", .parameters] := by decide
  obtain ⟨hfront, hpackage, -⟩ := render_succeeds_iff hresolve {}
  have hrenderable : Renderable parcelTable parcel := by
    have hdependencies : parcel.dependencies = [] := by decide
    refine ⟨?_, by rw [hown]; decide, by rw [hown]; simp, ?_⟩
    · rintro name (hname | ⟨e, he, hreferent⟩)
      · simp [hdependencies] at hname
      · rw [hown, List.mem_singleton] at he
        simp [he, Property.references] at hreferent
    · intro a ha
      obtain rfl : a = "payload" := by simpa [harguments] using ha
      decide
  have hundefaulted : ¬ Defaulted parcel := by
    intro h
    exact h "payload" (by simp [harguments]) (by decide)
  exact ⟨parcel, hresolve, (hfront _).2 hrenderable, fun hout => hundefaulted ((hpackage _).1 hout).2⟩

end Generator
end WrapperGen
