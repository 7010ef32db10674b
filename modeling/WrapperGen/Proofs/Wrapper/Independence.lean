import WrapperGen.Proofs.Inheritance.Agreement
import WrapperGen.Proofs.References
import WrapperGen.Proofs.Wrapper.Consulted

/-!
# Independence of classes

The module of a class is made from the records above it, from where the names it refers to lead, and
from the overrides that are consulted for it. A class that has no part in these may be broken, added,
removed or moved without any effect on the module.
-/

namespace WrapperGen

namespace Linker

variable {l : Linker} {r : Resolved} {table : ClassTable}

/-- A linker sees of a class whether the table has it, and its unit path. -/
theorem locate_congr (hroot : table.root = l.table.root) {name : String}
    (hpath : table.unitPath name = l.table.unitPath name) (source : String) :
    ({ l with table } : Linker).locate source name = l.locate source name := by
  unfold ClassTable.unitPath at hpath
  cases hnew : table.get? name <;> cases hold : l.table.get? name <;>
    simp_all [locate, ClassTable.isRoot, base]

variable (hroot : table.root = l.table.root)
  (hpaths : ∀ name, r.RefersTo name → table.unitPath name = l.table.unitPath name)

include hroot

theorem base_retabled : ({ l with table } : Linker).base = l.base := by
  show (⟨table.root, _, _⟩ : Artifact) = ⟨l.table.root, _, _⟩
  rw [hroot]

include hpaths

theorem parent_retabled : ({ l with table } : Linker).parent r = l.parent r := by
  unfold parent
  cases hparent : r.superClass with
  | none => exact congrArg Except.ok (base_retabled hroot)
  | some name => exact locate_congr hroot (hpaths name (.inl hparent)) r.className

theorem named_retabled : ({ l with table } : Linker).named r = l.named r := by
  have hdependencies : r.dependencies.mapM (({ l with table } : Linker).locate r.className) =
      r.dependencies.mapM (l.locate r.className) :=
    mapM_congr fun name hname => locate_congr hroot (hpaths name (.inr (.inl hname))) _
  have hreferents : (r.ownProperties.entries.flatMap (·.2.references)).mapM
        (({ l with table } : Linker).locateReferent r.className) =
      (r.ownProperties.entries.flatMap (·.2.references)).mapM (l.locateReferent r.className) := by
    refine mapM_congr fun referent hreferent => ?_
    obtain ⟨e, he, hreferent⟩ := List.mem_flatMap.1 hreferent
    cases referent with
    | named name => exact locate_congr hroot (hpaths name (.inr (.inr ⟨e, he, hreferent⟩))) _
    | base => exact congrArg Except.ok (base_retabled hroot)
  simp only [named, hdependencies, hreferents]

theorem superclass_retabled (file : Path) :
    ({ l with table } : Linker).superclass r file = l.superclass r file :=
  congrArg (Except.map (l.describe file)) (parent_retabled hroot hpaths)

theorem references_retabled (file : Path) :
    ({ l with table } : Linker).references r file = l.references r file := by
  simp only [references, superclass_retabled hroot hpaths, named_retabled hroot hpaths]
  rfl

end Linker

namespace Generator

variable {g : Generator} {r : Resolved} {c : String} {table : ClassTable}

theorem render_retabled (hroot : table.root = g.table.root)
    (hpaths : ∀ name, r.RefersTo name → table.unitPath name = g.table.unitPath name) :
    ({ g with table } : Generator).render r = g.render r := by
  have hsubject : ({ g with table } : Generator).subject r = g.subject r := by
    have hreferences : ({ g with table } : Generator).references r = g.references r :=
      Linker.references_retabled (l := g.linker) hroot hpaths (g.file r)
    have hsuperclass : ({ g with table } : Generator).linker.superclass r (g.file r) =
        g.linker.superclass r (g.file r) :=
      Linker.superclass_retabled (l := g.linker) hroot hpaths (g.file r)
    have hbase : ({ g with table } : Generator).linker.baseReference (g.file r) =
        g.linker.baseReference (g.file r) :=
      congrArg (g.linker.describe (g.file r)) (Linker.base_retabled (l := g.linker) hroot)
    have hfile : ({ g with table } : Generator).file r = g.file r := rfl
    have hown : ({ g with table } : Generator).overrideImport? r = g.overrideImport? r := rfl
    rw [subject, subject, hfile, hreferences, hsuperclass, hbase, hown]
  show (({ g with table } : Generator).subject r >>= _) >>= _ = (g.subject r >>= _) >>= _
  rw [hsubject]
  rfl

/-- The module of a class, made after some classes have been resolved on the same table. -/
def moduleAfter (g : Generator) (earlier : List String) (c : String) : Except Error (Path × String) :=
  (g.table.resolveWith (g.table.resolveEach {} earlier).2 c).1 >>= g.render

theorem moduleAfter_eq (g : Generator) (earlier : List String) (c : String) :
    g.moduleAfter earlier c = g.table.resolve c >>= g.render := by
  rw [moduleAfter, (g.table.faithful_empty.resolveEach earlier).2.resolveWith_eq]

/-- The module of a class depends on its own part of the table. Let two tables agree above the class,
and on the unit paths of what it refers to, where that are classes at all; let the overrides at the
paths that are consulted for it be the same. Then its file and text are the same, or the error is,
whatever else the tables hold, in whatever order, and whatever has been resolved before. -/
theorem module_independent (g : Generator) (table : ClassTable) (overridden : Path → Bool)
    (habove : g.table.AgreesAbove c table)
    (hpaths : ∀ r, g.table.resolve c = .ok r → ∀ name, r.RefersTo name →
      table.unitPath name = g.table.unitPath name)
    (hoverridden : ∀ r, g.table.resolve c = .ok r → ∀ p, g.Consults r p →
      overridden p = g.overridden p) (earlier earlier' : List String) :
    ({ g with table, overridden } : Generator).moduleAfter earlier' c = g.moduleAfter earlier c := by
  have hresolve : table.resolve c = g.table.resolve c :=
    habove.resolveWith_eq g.table.faithful_empty table.faithful_empty
  rw [moduleAfter_eq, moduleAfter_eq]
  show table.resolve c >>= _ = _
  rw [hresolve]
  cases hr : g.table.resolve c with
  | error e => rfl
  | ok r =>
    have htable : ({ g with table, overridden } : Generator).render r =
        ({ g with overridden } : Generator).render r :=
      render_retabled (g := { g with overridden }) habove.root (hpaths r hr)
    exact htable.trans (render_congr (hoverridden r hr))

def lampRecord : ClassRecord := (ClassRecord.empty.extending "Fixture").withDependency "Bulb"

/-- A lamp among other classes, one of which is broken. -/
def workshopTable : ClassTable :=
  .ofRecords [("Fixture", .located "core/Fixture"), ("Bulb", .located "parts/Bulb"),
    ("Lamp", lampRecord), ("Shelf", ClassRecord.empty.extending "Nowhere")] .empty

/-- The lamp in a table without the broken class, in which the others have moved, a part has changed and
a class is new. -/
def tidyTable : ClassTable :=
  .ofRecords [("Drawer", .located "core/Drawer"), ("Lamp", lampRecord),
    ("Bulb", (ClassRecord.located "parts/Bulb").extending "Drawer"),
    ("Fixture", .located "core/Fixture")] .empty

theorem workshop_agreesAbove : workshopTable.AgreesAbove "Lamp" tidyTable := by
  have hmet : ∀ d, workshopTable.Meets "Lamp" d → d = "Lamp" ∨ d = "Fixture" := by
    intro d hd
    induction hd with
    | refl => exact .inl rfl
    | @tail b p _ step ih =>
      rcases ih with rfl | rfl
      · have hparent := (ClassTable.parent?_eq_some_iff (r := lampRecord) (by decide)).2 step
        have hfixture : workshopTable.parent? "Lamp" lampRecord = some "Fixture" := by decide
        exact .inr (Option.some.inj (hparent.symm.trans hfixture))
      · have hparent :=
          (ClassTable.parent?_eq_some_iff (r := .located "core/Fixture") (by decide)).2 step
        have htop : workshopTable.parent? "Fixture" (.located "core/Fixture") = none := by decide
        exact nomatch hparent.symm.trans htop
  refine ⟨rfl, rfl, fun d hd => ?_⟩
  rcases hmet d hd with rfl | rfl <;> decide

def workshop : Generator := ⟨{}, workshopTable, .javascript, fun _ => false⟩

/-- Neither the tidying nor an override of the new class changes the module of the lamp. -/
theorem module_independent_lamp :
    ({ workshop with
        table := tidyTable
        overridden := fun p => p = ⟨"js/src/core/Drawer.js"⟩ } : Generator).moduleAfter
        ["Drawer", "Bulb"] "Lamp" = workshop.moduleAfter ["Shelf"] "Lamp" := by
  let lamp := workshopTable.merge "Lamp" lampRecord
    (some (workshopTable.merge "Fixture" (.located "core/Fixture") none))
  have hlamp : workshopTable.resolve "Lamp" = .ok lamp := by cbv
  have hown : lamp.ownProperties.entries = [] := by decide
  refine module_independent workshop tidyTable _ workshop_agreesAbove (fun r hr name hname => ?_)
    (fun r hr p hp => ?_) ["Shelf"] ["Drawer", "Bulb"]
  · obtain rfl : lamp = r := Except.ok.inj (hlamp.symm.trans hr)
    rcases hname with hname | hname | ⟨e, he, -⟩
    · obtain rfl : "Fixture" = name := Option.some.inj hname
      rfl
    · obtain rfl : name = "Bulb" := List.mem_singleton.1 hname
      rfl
    · simp [hown] at he
  · obtain rfl : lamp = r := Except.ok.inj (hlamp.symm.trans hr)
    have hconsulted : p = ⟨"js/src/Lamp.js"⟩ ∨ p = ⟨"js/src/_base/Three.js"⟩ ∨
        p = ⟨"js/src/core/Fixture.js"⟩ ∨ p = ⟨"js/src/parts/Bulb.js"⟩ := by
      rcases hp with rfl | ⟨a, rfl | ha | ⟨others, hothers, ha⟩, rfl⟩
      · exact .inl (by decide)
      · exact .inr (.inl (by decide))
      · obtain rfl : ⟨"Fixture", "Fixture", "core/Fixture"⟩ = a := Except.ok.inj ha
        exact .inr (.inr (.inl (by decide)))
      · obtain rfl : [⟨"Bulb", "Bulb", "parts/Bulb"⟩] = others := Except.ok.inj hothers
        obtain rfl := List.mem_singleton.1 ha
        exact .inr (.inr (.inr (by decide)))
    rcases hconsulted with rfl | rfl | rfl | rfl <;> decide

end Generator
end WrapperGen
