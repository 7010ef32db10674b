import WrapperGen.Generator
import WrapperGen.Proofs.Placement.Places

/-!
# Consulted overrides

To render a class it is asked whether an override stands for the class itself and for the artifacts it
refers to, and nothing else about the tree. Where these answers agree the modules are the same. If the
classes of the table have plain names, all these places are below the output root.
-/

namespace WrapperGen

theorem UnitPath.slash_not_mem_unitName (path : String) : '/' ∉ (unitName path).toList := by
  obtain ⟨piece, hpiece⟩ := Option.isSome_iff_exists.1
    (List.getLast?_isSome.2 (Text.pieces_ne_nil '/' path))
  rw [unitName, Text.lastPiece, hpiece]
  exact Text.not_mem_of_mem_pieces (List.mem_of_getLast? hpiece)

namespace Linker

variable {l : Linker} {r : Resolved} {overridden : Path → Bool}

/-- An artifact that the module of a class refers to. -/
def Involves (l : Linker) (r : Resolved) (a : Artifact) : Prop :=
  a = l.base ∨ l.parent r = .ok a ∨ ∃ others, l.named r = .ok others ∧ a ∈ others

theorem describe_congr {a : Artifact}
    (h : overridden (l.placement.overridePath a.stem a.unitPath) =
      l.overridden (l.placement.overridePath a.stem a.unitPath)) (file : Path) :
    ({ l with overridden } : Linker).describe file a = l.describe file a := by
  simp only [describe, h]

/-- The files of an artifact begin with a plain name if the classes have plain names. -/
theorem slash_not_mem_stem (hplain : ∀ c ∈ l.table.names, '/' ∉ c.toList) {a : Artifact}
    (h : l.Involves r a) : '/' ∉ a.stem.toList := by
  have hbase : '/' ∉ l.base.stem.toList := UnitPath.slash_not_mem_unitName l.basePath
  have hlocate : ∀ {reference : String} {a : Artifact}, l.locate r.className reference = .ok a →
      '/' ∉ a.stem.toList := by
    intro reference a ha
    unfold locate at ha
    dsimp only at ha
    split at ha
    · next own hown =>
      obtain rfl := Except.ok.inj ha
      refine hplain reference (Classical.byContradiction fun hout => ?_)
      exact Option.some_ne_none own (hown.symm.trans ((Named.get?_eq_none_iff _ _).2 hout))
    · split at ha
      · exact Except.ok.inj ha ▸ hbase
      · split at ha
        · obtain rfl := Except.ok.inj ha
          dsimp only
          exact UnitPath.slash_not_mem_unitName (UnitPath.normalize reference)
        · exact nomatch ha
  rcases h with rfl | hparent | ⟨others, hnamed, hmem⟩
  · exact hbase
  · unfold parent at hparent
    split at hparent
    · exact hlocate hparent
    · exact Except.ok.inj hparent ▸ hbase
  · obtain ⟨dependencies, hdependencies, hnamed⟩ := bind_eq_ok_iff.1 hnamed
    obtain ⟨referents, hreferents, hnamed⟩ := bind_eq_ok_iff.1 hnamed
    obtain rfl := Except.ok.inj hnamed
    rcases List.mem_append.1 hmem with hmem | hmem
    · obtain ⟨reference, -, ha⟩ := exists_of_mapM_eq_ok hdependencies a hmem
      exact hlocate ha
    · obtain ⟨referent, -, ha⟩ := exists_of_mapM_eq_ok hreferents a hmem
      cases referent with
      | named c => exact hlocate ha
      | base => exact Except.ok.inj ha ▸ hbase

variable (h : ∀ a, l.Involves r a → overridden (l.placement.overridePath a.stem a.unitPath) =
  l.overridden (l.placement.overridePath a.stem a.unitPath))

include h

theorem superclass_congr (file : Path) :
    ({ l with overridden } : Linker).superclass r file = l.superclass r file := by
  show (l.parent r).map _ = (l.parent r).map _
  cases hparent : l.parent r with
  | error e => rfl
  | ok a => exact congrArg Except.ok (describe_congr (h a (.inr (.inl hparent))) file)

theorem references_congr (file : Path) :
    ({ l with overridden } : Linker).references r file = l.references r file := by
  rw [references, references, superclass_congr h file]
  refine bind_congr fun parent => ?_
  show l.named r >>= _ = l.named r >>= _
  cases hnamed : l.named r with
  | error e => rfl
  | ok others =>
    have hdescribe : ((others.filter (·.name ≠ r.className)).map
        (({ l with overridden } : Linker).describe file)) =
          (others.filter (·.name ≠ r.className)).map (l.describe file) :=
      List.map_congr_left fun a ha => describe_congr
        (h a (.inr (.inr ⟨others, hnamed, (List.mem_filter.1 ha).1⟩))) file
    exact congrArg (fun ds => Except.ok (ds.foldl (fun (refs : References) d =>
      refs.insert d.className d) (Std.ExtTreeMap.empty.insert parent.className parent))) hdescribe

end Linker

namespace Generator

variable {g : Generator} {r : Resolved} {overridden : Path → Bool}

/-- A path at which the generator of a class looks for an override. -/
def Consults (g : Generator) (r : Resolved) (p : Path) : Prop :=
  p = g.overrideFile r ∨
    ∃ a, g.linker.Involves r a ∧ p = g.placement.overridePath a.stem a.unitPath

/-- An override is looked for below the output root, by names, if the classes have plain names. -/
theorem Consults.below_root (hplain : ∀ c ∈ g.table.names, '/' ∉ c.toList)
    (hclass : '/' ∉ r.className.toList) {p : Path} (h : g.Consults r p) :
    ∃ names : List String, p.components = g.placement.root.components ++ names.map .name := by
  rcases h with rfl | ⟨a, ha, rfl⟩
  · exact ⟨_, g.placement.components_overridePath hclass r.unitPath⟩
  · exact ⟨_, g.placement.components_overridePath (Linker.slash_not_mem_stem hplain ha) a.unitPath⟩

/-- The module of a class depends on the overrides at the paths that are consulted for it. -/
theorem render_congr (h : ∀ p, g.Consults r p → overridden p = g.overridden p) :
    ({ g with overridden } : Generator).render r = g.render r := by
  have hinvolved : ∀ a, g.linker.Involves r a →
      overridden (g.linker.placement.overridePath a.stem a.unitPath) =
        g.linker.overridden (g.linker.placement.overridePath a.stem a.unitPath) :=
    fun a ha => h _ (.inr ⟨a, ha, rfl⟩)
  have hown : ({ g with overridden } : Generator).overrideImport? r = g.overrideImport? r := by
    have hanswer := h (g.overrideFile r) (.inl rfl)
    show (if overridden (g.overrideFile r) then _ else _) = (if _ then _ else _)
    rw [hanswer]
    rfl
  have hsubject : ({ g with overridden } : Generator).subject r = g.subject r := by
    have hreferences : ({ g with overridden } : Generator).references r = g.references r :=
      Linker.references_congr hinvolved (g.file r)
    have hsuperclass : ({ g with overridden } : Generator).linker.superclass r (g.file r) =
        g.linker.superclass r (g.file r) := Linker.superclass_congr hinvolved (g.file r)
    have hbase : ({ g with overridden } : Generator).linker.baseReference (g.file r) =
        g.linker.baseReference (g.file r) :=
      Linker.describe_congr (hinvolved g.linker.base (.inl rfl)) (g.file r)
    have hfile : ({ g with overridden } : Generator).file r = g.file r := rfl
    rw [subject, subject, hfile, hreferences, hsuperclass, hbase, hown]
  show (({ g with overridden } : Generator).subject r >>= _) >>= _ = (g.subject r >>= _) >>= _
  rw [hsubject]
  rfl

end Generator
end WrapperGen
