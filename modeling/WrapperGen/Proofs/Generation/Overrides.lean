import WrapperGen.Proofs.Concurrency.Accounts
import WrapperGen.Proofs.Placement.Places

/-!
# Overrides in a run

An override is left alone by a run, as far as its file name is not one that the run itself gives: that
of an index, of a marker, of the aggregator, or of the generated module of some class. Only where a file
of the run lies in the place of an override of such a name may the run write over it.
-/

namespace WrapperGen

namespace Generation

open Aggregate (indexFile packageMarker)

/-- The file names that a run gives to what it writes for a target language. -/
inductive Reserved (s : Settings) (t : ClassTable) : Target → String → Prop
  | wrapper {target : Target} {c : String} (known : t.has c = true) :
      Reserved s t target (Text.lastPiece '/' (c ++ target.generatedSuffix))
  | index : Reserved s t .javascript indexFile
  | marker : Reserved s t .python packageMarker
  | aggregator : Reserved s t .python (Text.lastPiece '/' s.python.aggregator)

variable {s : Settings} {t : ClassTable} {target : Target} {tree : FileTree}

theorem aggregator_of_fault?_eq_none (h : s.fault? = none) : ∃ x, s.python.aggregator = x ++ ".py" := by
  unfold Settings.fault? at h
  split at h
  · exact nomatch h
  · split at h
    · exact nomatch h
    · split at h
      · exact nomatch h
      · next hends => exact Text.endsWith_iff.1 (by simpa using hends)

/-- The aggregator is a module of the package. -/
theorem aggregator_of_ofText {text : String} (h : Settings.ofText text = .ok s) :
    ∃ x, s.python.aggregator = x ++ ".py" := by
  unfold Settings.ofText at h
  split at h
  · exact nomatch h
  · split at h
    · exact nomatch h
    · next hfault =>
      obtain rfl := Except.ok.inj h
      exact aggregator_of_fault?_eq_none hfault

/-- A path to a module leads to an entry with a name of modules of its target language. -/
theorem getLast?_of_locate_module {dir : Path} {name : String} {l : Location}
    (h : tree.locate (dir.child (name ++ target.moduleExtension)) = .ok l) :
    l.getLast? = some (Text.lastPiece '/' (name ++ target.moduleExtension)) ∧
      ∃ x, Text.lastPiece '/' (name ++ target.moduleExtension) = x ++ target.moduleExtension := by
  refine FileTree.getLast?_of_locate_child ?_ ?_ h
  · cases target <;> decide
  · cases target
    · exact ⟨'j', by decide⟩
    · exact ⟨'p', by decide⟩

/-- Every product is a module of its target language with a reserved name. -/
theorem Product.exists_child {text : String} (hs : Settings.ofText text = .ok s) {file : Path}
    (h : Product s t target file) :
    ∃ (dir : Path) (name : String), file = dir.child (name ++ target.moduleExtension) ∧
      Reserved s t target (Text.lastPiece '/' (name ++ target.moduleExtension)) := by
  cases h with
  | @wrapper _ c own record =>
    obtain ⟨x, hx⟩ : ∃ x, target.generatedSuffix = x ++ target.moduleExtension := by
      cases target
      · exact ⟨".autogen", rfl⟩
      · exact ⟨"_autogen", rfl⟩
    refine ⟨(s.placement target).classDir (own.unitPathOf c), c ++ x, ?_, ?_⟩
    · rw [Placement.generatedPath, Settings.placement_target, hx, String.append_assoc]
    · rw [String.append_assoc, ← hx]
      exact .wrapper (ClassTable.has_iff.2 ⟨own, record⟩)
  | index dir =>
    have hname : Text.lastPiece '/' ("index" ++ Target.javascript.moduleExtension) = indexFile := by
      decide
    have hfile : indexFile = "index" ++ Target.javascript.moduleExtension := by decide
    exact ⟨dir, "index", by rw [hfile], hname.symm ▸ .index⟩
  | marker dir =>
    have hname : Text.lastPiece '/' ("__init__" ++ Target.python.moduleExtension) = packageMarker := by
      decide
    have hfile : packageMarker = "__init__" ++ Target.python.moduleExtension := by decide
    exact ⟨dir, "__init__", by rw [hfile], hname.symm ▸ .marker⟩
  | aggregator =>
    obtain ⟨x, hx⟩ := aggregator_of_ofText hs
    have hname : s.python.aggregator = x ++ Target.python.moduleExtension := hx
    exact ⟨(s.placement .python).root, x, by rw [hname], hname ▸ .aggregator⟩

/-- A file is a module of one target language only. -/
theorem eq_of_moduleExtension {a b : Target} {x y : String}
    (h : x ++ a.moduleExtension = y ++ b.moduleExtension) : a = b := by
  have hchars : x.toList ++ a.moduleExtension.toList = y.toList ++ b.moduleExtension.toList := by
    simpa using congrArg String.toList h
  have hlength : a.moduleExtension.toList.length = b.moduleExtension.toList.length := by
    cases a <;> cases b <;> decide
  have hextension := List.append_inj_right' hchars hlength
  revert hextension
  cases a <;> cases b <;> decide

/-- In whatever order its operations come, a run leaves every override as it is, whether it succeeds or fails,
unless the file name of the override is reserved and a product of the run lies in its place. -/
theorem run_keeps_override {text : String} (hs : Settings.ofText text = .ok s) {asked : List Target}
    {result : Except Error Report} {after : FileTree} (hrun : RunsTo s t asked tree result after)
    (target : Target) (c unitPath : String) {l : Location} :
    let override := (s.placement target).overridePath c unitPath
    (tree.locate override = .ok l ∨ after.locate override = .ok l) →
      after.file? l = tree.file? l ∨
        Reserved s t target (Text.lastPiece '/' (c ++ target.moduleExtension)) ∧
          ∃ file, Product s t target file ∧ after.locate file = .ok l := by
  intro override hleads
  have hgrows := hrun.grows
  have hl : after.locate override = .ok l := hleads.elim hgrows.locate id
  rcases hgrows.changed l with hkept | ⟨file, ⟨served, -, hproduct⟩, hfile⟩
  · exact .inl hkept
  · have hoverride : after.locate (((s.placement target).classDir unitPath).child
        (c ++ target.moduleExtension)) = .ok l := by
      rw [← hl]
      simp only [override, Placement.overridePath, Settings.placement_target]
    obtain ⟨hlast, x, hx⟩ := getLast?_of_locate_module hoverride
    obtain ⟨dir, name, rfl, hreserved⟩ := hproduct.exists_child hs
    obtain ⟨hlast', y, hy⟩ := getLast?_of_locate_module hfile
    have hname : Text.lastPiece '/' (c ++ target.moduleExtension) =
        Text.lastPiece '/' (name ++ served.moduleExtension) := Option.some.inj (hlast.symm.trans hlast')
    obtain rfl : target = served := by
      rw [hx, hy] at hname
      exact eq_of_moduleExtension hname
    rw [hname]
    exact .inr ⟨hreserved, _, hproduct, hfile⟩

def ringsTable : ClassTable := .ofRecords [("Ring", .empty), ("RingOutline", .located "Ring")] .empty

theorem run_keeps_ring :
    let after := (run {} ringsTable Target.all).after handwritten
    (handwritten.file? ["js", "src", "Ring.js"]).isSome = true ∧
      after.file? ["js", "src", "Ring.js"] = handwritten.file? ["js", "src", "Ring.js"] := by
  intro after
  have hstands : (handwritten.file? ["js", "src", "Ring.js"]).isSome = true := by decide +kernel
  have hsettings : Settings.ofText "" = .ok ({} : Settings) := by decide +kernel
  have hpath : (Settings.placement {} .javascript).overridePath "Ring" "Ring" = ⟨"js/src/Ring.js"⟩ := by
    decide
  have hlocate : handwritten.locate ((Settings.placement {} .javascript).overridePath "Ring" "Ring") =
      .ok ["js", "src", "Ring.js"] := by
    rw [hpath]
    decide +kernel
  have hfree : ¬ Reserved {} ringsTable .javascript "Ring.js" := by
    intro h
    generalize hname : "Ring.js" = name at h
    cases h with
    | @wrapper _ c known =>
      have hnames : ringsTable.names = ["Ring", "RingOutline"] := by decide
      rw [ClassTable.has_iff_mem, hnames] at known
      obtain rfl | rfl : c = "Ring" ∨ c = "RingOutline" := by simpa using known
      · exact absurd hname (by decide)
      · exact absurd hname (by decide)
    | index => exact absurd hname (by decide)
  have hrun : RunsTo {} ringsTable Target.all handwritten ((run {} ringsTable Target.all).run handwritten).1
      after := runsTo_of_run rfl
  have hkept := run_keeps_override hsettings hrun .javascript "Ring" "Ring" (.inl hlocate)
  have hname : Text.lastPiece '/' ("Ring" ++ Target.javascript.moduleExtension) = "Ring.js" := by decide
  rw [hname] at hkept
  exact ⟨hstands, hkept.resolve_right fun h => hfree h.1⟩

end Generation
end WrapperGen
