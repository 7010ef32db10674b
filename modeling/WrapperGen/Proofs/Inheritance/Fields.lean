import WrapperGen.Proofs.Inheritance.Outcome

/-!
# Inherited fields

The fields of a resolved class other than its properties, read off its lineage. Names of properties that
the library sets are collected from all classes, constructor arguments are those of the nearest class
that sets any, and the defaults come last in both. Where the documentation stands is said by the class
or the defaults, and dependencies and unit path by the class alone.
-/

namespace WrapperGen

theorem ClassRecord.unitPathOf_eq (own : ClassRecord) (c : String) :
    own.unitPathOf c = (own.unitPath.map UnitPath.normalize).getD c := by
  unfold unitPathOf
  cases own.unitPath <;> rfl

namespace ClassTable

variable {t : ClassTable}

/-- The constructor arguments that the nearest class of a lineage sets. An empty list is set as well. -/
def nearestArguments? (line : Named ClassRecord) : Option (List Argument) :=
  line.findSome? fun e => e.2.arguments

/-- What a lineage hands down besides the defaults, which seed it at its top. -/
theorem mem_external_merged (line : Named ClassRecord) (name : String) :
    name ∈ ((t.merged line).map (·.external)).getD t.defaults.external ↔
      name ∈ t.defaults.external ∨ ∃ e ∈ line, name ∈ e.2.external := by
  induction line with
  | nil => simp [merged]
  | cons e line ih =>
    obtain ⟨c, own⟩ := e
    have hexternal : (t.merge c own (t.merged line)).external =
        Names.union (((t.merged line).map (·.external)).getD t.defaults.external) own.external := rfl
    rw [merged_cons, Option.map_some, Option.getD_some, hexternal, Names.mem_union, ih]
    simp only [List.mem_cons, exists_eq_or_imp]
    rw [or_assoc, or_comm (a := ∃ e ∈ line, name ∈ e.2.external)]

/-- A merged class always has arguments, so whether its lineage set them can no longer be told from them.
The arguments with the defaults behind them are the same either way. -/
theorem arguments_merged (line : Named ClassRecord) :
    (((t.merged line).map (·.arguments)).or t.defaults.arguments).getD [] =
      ((nearestArguments? line).or t.defaults.arguments).getD [] := by
  induction line with
  | nil => rfl
  | cons e line ih =>
    obtain ⟨c, own⟩ := e
    have harguments : (t.merge c own (t.merged line)).arguments =
        (own.arguments.or (((t.merged line).map (·.arguments)).or t.defaults.arguments)).getD [] := by
      simp only [merge, Option.orElse_eq_orElse, Option.orElse_eq_or]
    rw [merged_cons, Option.map_some, Option.some_or, Option.getD_some, harguments, nearestArguments?,
      List.findSome?_cons]
    cases own.arguments with
    | none => exact ih
    | some arguments => rfl

/-- How the fields of a resolved class come from its own record, the lineage above it and the defaults. -/
structure Inherits (t : ClassTable) (c : String) (own : ClassRecord) (above : Named ClassRecord)
    (r : Resolved) : Prop where
  external : ∀ name, name ∈ r.external ↔
    name ∈ t.defaults.external ∨ ∃ e ∈ (c, own) :: above, name ∈ e.2.external
  arguments : r.arguments =
    ((nearestArguments? ((c, own) :: above)).or t.defaults.arguments).getD []
  docPath : r.docPath = (own.docPath.or t.defaults.docPath).getD r.unitPath
  dependencies : r.dependencies = own.dependencies
  unitPath : r.unitPath = (own.unitPath.map UnitPath.normalize).getD c
  superClass : r.superClass = above.names.head?

theorem Lineage.superClass_merge {c : String} {own : ClassRecord} {above : Named ClassRecord}
    (h : t.Lineage c ((c, own) :: above)) :
    (t.merge c own (t.merged above)).superClass = above.names.head? := by
  show t.parent? c own = _
  cases h with
  | top record last => exact (parent?_eq_none_iff record).2 last
  | link record step above =>
    obtain ⟨cs, hcs⟩ := above.names_cons
    rw [hcs, (parent?_eq_some_iff record).2 step]
    rfl

theorem Lineage.inherits {c : String} {own : ClassRecord} {above : Named ClassRecord}
    (h : t.Lineage c ((c, own) :: above)) : t.Inherits c own above (t.merge c own (t.merged above)) where
  external := t.mem_external_merged ((c, own) :: above)
  arguments := t.arguments_merged ((c, own) :: above)
  docPath := by simp only [merge, Option.orElse_eq_orElse, Option.orElse_eq_or]
  dependencies := rfl
  unitPath := own.unitPathOf_eq c
  superClass := h.superClass_merge

/-- The fields of a class that resolves. Each is inherited by its own rule: from all classes above and
the defaults, from the nearest one, from the defaults alone, or not at all. -/
theorem resolve_fields {c : String} {r : Resolved} (h : t.resolve c = .ok r) :
    ∃ own above, t.Lineage c ((c, own) :: above) ∧ t.Inherits c own above r := by
  obtain ⟨line, lineage, hmerged⟩ := resolve_eq_ok_iff.1 h
  cases lineage with
  | top record last =>
    obtain rfl := Option.some.inj hmerged
    exact ⟨_, [], .top record last, (Lineage.top record last).inherits⟩
  | link record step above =>
    obtain rfl := Option.some.inj hmerged
    exact ⟨_, _, .link record step above, (Lineage.link record step above).inherits⟩

/-- The class at the top is constructed with a color and has a page of its own. -/
def topRecord : ClassRecord :=
  { ClassRecord.empty.withArguments ["color"] with external := ["matrix"], docPath := some "core/Base" }

/-- A ring takes no arguments, for a shape takes none, although its superclass and the defaults do. -/
def fieldTable : ClassTable :=
  ofRecords
    [("Base", topRecord), ("Shape", (ClassRecord.empty.extending "Base").withArguments []),
      ("Ring", { (ClassRecord.located "./shapes/Ring.js").extending "Shape" with
        external := ["geometry"] })]
    { ClassRecord.empty.withArguments ["parameters"] with
      external := ["uuid"], unitPath := some "generic" }

theorem resolve_fields_ring : ∃ r, fieldTable.resolve "Ring" = .ok r ∧ r.arguments = [] ∧
    r.external = ["geometry", "matrix", "uuid"] ∧ r.docPath = "shapes/Ring" ∧
    ∃ own above, fieldTable.Lineage "Ring" (("Ring", own) :: above) ∧
      fieldTable.Inherits "Ring" own above r := by
  have hring : ∃ r, fieldTable.resolve "Ring" = .ok r := ⟨_, by cbv⟩
  obtain ⟨r, hr⟩ := hring
  have hfields : (fieldTable.resolve "Ring").map (fun r => (r.arguments, r.external, r.docPath)) =
      .ok ([], ["geometry", "matrix", "uuid"], "shapes/Ring") := by cbv
  rw [hr] at hfields
  have hvalues := Except.ok.inj hfields
  simp only [Prod.mk.injEq] at hvalues
  obtain ⟨harguments, hexternal, hdocPath⟩ := hvalues
  exact ⟨r, hr, harguments, hexternal, hdocPath, resolve_fields hr⟩

end ClassTable
end WrapperGen
