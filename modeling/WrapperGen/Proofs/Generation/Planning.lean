import WrapperGen.Proofs.Generation.Conservation

/-!
# Plans as closures

Each unit whose class is known brings a group: its own class, then the other classes of the same unit path in
table order. A plan is the concatenation of these groups in which only the first occurrence of a class counts,
with the unit path of the unit that brought it. Groups are the classes of one unit path, so which classes are
scheduled does not depend on the order of the units.
-/

namespace WrapperGen

namespace Plan

variable {t : ClassTable}

/-- The classes that a unit brings: its own, then the others of the same unit path in table order, and none if
its own class is unknown. -/
def group (t : ClassTable) (u : SourceUnit) : List String :=
  if t.has u.className then
    u.className :: t.names.filter fun n => n ≠ u.className ∧ t.unitPath n = t.unitPath u.className
  else []

/-- A class is brought by the units whose classes have its unit path. -/
theorem mem_group_iff {u : SourceUnit} {n : String} : n ∈ group t u ↔
    t.has n = true ∧ t.has u.className = true ∧ t.unitPath u.className = t.unitPath n := by
  unfold group
  split
  · next hknown =>
    by_cases hn : n = u.className
    · simp [hn, hknown]
    · simp only [List.mem_cons, hn, List.mem_filter, ClassTable.has_iff_mem, hknown,
        @eq_comm _ (t.unitPath n)]
      simp [hn]
  · next hunknown => simp [hunknown]

/-- The classes that units bring, each with the unit path that it would be scheduled for. -/
def candidates (t : ClassTable) (units : List SourceUnit) : List Scheduled :=
  units.flatMap fun u => (group t u).map (⟨·, u.unitPath⟩)

/-- Schedule a class if it is not scheduled yet. -/
def enlist (done : List Scheduled) (c : Scheduled) : List Scheduled :=
  if done.any (·.className = c.className) then done else done ++ [c]

theorem schedule_eq_foldl_enlist (unitPath : String) (done : List Scheduled) (names : List String) :
    schedule unitPath done names = (names.map (⟨·, unitPath⟩)).foldl enlist done := by
  rw [List.foldl_map]
  rfl

theorem classes_add (plan : Plan) (u : SourceUnit) :
    (plan.add t u).classes = ((group t u).map (⟨·, u.unitPath⟩)).foldl enlist plan.classes := by
  cases hknown : t.has u.className with
  | true =>
    rw [add, ClassTable.extras_eq hknown, group, if_pos hknown]
    exact schedule_eq_foldl_enlist _ _ _
  | false =>
    rw [add, ClassTable.extras_of_unknown hknown, group, hknown]
    rfl

theorem classes_ofUnits (t : ClassTable) (units : List SourceUnit) :
    (ofUnits t units).classes = (candidates t units).foldl enlist [] := by
  have hfold : ∀ plan : Plan,
      (units.foldl (add t) plan).classes = (candidates t units).foldl enlist plan.classes := by
    induction units with
    | nil => exact fun _ => rfl
    | cons u rest ih =>
      intro plan
      rw [List.foldl_cons, ih, classes_add, candidates, candidates, List.flatMap_cons, List.foldl_append]
  exact hfold ⟨[], []⟩

/-- Names are enlisted in the order in which they first come. -/
theorem names_foldl_enlist {done : List Scheduled} {before : List String}
    (h : done.map (·.className) = before.eraseDups) (cs : List Scheduled) :
    (cs.foldl enlist done).map (·.className) = (before ++ cs.map (·.className)).eraseDups := by
  induction cs generalizing done before with
  | nil => simpa using h
  | cons c cs ih =>
    have hstep : (enlist done c).map (·.className) = (before ++ [c.className]).eraseDups := by
      have hmem : done.any (·.className = c.className) = true ↔ c.className ∈ before := by
        rw [← List.mem_eraseDups, ← h]
        simp
      rw [List.eraseDups_append, ← h]
      by_cases hc : c.className ∈ before
      · simp [enlist, hmem.2 hc, hc, List.cons_removeAll]
      · simp [enlist, mt hmem.1 hc, hc, List.cons_removeAll, List.eraseDups_cons]
    rw [List.foldl_cons, ih hstep]
    simp

/-- Under every name the first class that comes is enlisted. -/
theorem find?_foldl_enlist (n : String) (cs done : List Scheduled) :
    (cs.foldl enlist done).find? (·.className = n) = (done ++ cs).find? (·.className = n) := by
  induction cs generalizing done with
  | nil => simp
  | cons c cs ih =>
    rw [List.foldl_cons, ih, enlist]
    split
    · next hdone =>
      rw [List.find?_append, List.find?_append, List.find?_cons]
      split
      · next hn =>
        -- A class of this name is enlisted already, so what comes later is not looked at.
        have hfound : (done.find? (·.className = n)).isSome = true := by
          obtain rfl : c.className = n := by simpa using hn
          exact List.find?_isSome.2 (List.any_eq_true.1 hdone)
        rw [Option.or_of_isSome hfound, Option.or_of_isSome hfound]
      · rfl
    · rw [List.append_assoc, List.singleton_append]

theorem find?_scheduled (names : List String) (unitPath n : String) :
    (names.map (Scheduled.mk · unitPath)).find? (·.className = n) =
      if n ∈ names then some ⟨n, unitPath⟩ else none := by
  have hname : names.find? (· = n) = if n ∈ names then some n else none := by
    cases hfind : names.find? (· = n) with
    | none =>
      have habsent : n ∉ names := by simpa using List.find?_eq_none.1 hfind n
      rw [if_neg habsent]
    | some m =>
      obtain rfl : m = n := by simpa using List.find?_some hfind
      rw [if_pos (List.mem_of_find?_eq_some hfind)]
  rw [List.find?_map]
  exact (congrArg (Option.map _) hname).trans (apply_ite _ _ _ _)

theorem find?_candidates (t : ClassTable) (units : List SourceUnit) (n : String) :
    (candidates t units).find? (·.className = n) =
      (units.find? (n ∈ group t ·)).map fun u => ⟨n, u.unitPath⟩ := by
  induction units with
  | nil => rfl
  | cons u rest ih =>
    rw [candidates, List.flatMap_cons, List.find?_append, find?_scheduled, List.find?_cons]
    by_cases hn : n ∈ group t u
    · simp [hn]
    · simpa [hn, candidates] using ih

/-- The group of the first unit that brings a class gives the unit path it is scheduled for. -/
theorem unitPath_of_mem_classes {units : List SourceUnit} {c : Scheduled}
    (h : c ∈ (ofUnits t units).classes) :
    (units.find? (c.className ∈ group t ·)).map (·.unitPath) = some c.unitPath := by
  have hfirst : (ofUnits t units).classes.find? (·.className = c.className) = some c := by
    obtain ⟨d, hd⟩ := Option.isSome_iff_exists.1 (List.find?_isSome.2 ⟨c, h, by simp⟩ :
      ((ofUnits t units).classes.find? (·.className = c.className)).isSome = true)
    have hname : d.className = c.className := by simpa using List.find?_some hd
    have hsame : d = c := List.inj_on_of_nodup_map (nodup_classes t units)
      (List.mem_of_find?_eq_some hd) h hname
    rw [hd, hsame]
  rw [classes_ofUnits, find?_foldl_enlist, List.nil_append, find?_candidates] at hfirst
  simpa using congrArg (Option.map (·.unitPath)) hfirst

/-- The classes scheduled are those of the groups, in the order of their first occurrence. -/
theorem names_ofUnits (t : ClassTable) (units : List SourceUnit) :
    (ofUnits t units).classes.map (·.className) = (units.flatMap (group t)).eraseDups := by
  have hnone : ([] : List Scheduled).map (·.className) = ([] : List String).eraseDups := rfl
  have hgroup : ∀ u : SourceUnit, ((group t u).map (Scheduled.mk · u.unitPath)).map (·.className) =
      group t u := fun u => by rw [List.map_map]; exact List.map_id _
  rw [classes_ofUnits, names_foldl_enlist hnone, List.nil_append, candidates, List.map_flatMap]
  simp only [hgroup]

theorem mem_names_ofUnits_iff {units : List SourceUnit} {n : String} :
    n ∈ (ofUnits t units).classes.map (·.className) ↔
      t.has n = true ∧ ∃ u ∈ units, t.has u.className = true ∧ t.unitPath u.className = t.unitPath n := by
  rw [names_ofUnits, List.mem_eraseDups, List.mem_flatMap]
  simp only [mem_group_iff]
  exact ⟨fun ⟨u, hu, hn, hsame⟩ => ⟨hn, u, hu, hsame⟩, fun ⟨hn, u, hu, hsame⟩ => ⟨u, hu, hn, hsame⟩⟩

/-- A plan schedules no class twice. It schedules the classes of the table that share their unit path with the
class of a unit, in the order in which the groups of the units first bring them, and each for the first unit that
brings it. It skips the units of unknown classes. So the order of the units does not decide which classes are
scheduled. -/
theorem ofUnits_closure (t : ClassTable) (units : List SourceUnit) :
    let plan := ofUnits t units
    (plan.classes.map (·.className)).Nodup ∧
    (∀ n, n ∈ plan.classes.map (·.className) ↔
      t.has n = true ∧ ∃ u ∈ units, t.has u.className = true ∧ t.unitPath u.className = t.unitPath n) ∧
    plan.classes.map (·.className) = (units.flatMap (group t)).eraseDups ∧
    (∀ c ∈ plan.classes, (units.find? (c.className ∈ group t ·)).map (·.unitPath) = some c.unitPath) ∧
    plan.skipped = unknown t units ∧
    ∀ others : List SourceUnit, others.Perm units → ∀ n,
      n ∈ (ofUnits t others).classes.map (·.className) ↔ n ∈ plan.classes.map (·.className) := by
  refine ⟨nodup_classes t units, fun n => mem_names_ofUnits_iff, names_ofUnits t units,
    fun c => unitPath_of_mem_classes, skipped_ofUnits t units, fun others hperm n => ?_⟩
  rw [mem_names_ofUnits_iff, mem_names_ofUnits_iff]
  simp only [hperm.mem_iff]

/-- Two classes at one unit path, and another one. -/
def outlineTable : ClassTable :=
  .ofRecords [("Ring", .located "geometries/Ring"), ("RingOutline", .located "./geometries/Ring.js"),
    ("Shape", .located "extras/Shape")] .empty

/-- The unit of `RingOutline` brings `Ring` before the unit of `Ring` does. -/
theorem ofUnits_closure_outline :
    let units : List SourceUnit := [⟨"ghosts/Ghost", "Ghost"⟩, ⟨"lines/RingOutline", "RingOutline"⟩,
      ⟨"extras/Shape", "Shape"⟩, ⟨"geometries/Ring", "Ring"⟩, ⟨"extras/Shape", "Shape"⟩]
    let plan := ofUnits outlineTable units
    plan.classes.map (·.className) = ["RingOutline", "Ring", "Shape"] ∧
      (∃ c ∈ plan.classes, c.className = "Ring" ∧ c.unitPath = "lines/RingOutline") ∧
      plan.skipped = [⟨"Ghost", "ghosts/Ghost", .unknownClass "Ghost"⟩] ∧
      units.reverse.Perm units ∧
      "Ring" ∈ (ofUnits outlineTable units.reverse).classes.map (·.className) := by
  intro units plan
  obtain ⟨-, -, hnames, hfirst, hskipped, hperm⟩ := ofUnits_closure outlineTable units
  have horder : (units.flatMap (group outlineTable)).eraseDups = ["RingOutline", "Ring", "Shape"] := by
    decide +kernel
  rw [horder] at hnames
  have hring : "Ring" ∈ plan.classes.map (·.className) := hnames ▸ by simp
  obtain ⟨c, hc, hname⟩ := List.mem_map.1 hring
  have hpath : (units.find? ("Ring" ∈ group outlineTable ·)).map (·.unitPath) =
      some "lines/RingOutline" := by
    decide +kernel
  have hreverse : units.reverse.Perm units := List.reverse_perm units
  refine ⟨hnames, ⟨c, hc, hname, ?_⟩, hskipped.trans (by decide +kernel), hreverse, ?_⟩
  · exact Option.some.inj ((hfirst c hc).symm.trans (hname ▸ hpath))
  · exact (hperm units.reverse hreverse "Ring").2 hring

end Plan
end WrapperGen
