import WrapperGen.Proofs.Inheritance.Resolution

/-!
# The outcome of resolving a class

The outcome is decided by what the walk along superclasses comes to, and the loop finds it within one
step more than there are classes.
-/

namespace WrapperGen.ClassTable

variable {t : ClassTable}

theorem resolve_eq_ok_iff {c : String} {r : Resolved} :
    t.resolve c = .ok r ↔ ∃ line, t.Lineage c line ∧ t.merged line = some r := by
  constructor
  · intro h
    have hanswer := t.answers_resolve c
    rw [h] at hanswer
    cases hanswer with
    | resolved lineage merged => exact ⟨_, lineage, merged⟩
  · rintro ⟨line, lineage, merged⟩
    exact (t.answers_resolve c).unique (.resolved lineage merged)

/-- A class resolves to its own record merged with what stands above it. -/
theorem resolve_eq_merge {c : String} {r : Resolved} (h : t.resolve c = .ok r) :
    ∃ own above, t.get? c = some own ∧ r = t.merge c own above := by
  obtain ⟨line, lineage, hmerged⟩ := resolve_eq_ok_iff.1 h
  cases lineage with
  | top record _ => exact ⟨_, _, record, (Option.some.inj hmerged).symm⟩
  | link record _ _ => exact ⟨_, _, record, (Option.some.inj hmerged).symm⟩

theorem className_of_resolve {c : String} {r : Resolved} (h : t.resolve c = .ok r) : r.className = c := by
  obtain ⟨own, above, -, rfl⟩ := resolve_eq_merge h
  rfl

/-- Above a class that resolves stands the lineage of its superclass, without the class itself. -/
theorem lineage_of_superClass {c p : String} {r : Resolved} (h : t.resolve c = .ok r)
    (hp : r.superClass = some p) : ∃ line, t.Lineage p line ∧ c ∉ line.names := by
  obtain ⟨line, lineage, hmerged⟩ := resolve_eq_ok_iff.1 h
  cases lineage with
  | top record last =>
    obtain rfl := Option.some.inj hmerged
    exact absurd ((parent?_eq_some_iff record).1 hp) (last p)
  | link record step above =>
    obtain rfl := Option.some.inj hmerged
    obtain rfl := step.functional ((parent?_eq_some_iff record).1 hp)
    exact ⟨_, above, (List.nodup_cons.1 (Lineage.link record step above).nodup_names).1⟩

/-- The superclass of a class that resolves is a class of the table. -/
theorem get?_superClass_of_resolve {c p : String} {r : Resolved} (h : t.resolve c = .ok r)
    (hp : r.superClass = some p) : ∃ own, t.get? p = some own := by
  obtain ⟨line, lineage, -⟩ := lineage_of_superClass h hp
  cases lineage with
  | top record _ => exact ⟨_, record⟩
  | link record _ _ => exact ⟨_, record⟩

/-- A class that resolves is not its own superclass. -/
theorem superClass_ne_of_resolve {c p : String} {r : Resolved} (h : t.resolve c = .ok r)
    (hp : r.superClass = some p) : p ≠ c := by
  rintro rfl
  obtain ⟨line, lineage, habsent⟩ := lineage_of_superClass h hp
  obtain ⟨rest, hrest⟩ := lineage.names_cons
  exact habsent (hrest ▸ List.mem_cons_self)

theorem exists_resolve_iff {c : String} : (∃ r, t.resolve c = .ok r) ↔ t.Ends c .top := by
  constructor
  · rintro ⟨r, h⟩
    obtain ⟨line, lineage, _⟩ := resolve_eq_ok_iff.1 h
    exact lineage.ends
  · intro h
    have hanswer := t.answers_resolve c
    generalize t.resolve c = answer at hanswer
    cases hanswer with
    | resolved _ _ => exact ⟨_, rfl⟩
    | unknown ends => exact nomatch h.unique ends
    | cycle ends => exact nomatch h.unique ends

theorem resolve_eq_unknown_iff {c n : String} :
    t.resolve c = .error (.unknownClass n) ↔ t.Ends c (.missing n) := by
  constructor
  · intro h
    have hanswer := t.answers_resolve c
    rw [h] at hanswer
    cases hanswer with
    | unknown ends => exact ends
  · intro ends
    exact (t.answers_resolve c).unique (.unknown ends)

theorem resolve_eq_cycle_iff {c a : String} {route : List String} :
    t.resolve c = .error (.cycle a route) ↔ a = c ∧ t.Ends c (.repeated route) := by
  constructor
  · intro h
    have hanswer := t.answers_resolve c
    rw [h] at hanswer
    cases hanswer with
    | cycle ends => exact ⟨rfl, ends⟩
  · rintro ⟨rfl, ends⟩
    exact (t.answers_resolve a).unique (.cycle ends)

theorem Answers.ends {c : String} {answer : Except Error Resolved} (h : t.Answers c answer) :
    ∃ e, t.Ends c e := by
  cases h with
  | resolved lineage _ => exact ⟨_, lineage.ends⟩
  | unknown ends => exact ⟨_, ends⟩
  | cycle ends => exact ⟨_, ends⟩

/-- A class resolves exactly if the walk from it ends at a class without superclass. It fails with the
name that the table does not have, or with the way to the class that comes again, if the walk comes to
such a name first, and one of these is always the case. -/
theorem resolve_outcome (t : ClassTable) (c : String) :
    ((∃ r, t.resolve c = .ok r) ↔ t.Ends c .top) ∧
    (∀ n, t.resolve c = .error (.unknownClass n) ↔ t.Ends c (.missing n)) ∧
    (∀ a route, t.resolve c = .error (.cycle a route) ↔ a = c ∧ t.Ends c (.repeated route)) ∧
    (∃! e, t.Ends c e) ∧
    ∀ memo, ∃ n ≤ t.names.length + 1, t.Climbs memo c n ⟨[], c⟩ (t.ascend memo c) := by
  obtain ⟨e, he⟩ := (t.answers_resolve c).ends
  refine ⟨exists_resolve_iff, fun n => resolve_eq_unknown_iff, fun a route => resolve_eq_cycle_iff,
    ⟨e, he, fun f hf => hf.unique he⟩, fun memo => t.climbs_ascend memo c⟩

/-- A class that runs into a cycle it is not part of. -/
example : (ofRecords [("A", ClassRecord.empty.extending "B"), ("B", ClassRecord.empty.extending "C"),
    ("C", ClassRecord.empty.extending "B")] .empty).resolve "A" =
      .error (.cycle "A" ["A", "B", "C", "B"]) := by
  cbv

end WrapperGen.ClassTable
