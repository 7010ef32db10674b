import WrapperGen.Proofs.Inheritance.Agreement
import WrapperGen.Proofs.Inheritance.Outcome

/-!
# Default superclasses

The default superclass is put above every class that names none, except the class that it names. Where
the superclasses that records name come to an end, the default closes a cycle in one case only: the class
that it names has a superclass of its own, and further up a class that names none, which the default puts
below again. Then no class resolves from which named superclasses lead to such a class, and all others do.
-/

namespace WrapperGen.ClassTable

variable {t : ClassTable} {c d p s : String} {line : Named ClassRecord}

/-- The table without its default superclass: only the superclasses that records name count. -/
def withoutDefault (t : ClassTable) : ClassTable :=
  { t with defaults := { t.defaults with superClass := none } }

/-- A class whose record names no superclass, not even the root. -/
def Silent (t : ClassTable) (c : String) : Prop :=
  ∃ r, t.get? c = some r ∧ r.superClass = none

/-- `t.EndsSilent c`: the superclasses that records name lead from `c` to a class that names none. -/
def EndsSilent (t : ClassTable) (c : String) : Prop :=
  ∃ s, t.withoutDefault.Meets c s ∧ t.Silent s

/-- The superclasses that records name lead from every class, through classes of the table and through none
twice, to one that names none or the root, and the default names a class of the table or the root. -/
structure Grounded (t : ClassTable) : Prop where
  named : ∀ c, t.has c = true → t.withoutDefault.Ends c .top
  default : ∀ d, t.defaults.superClass = some d → t.knows d = true

/-- The default names a class with a superclass of its own, and further up stands a class that names
none. -/
def DefaultReturns (t : ClassTable) : Prop :=
  ∃ d, t.defaults.superClass = some d ∧ d ≠ t.root ∧ ¬ t.Silent d ∧ t.EndsSilent d

/-- A superclass is either named by the record of a class or put above a silent one by the default. -/
theorem extends_iff : t.Extends c p ↔ t.withoutDefault.Extends c p ∨
    t.Silent c ∧ t.defaults.superClass = some p ∧ p ≠ c ∧ p ≠ t.root := by
  constructor
  · intro h
    cases h with
    | own record named inner => exact .inl (.own record named inner)
    | default record silent named other inner => exact .inr ⟨⟨_, record, silent⟩, named, other, inner⟩
  · rintro (h | ⟨⟨r, record, silent⟩, named, other, inner⟩)
    · cases h with
      | own record named inner => exact .own record named inner
      | default _ _ named _ _ => exact nomatch named
    · exact .default record silent named other inner

theorem Silent.not_extends (h : t.Silent c) : ¬ t.withoutDefault.Extends c p := by
  obtain ⟨r, record, silent⟩ := h
  rintro (⟨record', named, -⟩ | ⟨-, -, named, -, -⟩)
  · obtain rfl : r = _ := Option.some.inj (record.symm.trans record')
    exact nomatch silent.symm.trans named
  · exact nomatch named

theorem Meets.of_withoutDefault (h : t.withoutDefault.Meets c d) : t.Meets c d := by
  have hsub : ∀ a b, t.withoutDefault.Extends a b → t.Extends a b :=
    fun _ _ step => extends_iff.2 (.inl step)
  exact Relation.ReflTransGen.mono hsub c d h

theorem Ends.exists_lineage (h : t.Ends c .top) : ∃ line, t.Lineage c line := by
  obtain ⟨r, hr⟩ := exists_resolve_iff.2 h
  obtain ⟨line, lineage, -⟩ := resolve_eq_ok_iff.1 hr
  exact ⟨line, lineage⟩

theorem Lineage.has (h : t.Lineage c line) : t.has c = true := by
  cases h with
  | top record _ => exact has_iff.2 ⟨_, record⟩
  | link record _ _ => exact has_iff.2 ⟨_, record⟩

/-- A class that is met from another one has a part of its lineage. -/
theorem Lineage.of_meets (h : t.Lineage c line) (hd : t.Meets c d) :
    ∃ rest, t.Lineage d rest ∧ rest.length ≤ line.length := by
  induction hd using Relation.ReflTransGen.head_induction_on generalizing line with
  | refl => exact ⟨line, h, le_rfl⟩
  | head step _ ih =>
    cases h with
    | top _ last => exact absurd step (last _)
    | link _ step' above =>
      obtain rfl := step.functional step'
      obtain ⟨rest, hrest, hlength⟩ := ih above
      exact ⟨rest, hrest, hlength.trans (Nat.le_succ _)⟩

/-- From its superclass a class with a lineage is never met again. -/
theorem Lineage.not_meets_again (h : t.Lineage c line) (step : t.Extends c p) : ¬ t.Meets p c := by
  intro hmeets
  cases h with
  | top _ last => exact last _ step
  | @link _ q r above record step' habove =>
    obtain rfl := step.functional step'
    obtain ⟨rest, hrest, hlength⟩ := habove.of_meets hmeets
    have hsame := hrest.unique (.link record step habove)
    rw [hsame, List.length_cons] at hlength
    omega

/-- The lineage that named superclasses make continues above the silent class at its end. -/
theorem lineage_of_named (h : t.withoutDefault.Lineage c line)
    (hsilent : ∀ s, t.withoutDefault.Meets c s → t.Silent s → ∃ above, t.Lineage s above) :
    ∃ line, t.Lineage c line := by
  induction h with
  | @top c r record last =>
    by_cases hc : t.Silent c
    · exact hsilent c .refl hc
    · refine ⟨_, .top record fun p step => ?_⟩
      rcases extends_iff.1 step with named | ⟨silent, -⟩
      · exact last p named
      · exact hc silent
  | link record step _ ih =>
    obtain ⟨above, habove⟩ := ih fun s hs => hsilent s (hs.head step)
    exact ⟨_, .link record (extends_iff.2 (.inl step)) habove⟩

namespace Grounded

variable (h : t.Grounded)

include h

theorem has_of_extends (step : t.Extends c p) : t.has p = true := by
  rcases extends_iff.1 step with named | ⟨-, default, -, inner⟩
  · obtain ⟨r, record⟩ := step.record
    obtain ⟨line, lineage⟩ := (h.named c (has_iff.2 ⟨r, record⟩)).exists_lineage
    cases lineage with
    | top _ last => exact absurd named (last p)
    | link _ named' above =>
      obtain rfl := named.functional named'
      exact above.has
  · simpa [knows, isRoot, inner] using h.default p default

theorem has_of_meets (hc : t.has c = true) (hd : t.Meets c d) : t.has d = true := by
  induction hd with
  | refl => exact hc
  | tail _ step _ => exact h.has_of_extends step

/-- A silent class ends its lineage or has that of the default above it. -/
theorem lineage_of_silent (hreturns : ¬ t.DefaultReturns) (hs : t.Silent s) :
    ∃ line, t.Lineage s line := by
  obtain ⟨r, record, silent⟩ := hs
  by_cases hlast : ∀ p, ¬ t.Extends s p
  · exact ⟨_, .top record hlast⟩
  · obtain ⟨d, step⟩ := not_forall_not.1 hlast
    obtain ⟨hs, default, other, inner⟩ :=
      (extends_iff.1 step).resolve_left (Silent.not_extends ⟨r, record, silent⟩)
    have hd : t.has d = true := h.has_of_extends step
    obtain ⟨own, hown⟩ := has_iff.1 hd
    by_cases hd' : t.Silent d
    · -- The default has no effect on the class that it names.
      refine ⟨_, .link record step (.top hown fun p step' => ?_)⟩
      obtain ⟨-, default', other', -⟩ := (extends_iff.1 step').resolve_left hd'.not_extends
      exact other' (Option.some.inj (default'.symm.trans default))
    · obtain ⟨line, lineage⟩ := (h.named d hd).exists_lineage
      have hends : ¬ t.EndsSilent d := fun hends => hreturns ⟨d, default, inner, hd', hends⟩
      obtain ⟨above, habove⟩ := lineage_of_named lineage fun s hmeets hs => absurd ⟨s, hmeets, hs⟩ hends
      exact ⟨_, .link record step habove⟩

theorem lineage_iff (hc : t.has c = true) :
    (∃ line, t.Lineage c line) ↔ ¬ (t.EndsSilent c ∧ t.DefaultReturns) := by
  constructor
  · rintro ⟨line, lineage⟩ ⟨⟨s, hs, silent⟩, d, default, inner, hd, a, ha, last⟩
    -- The default is above the silent class at the end, and below the one that it leads to.
    have step : t.Extends s d := extends_iff.2 (.inr ⟨silent, default, fun he => hd (he ▸ silent), inner⟩)
    have back : t.Extends a d := extends_iff.2 (.inr ⟨last, default, fun he => hd (he ▸ last), inner⟩)
    have hmeets : t.Meets c a := (hs.of_withoutDefault.tail step).trans ha.of_withoutDefault
    obtain ⟨rest, hrest, -⟩ := lineage.of_meets hmeets
    exact hrest.not_meets_again back ha.of_withoutDefault
  · intro hnot
    obtain ⟨line, lineage⟩ := (h.named c hc).exists_lineage
    exact lineage_of_named lineage fun s hs silent =>
      h.lineage_of_silent (fun hreturns => hnot ⟨⟨s, hs, silent⟩, hreturns⟩) silent

/-- Resolving a class of the table never comes to a name that the table does not have. -/
theorem resolve_ne_unknown (hc : t.has c = true) (n : String) :
    t.resolve c ≠ .error (.unknownClass n) := by
  intro hunknown
  obtain ⟨cs, walk, -, -, absent⟩ := resolve_eq_unknown_iff.1 hunknown
  exact absent (h.has_of_meets hc (walk.meets n (by simp)))

end Grounded

/-- Where the superclasses that records name come to an end, a class is in a cycle exactly if they lead from
it to a class that names none, and the default returns to such a class. All other classes resolve. -/
theorem cycle_iff_default_returns (h : t.Grounded) (hc : t.has c = true) :
    ((∃ a route, t.resolve c = .error (.cycle a route)) ↔ t.EndsSilent c ∧ t.DefaultReturns) ∧
      ((∃ r, t.resolve c = .ok r) ↔ ¬ (t.EndsSilent c ∧ t.DefaultReturns)) := by
  have hok : (∃ r, t.resolve c = .ok r) ↔ ¬ (t.EndsSilent c ∧ t.DefaultReturns) := by
    rw [← h.lineage_iff hc]
    constructor
    · rintro ⟨r, hr⟩
      exact (exists_resolve_iff.1 ⟨r, hr⟩).exists_lineage
    · rintro ⟨line, lineage⟩
      exact exists_resolve_iff.2 lineage.ends
  refine ⟨?_, hok⟩
  rw [← not_iff_not, ← hok]
  have hunknown := h.resolve_ne_unknown hc
  have hanswer := t.answers_resolve c
  constructor
  · intro hcycle
    generalize t.resolve c = answer at hanswer hunknown hcycle
    cases hanswer with
    | resolved _ _ => exact ⟨_, rfl⟩
    | unknown _ => exact absurd rfl (hunknown _)
    | cycle _ => exact absurd ⟨_, _, rfl⟩ hcycle
  · rintro ⟨r, hr⟩ ⟨a, route, hcycle⟩
    exact nomatch hr.symm.trans hcycle

/-- The default is put below a class that names no superclass; one class names the root instead. -/
def returningTable : ClassTable :=
  ofRecords [("Base", .empty), ("Object3D", ClassRecord.empty.extending "Base"),
    ("Top", ClassRecord.empty.extending "Three")] (ClassRecord.empty.extending "Object3D")

theorem grounded_returningTable : returningTable.Grounded where
  named c hc := by
    have hnames : returningTable.names = ["Base", "Object3D", "Top"] := by decide
    rw [has_iff_mem, hnames] at hc
    simp only [List.mem_cons, List.not_mem_nil, or_false] at hc
    rcases hc with rfl | rfl | rfl <;> exact exists_resolve_iff.1 ⟨_, by cbv⟩
  default d hd := by
    obtain rfl : "Object3D" = d := Option.some.inj hd
    decide

theorem silent_base : returningTable.Silent "Base" := ⟨.empty, by decide, rfl⟩

theorem cycle_iff_default_returns_base :
    returningTable.Grounded ∧ (∃ a route, returningTable.resolve "Base" = .error (.cycle a route)) ∧
      ∃ r, returningTable.resolve "Top" = .ok r := by
  have hstep : returningTable.withoutDefault.Extends "Object3D" "Base" :=
    .own (r := ClassRecord.empty.extending "Base") (by decide) rfl (by decide)
  have hloud : ¬ returningTable.Silent "Object3D" := fun h => h.not_extends hstep
  have hreturns : returningTable.DefaultReturns :=
    ⟨"Object3D", rfl, by decide, hloud, "Base", .single hstep, silent_base⟩
  have htop : ¬ returningTable.EndsSilent "Top" := by
    have hrecord : returningTable.get? "Top" = some (ClassRecord.empty.extending "Three") := by decide
    have hlast : ∀ p, ¬ returningTable.withoutDefault.Extends "Top" p :=
      (parent?_eq_none_iff (t := returningTable.withoutDefault) hrecord).1 (by decide)
    rintro ⟨s, hs, silent⟩
    rcases hs.cases_head with rfl | ⟨p, step, -⟩
    · obtain ⟨r, record, hnone⟩ := silent
      obtain rfl := Option.some.inj (hrecord.symm.trans record)
      exact nomatch hnone
    · exact hlast p step
  refine ⟨grounded_returningTable, ?_, ?_⟩
  · exact (cycle_iff_default_returns grounded_returningTable (by decide)).1.2
      ⟨⟨"Base", .refl, silent_base⟩, hreturns⟩
  · exact (cycle_iff_default_returns grounded_returningTable (by decide)).2.2 fun h => htop h.1

/-- No two superclasses that records name form a cycle, and yet the default closes one. -/
theorem default_closes_cycle : returningTable.Grounded ∧
    returningTable.resolve "Base" = .error (.cycle "Base" ["Base", "Object3D", "Base"]) :=
  ⟨grounded_returningTable, by cbv⟩

end WrapperGen.ClassTable
