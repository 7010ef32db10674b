import Mathlib.Data.List.Permutation
import WrapperGen.Proofs.Inheritance.Lineage

/-!
# Climbs

The loop that climbs from a class upwards, step by step. Every ascent it comes to has passed classes of
the table, each once, so it ends before its limit of steps: after at most one step more than there are
classes. How it ends is read off its last step.
-/

namespace WrapperGen.ClassTable

variable {t : ClassTable} {memo : Memo} {start : String}

/-- The ascents that climbs from `start` come to. -/
inductive Ascending (t : ClassTable) (start : String) : Ascent → Prop
  | start : Ascending t start ⟨[], start⟩
  | onward {a : Ascent} {r : ClassRecord} {p : String} (before : Ascending t start a)
      (record : t.get? a.name = some r) (fresh : a.name ∉ a.passed.names)
      (step : t.Extends a.name p) : Ascending t start ⟨(a.name, r) :: a.passed, p⟩

theorem Ascending.nodup {a : Ascent} (h : t.Ascending start a) : a.passed.names.Nodup := by
  induction h with
  | start => exact .nil
  | onward _ _ fresh _ ih => exact List.nodup_cons.2 ⟨fresh, ih⟩

theorem Ascending.has {a : Ascent} (h : t.Ascending start a) :
    ∀ c ∈ a.passed.names, t.has c := by
  induction h with
  | start => simp [Named.names]
  | onward _ record _ _ ih =>
    intro c hc
    rcases List.mem_cons.1 hc with rfl | hc
    · exact has_iff.2 ⟨_, record⟩
    · exact ih c hc

theorem Ascending.walk {a : Ascent} (h : t.Ascending start a) : t.Walk start a.route := by
  induction h with
  | start => exact walk_single start
  | @onward a r p _ _ _ step ih =>
    have hroute : Ascent.route ⟨(a.name, r) :: a.passed, p⟩ = a.route ++ [p] := by
      simp [Ascent.route, Named.names]
    rw [hroute]
    exact ih.snoc step

theorem Ascending.lineage {a : Ascent} (h : t.Ascending start a) :
    ∀ {line : Named ClassRecord}, t.Lineage a.name line →
      t.Lineage start (a.passed.reverse ++ line) := by
  induction h with
  | start => exact fun hline => hline
  | onward _ record _ step ih =>
    intro line hline
    simpa using ih (.link record step hline)

theorem Ascending.length_le {a : Ascent} (h : t.Ascending start a) :
    a.passed.length ≤ t.names.length := by
  have hsubset : a.passed.names ⊆ t.names := fun c hc => has_iff_mem.1 (h.has c hc)
  simpa [Named.names] using (List.subperm_of_subset h.nodup hsubset).length_le

/-- All that one step of a climb can come to, and when. -/
inductive StepsTo (t : ClassTable) (memo : Memo) (start : String) (a : Ascent) :
    Ascent.Step → Prop
  | missing (absent : t.get? a.name = none) :
      StepsTo t memo start a (.ended (.error (.unknownClass a.name)))
  | again (again : a.name ∈ a.passed.names) :
      StepsTo t memo start a (.ended (.error (.cycle start a.route)))
  | top {r : ClassRecord} (record : t.get? a.name = some r) (fresh : a.name ∉ a.passed.names)
      (last : ∀ p, ¬ t.Extends a.name p) :
      StepsTo t memo start a (.ended (.ok ⟨(a.name, r) :: a.passed, none⟩))
  | met {r : ClassRecord} {p : String} {above : Resolved} (record : t.get? a.name = some r)
      (fresh : a.name ∉ a.passed.names) (step : t.Extends a.name p)
      (known : memo[p]? = some above) :
      StepsTo t memo start a (.ended (.ok ⟨(a.name, r) :: a.passed, some above⟩))
  | onward {r : ClassRecord} {p : String} (record : t.get? a.name = some r)
      (fresh : a.name ∉ a.passed.names) (step : t.Extends a.name p) :
      StepsTo t memo start a (.onward ⟨(a.name, r) :: a.passed, p⟩)

theorem stepsTo_climbStep (t : ClassTable) (memo : Memo) (start : String) (a : Ascent) :
    t.StepsTo memo start a (t.climbStep memo start a) := by
  unfold climbStep
  cases record : t.get? a.name with
  | none => exact .missing record
  | some r =>
    have hpassed : a.passed.has a.name = true ↔ a.name ∈ a.passed.names := by
      simp [Named.has, Named.names]
    by_cases hp : a.name ∈ a.passed.names
    · simp only [hpassed.2 hp, if_true]
      exact .again hp
    · simp only [mt hpassed.1 hp]
      cases parent : t.parent? a.name r with
      | none => exact .top record hp ((parent?_eq_none_iff record).1 parent)
      | some p =>
        have step := (parent?_eq_some_iff record).1 parent
        cases known : memo[p]? with
        | none => simpa only [known] using .onward record hp step
        | some above => simpa only [known] using .met record hp step known

theorem Ascending.step {a b : Ascent} (h : t.Ascending start a)
    (hstep : t.climbStep memo start a = .onward b) : t.Ascending start b := by
  have hcases := t.stepsTo_climbStep memo start a
  rw [hstep] at hcases
  cases hcases with
  | onward record fresh step => exact .onward h record fresh step

/-- `t.Climbs memo start n a outcome`: from `a`, the climb ends with `outcome` at its `n`-th step. -/
inductive Climbs (t : ClassTable) (memo : Memo) (start : String) :
    Nat → Ascent → Except Error Chain → Prop
  | last {a : Ascent} {outcome : Except Error Chain}
      (step : t.climbStep memo start a = .ended outcome) : Climbs t memo start 1 a outcome
  | onward {n : Nat} {a b : Ascent} {outcome : Except Error Chain}
      (step : t.climbStep memo start a = .onward b) (rest : Climbs t memo start n b outcome) :
      Climbs t memo start (n + 1) a outcome

/-- Enough steps are those that could pass all classes and one more. -/
theorem Ascending.exists_climbs {a : Ascent} {fuel : Nat} (h : t.Ascending start a)
    (enough : t.names.length + 1 ≤ a.passed.length + fuel) :
    ∃ n ≤ fuel, t.Climbs memo start n a (t.climb memo start fuel a) := by
  induction fuel generalizing a with
  | zero =>
    -- The passed classes would be more than the table has.
    have hlength := h.length_le
    omega
  | succ fuel ih =>
    simp only [climb]
    cases hstep : t.climbStep memo start a with
    | ended outcome => exact ⟨1, by omega, .last hstep⟩
    | onward b =>
      have hb := h.step hstep
      have hlength : b.passed.length = a.passed.length + 1 := by
        have hcases := t.stepsTo_climbStep memo start a
        rw [hstep] at hcases
        cases hcases
        rfl
      obtain ⟨n, hn, hrest⟩ := ih hb (by omega)
      exact ⟨n + 1, by omega, .onward hstep hrest⟩

theorem climbs_ascend (t : ClassTable) (memo : Memo) (start : String) :
    ∃ n ≤ t.names.length + 1, t.Climbs memo start n ⟨[], start⟩ (t.ascend memo start) :=
  Ascending.start.exists_climbs (by simp)

theorem Climbs.last_step {n : Nat} {a : Ascent} {outcome : Except Error Chain}
    (h : t.Climbs memo start n a outcome) (ha : t.Ascending start a) :
    ∃ b, t.Ascending start b ∧ t.StepsTo memo start b (.ended outcome) := by
  induction h with
  | @last a _ step => exact ⟨a, ha, step ▸ t.stepsTo_climbStep memo start a⟩
  | onward step _ ih => exact ih (ha.step step)

/-- How a climb ends is what one step from some ascent comes to. -/
theorem ascend_last_step (t : ClassTable) (memo : Memo) (start : String) :
    ∃ a, t.Ascending start a ∧ t.StepsTo memo start a (.ended (t.ascend memo start)) := by
  obtain ⟨n, _, h⟩ := t.climbs_ascend memo start
  exact h.last_step .start

end WrapperGen.ClassTable
