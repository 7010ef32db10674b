import WrapperGen.Proofs.Inheritance.Walk

/-!
# Lineages

The lineage of a class is the class and all above it with their records, up to one without superclass.
What a class resolves to is its lineage merged from the top down. A class has at most one lineage, and
no class comes twice in it.
-/

namespace WrapperGen.ClassTable

variable {t : ClassTable}

/-- `t.Lineage c line`: from `c` upwards, the classes and their records are `line`. -/
inductive Lineage (t : ClassTable) : String → Named ClassRecord → Prop
  | top {c : String} {r : ClassRecord} (record : t.get? c = some r)
      (last : ∀ p, ¬ t.Extends c p) : Lineage t c [(c, r)]
  | link {c p : String} {r : ClassRecord} {line : Named ClassRecord}
      (record : t.get? c = some r) (step : t.Extends c p) (above : Lineage t p line) :
      Lineage t c ((c, r) :: line)

/-- A lineage merged from the top down. -/
def merged (t : ClassTable) (line : Named ClassRecord) : Option Resolved :=
  line.foldr (fun e above => some (t.merge e.1 e.2 above)) none

theorem merged_cons (c : String) (r : ClassRecord) (line : Named ClassRecord) :
    t.merged ((c, r) :: line) = some (t.merge c r (t.merged line)) := rfl

theorem Lineage.unique {c : String} {line other : Named ClassRecord} (h : t.Lineage c line)
    (h' : t.Lineage c other) : line = other := by
  induction h generalizing other with
  | top record last =>
    cases h' with
    | top record' _ => rw [Option.some.inj (record.symm.trans record')]
    | link _ step _ => exact absurd step (last _)
  | link record step above ih =>
    cases h' with
    | top _ last => exact absurd step (last _)
    | link record' step' above' =>
      obtain rfl := step.functional step'
      rw [Option.some.inj (record.symm.trans record'), ih above']

/-- Every class of a lineage has the rest of it as its own. -/
theorem Lineage.of_append {c d : String} {r : ClassRecord} {front rest : Named ClassRecord}
    (h : t.Lineage c (front ++ (d, r) :: rest)) : t.Lineage d ((d, r) :: rest) := by
  induction front generalizing c with
  | nil =>
    have hc := h
    cases h with
    | top => exact hc
    | link => exact hc
  | cons e front ih =>
    generalize hline : e :: front ++ (d, r) :: rest = line at h
    cases h with
    | top => simp at hline
    | link _ _ above =>
      obtain ⟨-, rfl⟩ := List.cons.inj hline
      exact ih above

theorem Lineage.get? {c : String} {line : Named ClassRecord} (h : t.Lineage c line) :
    ∀ e ∈ line, t.get? e.1 = some e.2 := by
  induction h with
  | top record _ => simpa using record
  | link record _ _ ih =>
    intro e he
    rcases List.mem_cons.1 he with rfl | he
    · exact record
    · exact ih e he

theorem Lineage.names_cons {c : String} {line : Named ClassRecord} (h : t.Lineage c line) :
    ∃ cs, line.names = c :: cs := by
  cases h with
  | top => exact ⟨[], rfl⟩
  | link _ _ _ => exact ⟨_, rfl⟩

theorem Lineage.walk {c : String} {line : Named ClassRecord} (h : t.Lineage c line) :
    t.Walk c line.names := by
  induction h with
  | top => exact walk_single _
  | link _ step above ih =>
    obtain ⟨cs, hcs⟩ := above.names_cons
    refine ⟨rfl, ?_⟩
    have hchain := ih.2
    simp only [Named.names, List.map_cons] at hcs hchain ⊢
    rw [hcs] at hchain ⊢
    exact List.isChain_cons_cons.2 ⟨step, hchain⟩

theorem Lineage.names_last {c : String} {line : Named ClassRecord} (h : t.Lineage c line) :
    ∃ cs d, line.names = cs ++ [d] ∧ ∀ p, ¬ t.Extends d p := by
  induction h with
  | @top c r _ last => exact ⟨[], c, rfl, last⟩
  | @link c p r line _ _ _ ih =>
    obtain ⟨cs, d, hcs, last⟩ := ih
    exact ⟨c :: cs, d, by simp [Named.names, ← hcs], last⟩

/-- A class that came twice would have two lineages of different lengths. -/
theorem Lineage.nodup_names {c : String} {line : Named ClassRecord} (h : t.Lineage c line) :
    line.names.Nodup := by
  induction h with
  | top => simp [Named.names]
  | @link c p r line record step above ih =>
    refine List.nodup_cons.2 ⟨fun hc => ?_, ih⟩
    obtain ⟨⟨d, s⟩, hmem, rfl⟩ := List.mem_map.1 hc
    obtain ⟨front, rest, rfl⟩ := List.append_of_mem hmem
    have hline := (Lineage.link record step above).unique above.of_append
    have hlength := congrArg List.length hline
    simp at hlength
    omega

theorem Lineage.ends {c : String} {line : Named ClassRecord} (h : t.Lineage c line) :
    t.Ends c .top := by
  obtain ⟨cs, d, hcs, last⟩ := h.names_last
  refine ⟨cs, d, hcs ▸ h.walk, hcs ▸ h.nodup_names, fun b hb => ?_, last⟩
  rw [← hcs] at hb
  obtain ⟨e, he, rfl⟩ := List.mem_map.1 hb
  exact has_iff.2 ⟨e.2, h.get? e he⟩

end WrapperGen.ClassTable
