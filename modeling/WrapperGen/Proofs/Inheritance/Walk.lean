import Mathlib.Data.List.Chain
import WrapperGen.Inheritance

/-!
# Walks along superclasses

What a class table says about superclasses, apart from how they are looked up: which class extends
which, the walk from a class upwards, and what every such walk comes to. It ends at a class without
superclass, leaves the table, or comes to a class for the second time.
-/

namespace WrapperGen.ClassTable

variable {t : ClassTable}

/-- `t.Extends c p`: the superclass of the class `c` is `p`, by its own record or by default. -/
inductive Extends (t : ClassTable) (c : String) : String → Prop
  | own {r : ClassRecord} {p : String} (record : t.get? c = some r)
      (named : r.superClass = some p) (inner : p ≠ t.root) : Extends t c p
  | default {r : ClassRecord} {p : String} (record : t.get? c = some r)
      (silent : r.superClass = none) (named : t.defaults.superClass = some p)
      (other : p ≠ c) (inner : p ≠ t.root) : Extends t c p

theorem parent?_eq_some_iff {c p : String} {r : ClassRecord} (h : t.get? c = some r) :
    t.parent? c r = some p ↔ t.Extends c p := by
  constructor
  · intro hp
    cases hs : r.superClass with
    | some q =>
      simp only [parent?, hs, isRoot, Option.filter_eq_some_iff, Option.some.injEq,
        Bool.not_eq_true', decide_eq_false_iff_not] at hp
      obtain ⟨rfl, hroot⟩ := hp
      exact .own h hs hroot
    | none =>
      simp only [parent?, hs, isRoot, Option.filter_eq_some_iff, Bool.not_eq_true',
        decide_eq_false_iff_not, decide_eq_true_eq] at hp
      obtain ⟨⟨hd, hne⟩, hroot⟩ := hp
      exact .default h hs hd hne hroot
  · intro hp
    cases hp with
    | own record named inner =>
      rw [h, Option.some.injEq] at record
      subst record
      simp [parent?, named, isRoot, inner]
    | default record silent named other inner =>
      rw [h, Option.some.injEq] at record
      subst record
      simp [parent?, silent, named, isRoot, other, inner]

theorem parent?_eq_none_iff {c : String} {r : ClassRecord} (h : t.get? c = some r) :
    t.parent? c r = none ↔ ∀ p, ¬ t.Extends c p := by
  simp [Option.eq_none_iff_forall_not_mem, parent?_eq_some_iff h]

theorem Extends.record {c p : String} (h : t.Extends c p) : ∃ r, t.get? c = some r := by
  cases h with
  | own record _ _ => exact ⟨_, record⟩
  | default record _ _ _ _ => exact ⟨_, record⟩

theorem Extends.functional {c p q : String} (hp : t.Extends c p) (hq : t.Extends c q) : p = q := by
  obtain ⟨r, hr⟩ := hp.record
  rw [← parent?_eq_some_iff hr] at hp hq
  rw [hp] at hq
  exact Option.some.inj hq

theorem has_iff {c : String} : t.has c = true ↔ ∃ r, t.get? c = some r := by
  rw [has, Keyed.has, ← Named.get?_isSome, Option.isSome_iff_exists]
  rfl

theorem has_iff_mem {c : String} : t.has c = true ↔ c ∈ t.names := by
  simp [has, Keyed.has, Named.has, names, Keyed.names, Named.names]

theorem unitPath_of_mem {c : String × ClassRecord} (h : c ∈ t.classes.entries) :
    t.unitPath c.1 = .ok (c.2.unitPathOf c.1) := by
  have hrecord : t.get? c.1 = some c.2 := (Named.get?_eq_some_iff t.classes.distinct).2 h
  rw [unitPath, hrecord]

/-- Exactly the classes of a table have a unit path. -/
theorem has_iff_exists_unitPath {c : String} : t.has c = true ↔ ∃ path, t.unitPath c = .ok path := by
  rw [has_iff, unitPath]
  cases t.get? c <;> simp

/-- `t.Walk c cs`: following superclasses from `c` one comes through `cs`. -/
def Walk (t : ClassTable) (c : String) (cs : List String) : Prop :=
  cs.head? = some c ∧ cs.IsChain t.Extends

theorem walk_single (c : String) : t.Walk c [c] := ⟨rfl, .singleton c⟩

theorem Walk.snoc {c d e : String} {cs : List String} (h : t.Walk c (cs ++ [d]))
    (hd : t.Extends d e) : t.Walk c (cs ++ [d] ++ [e]) := by
  refine ⟨?_, h.2.append (.singleton e) ?_⟩
  · rw [List.head?_append_of_ne_nil _ (by simp)]
    exact h.1
  · simpa using hd

/-- Superclasses leave no choice, so of two walks from one class one continues the other. -/
theorem Walk.comparable {c : String} {cs ds : List String} (hc : t.Walk c cs)
    (hd : t.Walk c ds) : cs <+: ds ∨ ds <+: cs := by
  obtain ⟨hhead, hc⟩ := hc
  obtain ⟨hhead', hd⟩ := hd
  induction cs generalizing c ds with
  | nil => exact .inl (List.nil_prefix)
  | cons a cs ih =>
    cases ds with
    | nil => exact .inr (List.nil_prefix)
    | cons b ds =>
      obtain rfl : a = c := by simpa using hhead
      obtain rfl : b = a := by simpa using hhead'
      simp only [List.prefix_cons_inj]
      cases cs with
      | nil => exact .inl (List.nil_prefix)
      | cons p cs =>
        cases ds with
        | nil => exact .inr (List.nil_prefix)
        | cons q ds =>
          obtain ⟨hp, hc⟩ := List.isChain_cons_cons.1 hc
          obtain ⟨hq, hd⟩ := List.isChain_cons_cons.1 hd
          obtain rfl := hp.functional hq
          exact ih rfl hc rfl hd

/-- What following superclasses comes to. -/
inductive Ending where
  /-- A class without superclass. -/
  | top
  /-- A name that the table does not have. -/
  | missing (name : String)
  /-- A class for the second time; the way to it is given. -/
  | repeated (route : List String)

/-- `t.Ends c e`: the walk from `c` comes to `e`, and passes no class twice before. -/
def Ends (t : ClassTable) (c : String) : Ending → Prop
  | .top => ∃ cs d, t.Walk c (cs ++ [d]) ∧ (cs ++ [d]).Nodup ∧
      (∀ b ∈ cs ++ [d], t.has b) ∧ ∀ p, ¬ t.Extends d p
  | .missing n => ∃ cs, t.Walk c (cs ++ [n]) ∧ cs.Nodup ∧ (∀ b ∈ cs, t.has b) ∧ ¬ t.has n
  | .repeated route => ∃ cs d, route = cs ++ [d] ∧ t.Walk c route ∧ cs.Nodup ∧ d ∈ cs

theorem not_mem_of_nodup_snoc {d : String} {cs : List String} (h : (cs ++ [d]).Nodup) : d ∉ cs :=
  fun hd => (List.nodup_append.1 h).2.2 d hd d (by simp) rfl

/-- A walk that goes on no further: its last name has no superclass or has come before. -/
structure Final (t : ClassTable) (c : String) (cs : List String) (d : String) : Prop where
  walk : t.Walk c (cs ++ [d])
  nodup : cs.Nodup
  stops : d ∈ cs ∨ ∀ p, ¬ t.Extends d p

theorem Final.eq_of_prefix {c d e : String} {cs ds : List String} (hc : t.Final c cs d)
    (hd : t.Final c ds e) (h : cs ++ [d] <+: ds ++ [e]) : cs ++ [d] = ds ++ [e] := by
  rcases List.prefix_concat_iff.1 h with h | ⟨rest, rfl⟩
  · exact h
  · -- The longer walk goes on from `d`, which it comes to only once.
    have hnodup : (cs ++ [d]).Nodup := (List.nodup_append.1 hd.nodup).1
    have hfresh : d ∉ cs := not_mem_of_nodup_snoc hnodup
    have hlast := hc.stops.resolve_left hfresh
    have hstep := (List.isChain_append.1 (List.append_assoc (cs ++ [d]) rest [e] ▸ hd.walk.2)).2.2
    cases rest with
    | nil => exact absurd (hstep d (by simp) e (by simp)) (hlast e)
    | cons b rest => exact absurd (hstep d (by simp) b (by simp)) (hlast b)

theorem Final.unique {c d e : String} {cs ds : List String} (hc : t.Final c cs d)
    (hd : t.Final c ds e) : cs = ds ∧ d = e := by
  have h : cs ++ [d] = ds ++ [e] := by
    rcases hc.walk.comparable hd.walk with h | h
    · exact hc.eq_of_prefix hd h
    · exact (hd.eq_of_prefix hc h).symm
  simpa using h

/-- The ending of a final walk through `cs` to `d`. -/
def endingOf (t : ClassTable) (cs : List String) (d : String) : Ending :=
  if d ∈ cs then .repeated (cs ++ [d]) else if t.has d then .top else .missing d

theorem Ends.final {c : String} {e : Ending} (h : t.Ends c e) :
    ∃ cs d, t.Final c cs d ∧ e = t.endingOf cs d := by
  cases e with
  | top =>
    obtain ⟨cs, d, walk, nodup, known, last⟩ := h
    have hfresh := not_mem_of_nodup_snoc nodup
    refine ⟨cs, d, ⟨walk, (List.nodup_append.1 nodup).1, .inr last⟩, ?_⟩
    simp [endingOf, hfresh, known d (by simp)]
  | missing n =>
    obtain ⟨cs, walk, nodup, known, absent⟩ := h
    have hfresh : n ∉ cs := fun hn => absent (known n hn)
    refine ⟨cs, n, ⟨walk, nodup, .inr fun p hp => absent (has_iff.2 hp.record)⟩, ?_⟩
    simp [endingOf, hfresh, absent]
  | repeated route =>
    obtain ⟨cs, d, rfl, walk, nodup, again⟩ := h
    exact ⟨cs, d, ⟨walk, nodup, .inl again⟩, by simp [endingOf, again]⟩

theorem Ends.unique {c : String} {e f : Ending} (he : t.Ends c e) (hf : t.Ends c f) : e = f := by
  obtain ⟨cs, d, hc, rfl⟩ := he.final
  obtain ⟨ds, d', hd, rfl⟩ := hf.final
  obtain ⟨rfl, rfl⟩ := hc.unique hd
  rfl

end WrapperGen.ClassTable
