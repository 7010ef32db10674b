import WrapperGen.Proofs.Json.RoundTrip

/-!
# How deep a document is nested that was read

A reader keeps a container only where its dialect admits one, so what it has read is nested no deeper.
-/

namespace WrapperGen.Json

theorem height_textOf (pieces : List Piece) : (textOf pieces).height = 0 := by
  unfold textOf
  split <;> rfl

theorem height_numberOf (t : NumberText) : (numberOf t).height = 0 := by
  unfold numberOf
  split <;> rfl

variable {g : Dialect} {depth : Nat}

theorem height_of_readWord? {cs t : List Char} {d : Document} (h : readWord? g cs = some (d, t)) :
    d.height = 0 := by
  rw [readWord?, Option.or_eq_some_iff, Option.or_eq_some_iff] at h
  rcases h with h | ⟨-, h | ⟨-, h⟩⟩
  all_goals
    obtain ⟨_, -, h⟩ := Option.map_eq_some_iff.1 h
    obtain ⟨rfl, -⟩ := Prod.mk.inj h
    rfl

theorem holds_succ_iff {n : Nat} : g.Holds depth (n + 1) ↔ g.Holds (depth + 1) n := by
  rw [Dialect.Holds, Dialect.Holds]
  exact forall₂_congr fun _ _ => by omega

theorem holds_of_admits (h : g.admits depth = true) : g.Holds (depth + 1) 0 := by
  intro n hn
  rw [Dialect.admits, hn] at h
  exact of_decide_eq_true h

/-- Where a scalar may stand, the room for containers is what the depth leaves of the limit. -/
theorem holds_iff (hzero : g.Holds depth 0) {height : Nat} :
    g.Holds depth height ↔ ∀ n, g.limit = some n → height ≤ n - depth := by
  refine forall₂_congr fun n hn => ?_
  have := hzero n hn
  omega

theorem holds_heightItems (hzero : g.Holds depth 0) {items : List Document}
    (h : ∀ d ∈ items, g.Holds depth d.height) : g.Holds depth (Document.heightItems items) :=
  (holds_iff hzero).2 fun n hn => Document.heightItems_le_iff.2 fun d hd =>
    (holds_iff hzero).1 (h d hd) n hn

theorem holds_heightFields (hzero : g.Holds depth 0) {fields : List (String × Document)}
    (h : ∀ e ∈ fields, g.Holds depth e.2.height) : g.Holds depth (Document.heightFields fields) :=
  (holds_iff hzero).2 fun n hn => Document.heightFields_le_iff.2 fun e he =>
    (holds_iff hzero).1 (h e he) n hn

/-- A list is kept where its items may stand. -/
theorem holds_listOf (hzero : g.Holds depth 0) {items : List Document}
    (h : g.Holds (depth + 1) 0 → ∀ d ∈ items, g.Holds (depth + 1) d.height) :
    g.Holds depth (listOf g depth items).height := by
  unfold listOf
  split
  · next hadmits =>
    have hinner := holds_of_admits hadmits
    rw [Document.height, holds_succ_iff]
    exact holds_heightItems hinner (h hinner)
  · exact hzero

theorem holds_recordOf (hzero : g.Holds depth 0) {fields : List (List Piece × Document)}
    (h : g.Holds (depth + 1) 0 → ∀ e ∈ fields, g.Holds (depth + 1) e.2.height) :
    g.Holds depth (recordOf g depth fields).height := by
  unfold recordOf
  split
  · next named hnamed =>
    split
    · next hadmits =>
      have hinner := holds_of_admits hadmits
      rw [Document.height, holds_succ_iff]
      refine holds_heightFields hinner fun e he => ?_
      obtain ⟨f, hf, hname⟩ := exists_of_mapM_eq_some hnamed e he
      obtain ⟨_, -, rfl⟩ := Option.map_eq_some_iff.1 hname
      exact h hinner f hf
    · exact hzero
  · exact hzero

/-- What `fuel` steps of the reader make of a text that may stand inside `depth` containers. -/
structure Bounded (g : Dialect) (fuel : Nat) : Prop where
  value : ∀ {depth cs d t}, readValue? g fuel depth cs = some (d, t) → g.Holds depth 0 →
    g.Holds depth d.height
  items : ∀ {depth cs ds t}, readItems? g fuel depth cs = some (ds, t) → g.Holds (depth + 1) 0 →
    ∀ d ∈ ds, g.Holds (depth + 1) d.height
  fields : ∀ {depth cs fs t}, readFields? g fuel depth cs = some (fs, t) → g.Holds (depth + 1) 0 →
    ∀ e ∈ fs, g.Holds (depth + 1) e.2.height

variable {fuel : Nat}

theorem holds_readValue? (ih : Bounded g fuel) {cs t : List Char} {d : Document}
    (h : readValue? g (fuel + 1) depth cs = some (d, t)) (hzero : g.Holds depth 0) :
    g.Holds depth d.height := by
  rw [readValue?] at h
  split at h
  · obtain ⟨⟨pieces, _⟩, -, h⟩ := Option.map_eq_some_iff.1 h
    obtain ⟨rfl, -⟩ := Prod.mk.inj h
    rwa [height_textOf]
  · split at h
    · obtain ⟨rfl, -⟩ := Prod.mk.inj (Option.some.inj h)
      exact holds_listOf hzero fun _ _ hd => absurd hd List.not_mem_nil
    · obtain ⟨⟨ds, _⟩, hitems, h⟩ := Option.map_eq_some_iff.1 h
      obtain ⟨rfl, -⟩ := Prod.mk.inj h
      exact holds_listOf hzero (ih.items hitems)
  · split at h
    · obtain ⟨rfl, -⟩ := Prod.mk.inj (Option.some.inj h)
      exact holds_recordOf hzero fun _ _ he => absurd he List.not_mem_nil
    · obtain ⟨⟨fs, _⟩, hfields, h⟩ := Option.map_eq_some_iff.1 h
      obtain ⟨rfl, -⟩ := Prod.mk.inj h
      exact holds_recordOf hzero (ih.fields hfields)
  · rcases Option.or_eq_some_iff.1 h with hword | ⟨-, h⟩
    · rwa [height_of_readWord? hword]
    · obtain ⟨⟨n, _⟩, -, h⟩ := Option.map_eq_some_iff.1 h
      obtain ⟨rfl, -⟩ := Prod.mk.inj h
      rwa [height_numberOf]

theorem holds_readItems? (ih : Bounded g fuel) {cs t : List Char} {ds : List Document}
    (h : readItems? g (fuel + 1) depth cs = some (ds, t)) (hzero : g.Holds (depth + 1) 0) :
    ∀ d ∈ ds, g.Holds (depth + 1) d.height := by
  rw [readItems?] at h
  obtain ⟨⟨d, _⟩, hvalue, h⟩ := Option.bind_eq_some_iff.1 h
  have hd := ih.value hvalue hzero
  dsimp only at h
  split at h
  · obtain ⟨rfl, -⟩ := Prod.mk.inj (Option.some.inj h)
    exact List.forall_mem_singleton.2 hd
  · obtain ⟨⟨rest, _⟩, hrest, h⟩ := Option.bind_eq_some_iff.1 h
    obtain ⟨rfl, -⟩ := Prod.mk.inj (Option.some.inj h)
    exact List.forall_mem_cons.2 ⟨hd, ih.items hrest hzero⟩
  · cases h

theorem holds_readFields? (ih : Bounded g fuel) {cs t : List Char} {fs : List (List Piece × Document)}
    (h : readFields? g (fuel + 1) depth cs = some (fs, t)) (hzero : g.Holds (depth + 1) 0) :
    ∀ e ∈ fs, g.Holds (depth + 1) e.2.height := by
  rw [readFields?] at h
  split at h
  · obtain ⟨⟨name, _⟩, -, h⟩ := Option.bind_eq_some_iff.1 h
    dsimp only at h
    split at h
    · obtain ⟨⟨d, _⟩, hvalue, h⟩ := Option.bind_eq_some_iff.1 h
      have hd := ih.value hvalue hzero
      dsimp only at h
      split at h
      · obtain ⟨rfl, -⟩ := Prod.mk.inj (Option.some.inj h)
        exact List.forall_mem_singleton.2 hd
      · obtain ⟨⟨rest, _⟩, hrest, h⟩ := Option.bind_eq_some_iff.1 h
        obtain ⟨rfl, -⟩ := Prod.mk.inj (Option.some.inj h)
        exact List.forall_mem_cons.2 ⟨hd, ih.fields hrest hzero⟩
      · cases h
    · cases h
  · cases h

theorem bounded (fuel : Nat) : Bounded g fuel := by
  induction fuel with
  | zero => exact ⟨nofun, nofun, nofun⟩
  | succ fuel ih => exact ⟨holds_readValue? ih, holds_readItems? ih, holds_readFields? ih⟩

/-- The document of a JSON text is nested at most 127 deep. -/
theorem height_le_of_read? {s : String} {d : Document} (h : read? s = some d) : d.height ≤ 127 := by
  simp only [read?, readAs?] at h
  split at h
  · next e t hvalue =>
    split at h
    · obtain rfl := Option.some.inj h
      have := (bounded _).value hvalue (by rintro _ ⟨⟩; omega) 127 rfl
      omega
    · cases h
  · cases h

end WrapperGen.Json
