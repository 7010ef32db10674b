import Mathlib.Data.List.Nodup
import WrapperGen.Value

/-!
# Values and documents

A value of whole numbers whose records have distinct names is what its own document is read as. Values that
are read have distinct names, and they are nested no deeper than their document.
-/

namespace WrapperGen

theorem mapM_map_eq_some {α β : Type} {f : β → Option α} {g : α → β} {xs : List α}
    (h : ∀ x ∈ xs, f (g x) = some x) : (xs.map g).mapM f = some xs := by
  induction xs with
  | nil => rfl
  | cons x r ih =>
    obtain ⟨hx, hr⟩ := List.forall_mem_cons.1 h
    rw [List.map_cons, List.mapM_cons, hx, ih hr]
    rfl

theorem exists_of_mapM_eq_some {α β : Type} {f : α → Option β} {xs : List α} {ys : List β}
    (h : xs.mapM f = some ys) : ∀ y ∈ ys, ∃ x ∈ xs, f x = some y := by
  induction xs generalizing ys with
  | nil =>
    obtain rfl : [] = ys := Option.some.inj h
    nofun
  | cons x r ih =>
    rw [List.mapM_cons] at h
    obtain ⟨y, hy, h⟩ := Option.bind_eq_some_iff.1 h
    obtain ⟨rest, hrest, h⟩ := Option.bind_eq_some_iff.1 h
    obtain rfl : y :: rest = ys := Option.some.inj h
    refine List.forall_mem_cons.2 ⟨⟨x, List.mem_cons_self, hy⟩, fun z hz => ?_⟩
    obtain ⟨w, hw, hf⟩ := ih hrest z hz
    exact ⟨w, List.mem_cons_of_mem x hw, hf⟩

/-- Whether a number is an integer that its text denotes exactly: one of 64 bits, with or without sign, or
minus zero, which is a double. -/
def Number.isWhole : Number → Bool
  | .int i => -(Nat.pow 2 63 : Nat) ≤ i && i < (Nat.pow 2 64 : Nat)
  | .float d => d = .zero true

namespace Document

/-- What a container holds. -/
def parts : Document → List Document
  | .list items => items
  | .record fields => fields.map (·.2)
  | _ => []

/-- Induction over a document by what its containers hold. -/
theorem induct {motive : Document → Prop} (step : ∀ d, (∀ x ∈ d.parts, motive x) → motive d)
    (d : Document) : motive d :=
  @Document.rec motive (fun items => ∀ x ∈ items, motive x) (fun fields => ∀ x ∈ fields.map (·.2), motive x)
    (fun e => motive e.2) (step _ nofun) (fun _ => step _ nofun) (fun _ => step _ nofun)
    (fun _ => step _ nofun) (fun _ ih => step _ ih) (fun _ ih => step _ ih) (step _ nofun) (step _ nofun)
    nofun (fun _ _ hd hr => List.forall_mem_cons.2 ⟨hd, hr⟩) nofun
    (fun _ _ hd hr => List.forall_mem_cons.2 ⟨hd, hr⟩) (fun _ _ hd => hd) d

variable {d x : Document} {test : Document → Bool}

theorem allInItems_iff {items : List Document} :
    allInItems test items = true ↔ ∀ x ∈ items, x.allScalars test = true := by
  induction items with
  | nil => simp [allInItems]
  | cons d r ih => rw [allInItems, Bool.and_eq_true, ih, List.forall_mem_cons]

theorem allInFields_iff {fields : List (String × Document)} :
    allInFields test fields = true ↔ ∀ e ∈ fields, e.2.allScalars test = true := by
  induction fields with
  | nil => simp [allInFields]
  | cons e r ih => rw [allInFields, Bool.and_eq_true, ih, List.forall_mem_cons]

theorem items?_eq_mapM (items : List Document) : items? items = items.mapM value? := by
  induction items with
  | nil => rfl
  | cons d r ih => rw [items?, ih, List.mapM_cons]

theorem fields?_eq_mapM (fields : List (String × Document)) :
    fields? fields = fields.mapM fun e => e.2.value?.map (e.1, ·) := by
  induction fields with
  | nil => rfl
  | cons e r ih =>
    rw [fields?, ih, List.mapM_cons]
    cases e.2.value? <;> rfl

theorem allScalars_of_mem_parts (h : d.allScalars test = true) (hx : x ∈ d.parts) :
    x.allScalars test = true := by
  cases d with
  | list items => exact allInItems_iff.1 h x hx
  | record fields =>
    obtain ⟨e, he, rfl⟩ := List.mem_map.1 hx
    exact allInFields_iff.1 h e he
  | _ => exact nomatch hx

/-- Whether all numbers of a document are whole. -/
def whole (d : Document) : Bool :=
  d.allScalars fun
    | .number n => n.isWhole
    | _ => true

mutual

/-- How many containers stand in each other. -/
def height : Document → Nat
  | .list items => heightItems items + 1
  | .record fields => heightFields fields + 1
  | _ => 0

def heightItems : List Document → Nat
  | [] => 0
  | d :: r => max d.height (heightItems r)

def heightFields : List (String × Document) → Nat
  | [] => 0
  | (_, d) :: r => max d.height (heightFields r)

end

theorem heightItems_le_iff {items : List Document} {n : Nat} :
    heightItems items ≤ n ↔ ∀ x ∈ items, x.height ≤ n := by
  induction items with
  | nil => simp [heightItems]
  | cons d r ih => rw [heightItems, Nat.max_le, ih, List.forall_mem_cons]

theorem heightFields_le_iff {fields : List (String × Document)} {n : Nat} :
    heightFields fields ≤ n ↔ ∀ e ∈ fields, e.2.height ≤ n := by
  induction fields with
  | nil => simp [heightFields]
  | cons e r ih => rw [heightFields, Nat.max_le, ih, List.forall_mem_cons]

theorem height_lt_of_mem_parts (hx : x ∈ d.parts) : x.height < d.height := by
  cases d with
  | list items => exact Nat.lt_succ_of_le (heightItems_le_iff.1 (Nat.le_refl _) x hx)
  | record fields =>
    obtain ⟨e, he, rfl⟩ := List.mem_map.1 hx
    exact Nat.lt_succ_of_le (heightFields_le_iff.1 (Nat.le_refl _) e he)
  | _ => exact nomatch hx

end Document

namespace Value

/-- Induction over a value by what its containers hold. -/
theorem induct {motive : Value → Prop} (null : motive .null) (bool : ∀ b, motive (.bool b))
    (number : ∀ n, motive (.number n)) (text : ∀ s, motive (.text s))
    (list : ∀ items, (∀ v ∈ items, motive v) → motive (.list items))
    (record : ∀ fields, (∀ e ∈ fields, motive e.2) → motive (.record fields)) (v : Value) : motive v :=
  @Value.rec motive (fun items => ∀ v ∈ items, motive v) (fun fields => ∀ e ∈ fields, motive e.2)
    (fun e => motive e.2) null bool number text list record nofun
    (fun _ _ hv hr => List.forall_mem_cons.2 ⟨hv, hr⟩) nofun
    (fun _ _ he hr => List.forall_mem_cons.2 ⟨he, hr⟩) (fun _ _ hv => hv) v

/-- Each record has distinct names. -/
inductive Distinct : Value → Prop
  | null : Distinct .null
  | bool (b : Bool) : Distinct (.bool b)
  | number (n : Number) : Distinct (.number n)
  | text (s : String) : Distinct (.text s)
  | list {items : List Value} (each : ∀ v ∈ items, Distinct v) : Distinct (.list items)
  | record {fields : Named Value} (names : fields.names.Nodup) (each : ∀ e ∈ fields, Distinct e.2) :
    Distinct (.record fields)

theorem documentItems_eq_map (items : List Value) : documentItems items = items.map document := by
  induction items with
  | nil => rfl
  | cons v r ih => rw [documentItems, ih, List.map_cons]

theorem documentFields_eq_map (fields : List (String × Value)) :
    documentFields fields = fields.map fun e => (e.1, e.2.document) := by
  induction fields with
  | nil => rfl
  | cons e r ih => rw [documentFields, ih, List.map_cons]

theorem whole_list_iff {items : List Value} :
    (document (.list items)).whole = true ↔ ∀ v ∈ items, v.document.whole = true := by
  rw [document, documentItems_eq_map, Document.whole, Document.allScalars, Document.allInItems_iff,
    List.forall_mem_map]
  rfl

theorem whole_record_iff {fields : List (String × Value)} :
    (document (.record fields)).whole = true ↔ ∀ e ∈ fields, e.2.document.whole = true := by
  rw [document, documentFields_eq_map, Document.whole, Document.allScalars, Document.allInFields_iff,
    List.forall_mem_map]
  rfl

theorem height_list_le_iff {items : List Value} {n : Nat} :
    (document (.list items)).height ≤ n + 1 ↔ ∀ v ∈ items, v.document.height ≤ n := by
  rw [document, documentItems_eq_map, Document.height, Nat.add_le_add_iff_right,
    Document.heightItems_le_iff, List.forall_mem_map]

theorem height_record_le_iff {fields : List (String × Value)} {n : Nat} :
    (document (.record fields)).height ≤ n + 1 ↔ ∀ e ∈ fields, e.2.document.height ≤ n := by
  rw [document, documentFields_eq_map, Document.height, Nat.add_le_add_iff_right,
    Document.heightFields_le_iff, List.forall_mem_map]

/-- All numbers are whole, and at most `n` containers stand in each other. -/
def Fits (n : Nat) (v : Value) : Prop := v.document.whole = true ∧ v.document.height ≤ n

theorem fits_list_iff {items : List Value} {n : Nat} :
    Fits (n + 1) (.list items) ↔ ∀ v ∈ items, v.Fits n := by
  rw [Fits, whole_list_iff, height_list_le_iff]
  exact forall₂_and.symm

theorem fits_record_iff {fields : List (String × Value)} {n : Nat} :
    Fits (n + 1) (.record fields) ↔ ∀ e ∈ fields, e.2.Fits n := by
  rw [Fits, whole_record_iff, height_record_le_iff]
  exact forall₂_and.symm

theorem fits_null (n : Nat) : Fits n .null := ⟨rfl, Nat.zero_le n⟩

theorem fits_bool (n : Nat) (b : Bool) : Fits n (.bool b) := ⟨rfl, Nat.zero_le n⟩

theorem fits_text (n : Nat) (s : String) : Fits n (.text s) := ⟨rfl, Nat.zero_le n⟩

/-- An integer of 64 bits with sign is whole. -/
theorem fits_ofInt (n : Nat) {i : Int} (h : Number.isWord i = true) : Fits n (ofInt i) := by
  refine ⟨?_, Nat.zero_le n⟩
  rw [Number.isWord, Bool.and_eq_true, decide_eq_true_iff, decide_eq_true_iff] at h
  have hpow : Nat.pow 2 63 ≤ Nat.pow 2 64 := by decide
  have hwhole : Number.isWhole (.int i) = true := by
    rw [Number.isWhole, Bool.and_eq_true, decide_eq_true_iff, decide_eq_true_iff]
    omega
  exact hwhole

theorem fits_ofOption {α : Type} {g : α → Value} {o : Option α} {n : Nat} (h : ∀ a ∈ o, (g a).Fits n) :
    (ofOption g o).Fits n := by
  cases o with
  | none => exact fits_null n
  | some a => exact h a rfl

theorem fits_ofTexts (texts : List String) (n : Nat) : (ofTexts texts).Fits (n + 1) :=
  fits_list_iff.2 (List.forall_mem_map.2 fun s _ => fits_text n s)

theorem readable_document (v : Value) : v.document.readable = true := by
  induction v using Value.induct with
  | null | bool | number | text => rfl
  | list items ih =>
    rw [document, documentItems_eq_map]
    exact Document.allInItems_iff.2 (List.forall_mem_map.2 ih)
  | record fields ih =>
    rw [document, documentFields_eq_map]
    exact Document.allInFields_iff.2 (List.forall_mem_map.2 ih)

/-- A value with distinct names and whole numbers is read back from its document. -/
theorem value?_document {v : Value} (hv : v.Distinct) (hwhole : v.document.whole = true) :
    v.document.value? = some v := by
  induction hv with
  | null | bool | text => rfl
  | number n =>
    cases n with
    | int i => rfl
    | float d =>
      obtain rfl : d = .zero true := of_decide_eq_true hwhole
      rfl
  | list _ ih =>
    have heach := whole_list_iff.1 hwhole
    rw [document, documentItems_eq_map, Document.value?,
      Document.items?_eq_mapM,
      mapM_map_eq_some fun v hv => ih v hv (heach v hv), Option.map_some]
  | record hnames _ ih =>
    have heach := whole_record_iff.1 hwhole
    rw [document, documentFields_eq_map, Document.value?, Document.fields?_eq_mapM,
      mapM_map_eq_some fun e he => by rw [ih e he (heach e he), Option.map_some], Option.map_some,
      Named.collapse_of_nodup hnames]

end Value

namespace Document

/-- What is read of a document has distinct names, is nested no deeper and keeps whole numbers. -/
theorem value?_sound {d : Document} {v : Value} (h : d.value? = some v) :
    v.Distinct ∧ v.document.height ≤ d.height ∧ (d.whole = true → v.document.whole = true) := by
  induction d using Document.induct generalizing v with
  | _ d ih =>
    cases d with
    | null | bool | text =>
      obtain rfl := Option.some.inj h
      exact ⟨by constructor, Nat.le_refl _, fun _ => rfl⟩
    | number n =>
      cases n with
      | int i =>
        obtain rfl := Option.some.inj h
        exact ⟨.number _, Nat.le_refl _, id⟩
      | float x =>
        obtain rfl := Option.some.inj h
        split
        · exact ⟨.number _, Nat.le_refl _, id⟩
        · exact ⟨.null, Nat.le_refl _, fun _ => rfl⟩
    | wide | unreadable => exact nomatch h
    | list items =>
      obtain ⟨values, hvalues, rfl⟩ := Option.map_eq_some_iff.1 h
      have heach := exists_of_mapM_eq_some (items?_eq_mapM items ▸ hvalues)
      refine ⟨.list fun v hv => ?_, Value.height_list_le_iff.2 fun v hv => ?_,
        fun hwhole => Value.whole_list_iff.2 fun v hv => ?_⟩
      all_goals obtain ⟨x, hx, hvalue⟩ := heach v hv
      · exact (ih x hx hvalue).1
      · exact Nat.le_trans (ih x hx hvalue).2.1 (heightItems_le_iff.1 (Nat.le_refl _) x hx)
      · exact (ih x hx hvalue).2.2 (allInItems_iff.1 hwhole x hx)
    | record fields =>
      obtain ⟨values, hvalues, rfl⟩ := Option.map_eq_some_iff.1 h
      have heach : ∀ e ∈ Named.collapse values, ∃ f ∈ fields, f.2.value? = some e.2 := by
        intro e he
        rw [fields?_eq_mapM] at hvalues
        obtain ⟨f, hf, hfield⟩ := exists_of_mapM_eq_some hvalues e (Named.mem_of_mem_collapse he)
        obtain ⟨v, hv, rfl⟩ := Option.map_eq_some_iff.1 hfield
        exact ⟨f, hf, hv⟩
      refine ⟨.record (Named.nodup_names_collapse values) fun e he => ?_,
        Value.height_record_le_iff.2 fun e he => ?_, fun hwhole => Value.whole_record_iff.2 fun e he => ?_⟩
      all_goals
        obtain ⟨f, hf, hvalue⟩ := heach e he
        have hpart : f.2 ∈ parts (.record fields) := List.mem_map_of_mem hf
      · exact (ih f.2 hpart hvalue).1
      · exact Nat.le_trans (ih f.2 hpart hvalue).2.1 (heightFields_le_iff.1 (Nat.le_refl _) f hf)
      · exact (ih f.2 hpart hvalue).2.2 (allInFields_iff.1 hwhole f hf)

theorem slot?_mem {fields : List (String × Document)} {name : String} {x : Document}
    (h : slot? fields name = some (some x)) : (name, x) ∈ fields := by
  unfold slot? at h
  split at h
  · exact nomatch h
  · next k y heq =>
    obtain rfl : y = x := Option.some.inj (Option.some.inj h)
    obtain ⟨hmem, hname⟩ := List.mem_filter.1 (heq ▸ List.mem_singleton_self (k, y))
    obtain rfl : k = name := of_decide_eq_true hname
    exact hmem
  · exact nomatch h

/-- What is found in the slots of a document is part of it, be it a record or a list. -/
theorem mem_parts_of_slots? {d : Document} {names : List String} {leeway : Leeway}
    {slots : List (Option Document)} (h : d.slots? names leeway = some slots) {x : Document}
    (hx : some x ∈ slots) : x ∈ d.parts := by
  cases d with
  | record fields =>
    rw [slots?] at h
    split at h
    · obtain ⟨name, -, hslot⟩ := exists_of_mapM_eq_some h _ hx
      exact List.mem_map_of_mem (slot?_mem hslot)
    · exact nomatch h
  | list items =>
    rw [slots?] at h
    split at h
    · obtain rfl := Option.some.inj h
      obtain ⟨i, -, hi⟩ := List.mem_mapIdx.1 hx
      exact List.mem_of_getElem? hi
    · exact nomatch h
  | _ => exact nomatch h

theorem slot?_of_mem {fields : Named Document} (h : fields.names.Nodup) {e : String × Document}
    (he : e ∈ fields) : slot? fields e.1 = some (some e.2) := by
  have hfilter : fields.filter (·.1 = e.1) = [e] := by
    induction fields with
    | nil => exact nomatch he
    | cons f r ih =>
      obtain ⟨hfresh, hr⟩ := List.nodup_cons.1 h
      rcases List.mem_cons.1 he with rfl | he
      · have hnone : r.filter (·.1 = e.1) = [] := List.filter_eq_nil_iff.2 fun g hg heq =>
          hfresh (List.mem_map.2 ⟨g, hg, of_decide_eq_true heq⟩)
        rw [List.filter_cons_of_pos (by simp), hnone]
      · have hne : ¬ f.1 = e.1 := fun heq => hfresh (List.mem_map.2 ⟨e, he, heq.symm⟩)
        rw [List.filter_cons_of_neg (by simp [hne]), ih hr he]
  rw [slot?, hfilter]

/-- The slots of a record with just the known fields are their documents. -/
theorem slots?_record {fields : Named Document} (h : fields.names.Nodup) :
    slots? fields.names .fields (.record fields) = some (fields.map fun e => some e.2) := by
  have hslots : ∀ r : Named Document, r ⊆ fields →
      r.names.mapM (slot? fields) = some (r.map fun e => some e.2) := by
    intro r
    induction r with
    | nil => exact fun _ => rfl
    | cons e r ih =>
      intro hsub
      rw [Named.names, List.map_cons, List.mapM_cons, slot?_of_mem h (hsub List.mem_cons_self)]
      have hr := ih fun f hf => hsub (List.mem_cons_of_mem e hf)
      rw [Named.names] at hr
      rw [hr]
      rfl
  rw [slots?, if_pos (.inl rfl), hslots fields (List.Subset.refl _)]

/-- Only null is read as null where numbers are whole. -/
theorem eq_null_of_value? {d : Document} (h : d.value? = some .null) (hwhole : d.whole = true) :
    d = .null := by
  cases d with
  | null => rfl
  | number n =>
    cases n with
    | int i => exact nomatch h
    | float x =>
      obtain rfl : x = .zero true := of_decide_eq_true hwhole
      exact nomatch h
  | list items => simp [value?] at h
  | record fields => simp [value?] at h
  | bool b => exact nomatch h
  | text s => exact nomatch h
  | wide | unreadable => exact nomatch h

end Document
end WrapperGen
