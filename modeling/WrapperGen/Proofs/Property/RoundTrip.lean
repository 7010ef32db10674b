import WrapperGen.Proofs.Documents
import WrapperGen.Property.Format

/-!
# Properties read back

A property that was read of a document is what the document of its own value is read as: its kind names the
fields that its value has, absent defaults are null, and no default that is given is.
-/

namespace WrapperGen

namespace Value

theorem document_ne_null {v : Value} (h : v ≠ .null) : v.document ≠ .null := by
  cases v with
  | null => exact absurd rfl h
  | _ => exact nofun

end Value

namespace Document

variable {α : Type} {f : Document → Option α} {g : α → Value}

theorem asOption?_of_ne_null {d : Document} (h : d ≠ .null) : d.asOption? f = (f d).map some := by
  cases d with
  | null => exact absurd rfl h
  | _ => rfl

/-- An optional field is read back if what is given reads back and is not null. -/
theorem optional?_ofOption {o : Option α} (h : ∀ a ∈ o, f (g a).document = some a ∧ g a ≠ .null) :
    optional? f (some (Value.ofOption g o).document) = some o := by
  cases o with
  | none => rfl
  | some a =>
    obtain ⟨hread, hnull⟩ := h a rfl
    rw [Value.ofOption, optional?, asOption?_of_ne_null (Value.document_ne_null hnull), hread]
    rfl

theorem asList?_document {xs : List α} (h : ∀ x ∈ xs, f (g x).document = some x) :
    asList? f (Value.document (.list (xs.map g))) = some xs := by
  rw [Value.document, Value.documentItems_eq_map, List.map_map]
  exact mapM_map_eq_some h

theorem asTexts?_document (texts : List String) :
    asTexts? (Value.ofTexts texts).document = some texts :=
  asList?_document fun _ _ => rfl

theorem seq_eq_some {α β : Type} {f : Option (α → β)} {x : Option α} {b : β} (h : f <*> x = some b) :
    ∃ g a, f = some g ∧ x = some a ∧ g a = b := by
  cases f with
  | none => exact nomatch h
  | some g =>
    cases x with
    | none => exact nomatch h
    | some a => exact ⟨g, a, rfl, rfl, Option.some.inj h⟩

theorem optional?_eq_some {α : Type} {f : Document → Option α} {slot : Option Document} {a : α}
    (h : optional? f slot = some (some a)) : ∃ x, slot = some x ∧ x ≠ .null ∧ f x = some a := by
  cases slot with
  | none => exact nomatch h
  | some x =>
    by_cases hx : x = .null
    · subst hx
      exact nomatch h
    · rw [optional?, asOption?_of_ne_null hx] at h
      obtain ⟨b, hb, heq⟩ := Option.map_eq_some_iff.1 h
      exact ⟨x, rfl, hx, Option.some.inj heq ▸ hb⟩

theorem isWord_of_asInt? {x : Document} {i : Int} (h : asInt? x = some i) : Number.isWord i = true := by
  unfold asInt? at h
  split at h
  · split at h
    · next hword => exact Option.some.inj h ▸ hword
    · exact nomatch h
  · exact nomatch h

end Document

namespace Property

open Document (optional? orElse? asBool? asInt? asDouble? asText? asTexts? optional?_ofOption)

/-- The integers that a property gives. -/
def integers : Property → List Int
  | int d _ lo hi => d.toList ++ lo.toList ++ hi.toList
  | _ => []

/-- The default of a property whose kind takes values of any form. -/
def untyped? : Property → Option Value
  | dict d => d.map .record
  | any d _ => d
  | _ => none

/-- What a property holds that was read of a document. -/
structure WellFormed (p : Property) : Prop where
  words : ∀ i ∈ p.integers, Number.isWord i = true
  untyped : ∀ v ∈ p.untyped?, v ≠ .null ∧ v.document.value? = some v

theorem floats?_floatsValue (values : List Double) : floats? (floatsValue values).document = some values :=
  Document.asList?_document fun _ _ => rfl

theorem vector?_floatsValue {n : Nat} (v : Vector Double n) :
    vector? n (floatsValue v.toList).document = some v := by
  have hfloats : (floatsValue v.toList).document.asList? asDouble? = some v.toList :=
    floats?_floatsValue v.toList
  rw [vector?, hfloats, Option.bind_eq_bind, Option.bind_some, dif_pos v.length_toList]
  rfl

theorem entries?_document {fields : List (String × Value)}
    (h : (Value.record fields).document.value? = some (.record fields)) :
    entries? (Value.document (.record fields)) = some fields := by
  rw [entries?, h]

theorem asInt?_ofInt {i : Int} (h : Number.isWord i = true) : asInt? (Value.ofInt i).document = some i := by
  rw [Value.ofInt, Value.document, asInt?, if_pos h]

/-- The fields of a property's value are the property. -/
theorem ofSlots?_fieldValues {p : Property} (h : p.WellFormed) :
    ofSlots? p.kind (p.fieldValues.map fun v => some v.document) = some p := by
  obtain ⟨hwords, huntyped⟩ := h
  have hints : ∀ o : Option Int, (∀ i ∈ o, i ∈ p.integers) →
      optional? asInt? (some (Value.ofOption .ofInt o).document) = some o := fun o ho =>
    optional?_ofOption fun i hi => ⟨asInt?_ofInt (hwords i (ho i hi)), by simp [Value.ofInt]⟩
  have htext : ∀ o, optional? asText? (some (Value.ofOption .text o).document) = some o := fun _ =>
    optional?_ofOption fun _ _ => ⟨rfl, by simp⟩
  have hbool : ∀ o, optional? asBool? (some (Value.ofOption .bool o).document) = some o := fun _ =>
    optional?_ofOption fun _ _ => ⟨rfl, by simp⟩
  have hvector : ∀ n (o : Option (Vector Double n)),
      optional? (vector? n) (some (Value.ofOption (fun v => floatsValue v.toList) o).document) = some o :=
    fun _ _ => optional?_ofOption fun v _ => ⟨vector?_floatsValue v, by simp [floatsValue]⟩
  have hfloats : ∀ o, optional? floats? (some (Value.ofOption floatsValue o).document) = some o := fun _ =>
    optional?_ofOption fun values _ => ⟨floats?_floatsValue values, by simp [floatsValue]⟩
  cases p with
  | bool d n => simp only [kind, fieldValues, List.map_cons, List.map_nil, ofSlots?, hbool]; rfl
  | int d n lo hi =>
    have hd := hints d fun i hi => by simp [integers, Option.mem_def.1 hi]
    have hlo := hints lo fun i hi => by simp [integers, Option.mem_def.1 hi]
    have hhi := hints hi fun i hi => by simp [integers, Option.mem_def.1 hi]
    simp only [kind, fieldValues, List.map_cons, List.map_nil, ofSlots?, hd, hlo, hhi]
    rfl
  | float d n =>
    have hfloat := optional?_ofOption (f := asDouble?) (g := fun x => .number (.float x)) (o := d)
      fun _ _ => ⟨rfl, by simp⟩
    simp only [kind, fieldValues, List.map_cons, List.map_nil, ofSlots?, hfloat]
    rfl
  | string d n => simp only [kind, fieldValues, List.map_cons, List.map_nil, ofSlots?, htext]; rfl
  | color d n => simp only [kind, fieldValues, List.map_cons, List.map_nil, ofSlots?, htext]; rfl
  | vector2 d => simp only [kind, fieldValues, List.map_cons, List.map_nil, ofSlots?, hvector]; rfl
  | vector3 d => simp only [kind, fieldValues, List.map_cons, List.map_nil, ofSlots?, hvector]; rfl
  | vector4 d => simp only [kind, fieldValues, List.map_cons, List.map_nil, ofSlots?, hvector]; rfl
  | matrix3 d => simp only [kind, fieldValues, List.map_cons, List.map_nil, ofSlots?, hfloats]; rfl
  | matrix4 d => simp only [kind, fieldValues, List.map_cons, List.map_nil, ofSlots?, hfloats]; rfl
  | euler d o => simp only [kind, fieldValues, List.map_cons, List.map_nil, ofSlots?, hvector]; rfl
  | enum t d => rfl
  | ref c n => simp only [kind, fieldValues, List.map_cons, List.map_nil, ofSlots?, htext]; rfl
  | refArray cs => exact congrArg (Option.map refArray) (Document.asTexts?_document cs)
  | refDict cs => exact congrArg (Option.map refDict) (Document.asTexts?_document cs)
  | array d => simp only [kind, fieldValues, List.map_cons, List.map_nil, ofSlots?, hfloats]; rfl
  | dict d =>
    have hentries := optional?_ofOption (f := entries?) (g := .record) (o := d) fun fields hd =>
      ⟨entries?_document (huntyped _ (by rw [Option.mem_def.1 hd]; rfl)).2, by simp⟩
    simp only [kind, fieldValues, List.map_cons, List.map_nil, ofSlots?, hentries]
    rfl
  | any d n =>
    have hany := optional?_ofOption (f := Document.value?) (g := id) (o := d) fun v hd =>
      ⟨(huntyped v hd).2, (huntyped v hd).1⟩
    simp only [kind, fieldValues, List.map_cons, List.map_nil, ofSlots?, hany]
    rfl

/-- The kind of a property names the fields of its value. -/
theorem exists_fieldNames (p : Property) : ∃ names, fieldNames? p.kind = some names ∧ names.Nodup ∧
    "type" ∉ names ∧ names.length = p.fieldValues.length := by
  cases p <;> exact ⟨_, rfl, by decide, by decide, rfl⟩

theorem kindOf?_record {kind : String} {body : Named Document} (h : "type" ∉ body.names) :
    kindOf? (.record (("type", .text kind) :: body)) = some (kind, .record body) := by
  have hother : ∀ e ∈ body, e.1 ≠ "type" := fun e he heq => h (List.mem_map.2 ⟨e, he, heq⟩)
  have hkind : body.filter (·.1 = "type") = [] := List.filter_eq_nil_iff.2 fun e he => by
    simp [hother e he]
  have hbody : body.filter (·.1 ≠ "type") = body := List.filter_eq_self.2 fun e he => by
    simp [hother e he]
  rw [kindOf?, List.filter_cons_of_pos (by simp), hkind, List.filter_cons_of_neg (by simp), hbody]

/-- A property that was read is what its own value's document describes. -/
theorem ofDocument?_value {p : Property} (h : p.WellFormed) : ofDocument? p.value.document = some p := by
  obtain ⟨names, hnames, hnodup, htype, hlength⟩ := exists_fieldNames p
  let body : Named Document := (names.zip p.fieldValues).map fun e => (e.1, e.2.document)
  have hvalue : p.value.document = .record (("type", .text p.kind) :: body) := by
    rw [value, hnames, Option.getD_some, Value.document, Value.documentFields_eq_map, List.map_cons]
    rfl
  have hbody : body.names = names := by
    rw [Named.names, List.map_map]
    exact List.map_fst_zip (Nat.le_of_eq hlength)
  have hslots : body.map (fun e => some e.2) = p.fieldValues.map fun v => some v.document := by
    calc body.map (fun e => some e.2)
      _ = ((names.zip p.fieldValues).map Prod.snd).map fun v => some v.document := by
        rw [List.map_map, List.map_map]
        rfl
      _ = p.fieldValues.map fun v => some v.document := by rw [List.map_snd_zip (Nat.le_of_eq hlength.symm)]
  rw [ofDocument?, if_neg (by rw [Value.readable_document]; decide), hvalue,
    kindOf?_record (by rwa [hbody])]
  simp only [Option.bind_eq_bind, Option.bind_some, hnames]
  rw [← hbody, Document.slots?_record (by rwa [hbody]), Option.bind_some, hslots, ofSlots?_fieldValues h]

/-- What a property takes from the fields of a document: words, and values of what is there. -/
structure Taken (slots : List (Option Document)) (p : Property) : Prop where
  words : ∀ i ∈ p.integers, Number.isWord i = true
  untyped : ∀ v ∈ p.untyped?, ∃ x, some x ∈ slots ∧ x ≠ .null ∧ x.value? = some v

theorem value?_of_entries? {x : Document} {fields : List (String × Value)} (h : entries? x = some fields) :
    x.value? = some (.record fields) := by
  unfold entries? at h
  split at h
  · next hx => rw [hx, Option.some.inj h]
  · exact nomatch h

/-- Next to its kind a document holds nothing that is not part of it. -/
theorem parts_of_kindOf? {d body : Document} {kind : String} (h : kindOf? d = some (kind, body)) :
    body.parts ⊆ d.parts := by
  unfold kindOf? at h
  split at h
  · split at h
    · obtain ⟨-, rfl⟩ := Prod.mk.inj (Option.some.inj h)
      exact (List.filter_sublist.map _).subset
    · exact nomatch h
  · obtain ⟨-, rfl⟩ := Prod.mk.inj (Option.some.inj h)
    exact List.subset_cons_self _ _
  · exact nomatch h

section

variable {α β : Type} {slots : List (Option Document)} {p : Property}

theorem taken_of_map {f : α → Property} {x : Option α}
    (hf : ∀ a, (f a).integers = [] ∧ (f a).untyped? = none) (h : f <$> x = some p) : Taken slots p := by
  obtain ⟨a, -, rfl⟩ := Option.map_eq_some_iff.1 h
  obtain ⟨hints, huntyped⟩ := hf a
  exact ⟨by rw [hints]; nofun, by rw [huntyped]; nofun⟩

theorem taken_of_seq {f : α → β → Property} {x : Option α} {y : Option β}
    (hf : ∀ a b, (f a b).integers = [] ∧ (f a b).untyped? = none) (h : f <$> x <*> y = some p) :
    Taken slots p := by
  obtain ⟨_, b, hx, -, rfl⟩ := Document.seq_eq_some h
  obtain ⟨a, -, rfl⟩ := Option.map_eq_some_iff.1 hx
  obtain ⟨hints, huntyped⟩ := hf a b
  exact ⟨by rw [hints]; nofun, by rw [huntyped]; nofun⟩

theorem taken_of_ofSlots? {kind : String} (h : ofSlots? kind slots = some p) : Taken slots p := by
  have isWord : ∀ {slot o}, optional? asInt? slot = some o → ∀ i ∈ o, Number.isWord i = true := by
    rintro slot _ hslot i rfl
    obtain ⟨x, -, -, hx⟩ := Document.optional?_eq_some hslot
    exact Document.isWord_of_asInt? hx
  unfold ofSlots? at h
  split at h
  -- only the kinds with integers or values of any form take anything; all others are alike
  case h_2 =>
    obtain ⟨_, hi, hthree, hhi, rfl⟩ := Document.seq_eq_some h
    obtain ⟨_, lo, htwo, hlo, rfl⟩ := Document.seq_eq_some hthree
    obtain ⟨_, n, hone, -, rfl⟩ := Document.seq_eq_some htwo
    obtain ⟨d, hd, rfl⟩ := Option.map_eq_some_iff.1 hone
    refine ⟨?_, nofun⟩
    rw [integers, List.forall_mem_append, List.forall_mem_append]
    exact ⟨⟨fun i hi => isWord hd i (Option.mem_toList.1 hi), fun i hi => isWord hlo i (Option.mem_toList.1 hi)⟩,
      fun i hi => isWord hhi i (Option.mem_toList.1 hi)⟩
  case h_17 =>
    obtain ⟨d, hd, rfl⟩ := Option.map_eq_some_iff.1 h
    refine ⟨nofun, fun v hv => ?_⟩
    obtain ⟨fields, rfl, rfl⟩ := Option.map_eq_some_iff.1 hv
    obtain ⟨x, rfl, hnull, hx⟩ := Document.optional?_eq_some hd
    exact ⟨x, List.mem_singleton_self _, hnull, value?_of_entries? hx⟩
  case h_18 =>
    obtain ⟨_, n, hone, -, rfl⟩ := Document.seq_eq_some h
    obtain ⟨d, hd, rfl⟩ := Option.map_eq_some_iff.1 hone
    refine ⟨nofun, fun v hv => ?_⟩
    obtain rfl : d = some v := hv
    obtain ⟨x, rfl, hnull, hx⟩ := Document.optional?_eq_some hd
    exact ⟨x, List.mem_cons_self, hnull, hx⟩
  case h_19 => exact nomatch h
  all_goals first
    | exact taken_of_map (fun _ => ⟨rfl, rfl⟩) h
    | exact taken_of_seq (fun _ _ => ⟨rfl, rfl⟩) h

end

/-- The slots that a property is read from hold parts of its document. -/
theorem exists_slots {d : Document} {p : Property} (h : ofDocument? d = some p) :
    ∃ kind slots, ofSlots? kind slots = some p ∧ ∀ x, some x ∈ slots → x ∈ d.parts := by
  rw [ofDocument?] at h
  split at h
  · exact nomatch h
  · obtain ⟨⟨kind, body⟩, hkind, h⟩ := Option.bind_eq_some_iff.1 h
    obtain ⟨names, -, h⟩ := Option.bind_eq_some_iff.1 h
    obtain ⟨slots, hslots, h⟩ := Option.bind_eq_some_iff.1 h
    exact ⟨kind, slots, h, fun x hx => parts_of_kindOf? hkind (Document.mem_parts_of_slots? hslots hx)⟩

theorem wellFormed_of_ofDocument? {d : Document} {p : Property} (h : ofDocument? d = some p)
    (hwhole : d.whole = true) : p.WellFormed ∧
      ∀ v ∈ p.untyped?, v.document.whole = true ∧ v.document.height < d.height := by
  obtain ⟨kind, slots, hslots, hparts⟩ := exists_slots h
  have htaken := taken_of_ofSlots? hslots
  have huntyped : ∀ v ∈ p.untyped?, v ≠ .null ∧ v.document.value? = some v ∧ v.document.whole = true ∧
      v.document.height < d.height := by
    intro v hv
    obtain ⟨x, hx, hnull, hvalue⟩ := htaken.untyped v hv
    have hpart := hparts x hx
    have hxwhole : x.whole = true := Document.allScalars_of_mem_parts hwhole hpart
    obtain ⟨hdistinct, hheight, hkeeps⟩ := Document.value?_sound hvalue
    refine ⟨?_, Value.value?_document hdistinct (hkeeps hxwhole), hkeeps hxwhole,
      Nat.lt_of_le_of_lt hheight (Document.height_lt_of_mem_parts hpart)⟩
    rintro rfl
    exact hnull (Document.eq_null_of_value? hvalue hxwhole)
  exact ⟨⟨htaken.words, fun v hv => ⟨(huntyped v hv).1, (huntyped v hv).2.1⟩⟩,
    fun v hv => (huntyped v hv).2.2⟩

/-- The floats that the default of a property is made of. -/
def floatDefaults : Property → List Double
  | float d _ => d.toList
  | vector2 d => (d.map (·.toList)).getD []
  | vector3 d => (d.map (·.toList)).getD []
  | vector4 d => (d.map (·.toList)).getD []
  | matrix3 d => d.getD []
  | matrix4 d => d.getD []
  | euler d _ => (d.map (·.toList)).getD []
  | array d => d.getD []
  | _ => []

/-- A property without floats has whole numbers in its fields. -/
theorem fits_fieldValues {p : Property} {n : Nat} (hwords : ∀ i ∈ p.integers, Number.isWord i = true)
    (huntyped : ∀ v ∈ p.untyped?, v.Fits (n + 1)) (hfloats : p.floatDefaults = []) :
    ∀ v ∈ p.fieldValues, v.Fits (n + 1) := by
  have hbool : ∀ o : Option Bool, (Value.ofOption .bool o).Fits (n + 1) := fun _ =>
    Value.fits_ofOption fun b _ => Value.fits_bool _ b
  have htext : ∀ o : Option String, (Value.ofOption .text o).Fits (n + 1) := fun _ =>
    Value.fits_ofOption fun s _ => Value.fits_text _ s
  have hint : ∀ o : Option Int, (∀ i ∈ o, Number.isWord i = true) → (Value.ofOption .ofInt o).Fits (n + 1) :=
    fun _ ho => Value.fits_ofOption fun i hi => Value.fits_ofInt _ (ho i hi)
  have hlist : ∀ o : Option (List Double), o.getD [] = [] → (Value.ofOption floatsValue o).Fits (n + 1) := by
    refine fun o ho => Value.fits_ofOption ?_
    rintro values rfl
    obtain rfl : values = [] := ho
    exact Value.fits_list_iff.2 nofun
  have hvector : ∀ m (o : Option (Vector Double m)), (o.map (·.toList)).getD [] = [] →
      (Value.ofOption (fun v => floatsValue v.toList) o).Fits (n + 1) := by
    intro m o ho
    cases o with
    | none => exact Value.fits_null _
    | some v => exact hlist (some v.toList) ho
  have one : ∀ {v : Value}, v.Fits (n + 1) → ∀ w ∈ [v], w.Fits (n + 1) := fun h =>
    List.forall_mem_singleton.2 h
  have two : ∀ {v w : Value}, v.Fits (n + 1) → w.Fits (n + 1) → ∀ u ∈ [v, w], u.Fits (n + 1) := fun hv hw =>
    List.forall_mem_cons.2 ⟨hv, one hw⟩
  cases p with
  | bool d n => exact two (hbool d) (Value.fits_bool _ n)
  | int d n lo hi =>
    rw [integers, List.forall_mem_append, List.forall_mem_append] at hwords
    obtain ⟨⟨hd, hlo⟩, hhi⟩ := hwords
    refine List.forall_mem_cons.2 ⟨hint d fun i hi => hd i (Option.mem_toList.2 hi),
      List.forall_mem_cons.2 ⟨Value.fits_bool _ n, two (hint lo fun i hi => hlo i (Option.mem_toList.2 hi))
        (hint hi fun i hi => hhi i (Option.mem_toList.2 hi))⟩⟩
  | float d n =>
    obtain rfl := Option.toList_eq_nil_iff.1 hfloats
    exact two (Value.fits_null _) (Value.fits_bool _ n)
  | string d n => exact two (htext d) (Value.fits_bool _ n)
  | color d n => exact two (htext d) (Value.fits_bool _ n)
  | vector2 d => exact one (hvector 2 d hfloats)
  | vector3 d => exact one (hvector 3 d hfloats)
  | vector4 d => exact one (hvector 4 d hfloats)
  | matrix3 d => exact one (hlist d hfloats)
  | matrix4 d => exact one (hlist d hfloats)
  | euler d o => exact two (hvector 3 d hfloats) (Value.fits_text _ o)
  | enum t d => exact two (Value.fits_text _ t) (Value.fits_text _ d)
  | ref c n => exact two (htext c) (Value.fits_bool _ n)
  | refArray cs => exact one (Value.fits_ofTexts cs n)
  | refDict cs => exact one (Value.fits_ofTexts cs n)
  | array d => exact one (hlist d hfloats)
  | dict d => exact one (Value.fits_ofOption fun fields hd => huntyped _ (Option.mem_map_of_mem _ hd))
  | any d n => exact two (Value.fits_ofOption huntyped) (Value.fits_bool _ n)

theorem fits_value {p : Property} {n : Nat} (hwords : ∀ i ∈ p.integers, Number.isWord i = true)
    (huntyped : ∀ v ∈ p.untyped?, v.Fits (n + 1)) (hfloats : p.floatDefaults = []) :
    p.value.Fits (n + 2) := by
  refine Value.fits_record_iff.2 (List.forall_mem_cons.2 ⟨Value.fits_text _ _, fun e he => ?_⟩)
  exact fits_fieldValues hwords huntyped hfloats e.2 (List.of_mem_zip he).2

end Property
end WrapperGen
