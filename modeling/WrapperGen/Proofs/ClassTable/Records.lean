import WrapperGen.ClassRecord
import WrapperGen.Format
import WrapperGen.Proofs.Json.Depth
import WrapperGen.Proofs.Names
import WrapperGen.Proofs.Property.RoundTrip

/-!
# Class records read back

A class record that was read, written as JSON and read again is the same record. Its value names all fields,
and no part of it stands deeper than in the document that was read.
-/

namespace WrapperGen

theorem Argument.ofText_text_ofText (s : String) : ofText (ofText s).text = ofText s := by
  by_cases h : s = bagWord <;> simp [ofText, text, h]

namespace ClassRecord

open Document (optional? orElse? asText? asTexts? optional?_ofOption)

/-- What a record holds that was read of a document. -/
structure WellFormed (r : ClassRecord) : Prop where
  properties : ∀ e ∈ r.properties.entries, e.2.WellFormed
  arguments : ∀ arguments ∈ r.arguments, ∀ a ∈ arguments, Argument.ofText a.text = a
  external : Names.sorted r.external = r.external

theorem properties?_propertiesValue {properties : Keyed Property}
    (h : ∀ e ∈ properties.entries, e.2.WellFormed) :
    properties? (propertiesValue properties).document = some properties := by
  have hentries : ((properties.entries.map fun e => (e.1, e.2.value.document)).mapM
      fun e : String × Document => (Property.ofDocument? e.2).map (e.1, ·)) = some properties.entries :=
    mapM_map_eq_some fun e he => by rw [Property.ofDocument?_value (h e he), Option.map_some]
  have hdocument : (propertiesValue properties).document =
      .record (properties.entries.map fun e => (e.1, e.2.value.document)) := by
    rw [propertiesValue, Value.document, Value.documentFields_eq_map, List.map_map]
    rfl
  rw [hdocument, properties?, hentries, Option.map_some, Keyed.ofList_entries]

theorem arguments?_argumentsValue {arguments : List Argument}
    (h : ∀ a ∈ arguments, Argument.ofText a.text = a) :
    arguments? (argumentsValue arguments).document = some arguments := by
  have htexts : (argumentsValue arguments).document.asTexts? = some (arguments.map (·.text)) := by
    have := Document.asTexts?_document (arguments.map (·.text))
    rwa [Value.ofTexts, List.map_map] at this
  rw [arguments?, htexts, Option.map_some, List.map_map]
  exact congrArg some ((List.map_congr_left (g := id) h).trans (List.map_id _))

/-- A record that was read is what its own value's document describes. -/
theorem ofDocument?_value {r : ClassRecord} (h : r.WellFormed) :
    ofDocument? .fields r.value.document = some r := by
  have hslots : r.value.document.slots? fieldNames .fields =
      some [some (Value.ofOption .text r.unitPath).document, some (Value.ofOption .text r.superClass).document,
        some (propertiesValue r.properties).document,
        some (Value.ofOption argumentsValue r.arguments).document,
        some (Value.ofTexts r.dependencies).document, some (Value.ofTexts r.external).document,
        some (Value.ofOption .text r.docPath).document] :=
    Document.slots?_record (show fieldNames.Nodup by decide)
  have htext : ∀ o, optional? asText? (some (Value.ofOption .text o).document) = some o := fun _ =>
    optional?_ofOption fun _ _ => ⟨rfl, nofun⟩
  have harguments : optional? arguments? (some (Value.ofOption argumentsValue r.arguments).document) =
      some r.arguments :=
    optional?_ofOption fun arguments ha => ⟨arguments?_argumentsValue (h.arguments arguments ha), nofun⟩
  rw [ofDocument?, hslots]
  simp only [Option.bind_eq_bind, Option.bind_some, htext, harguments, orElse?, Document.asTexts?_document,
    properties?_propertiesValue h.properties, h.external]
  rfl

/-- The properties that are read of a document are read of its parts. -/
theorem exists_of_properties? {d : Document} {properties : Keyed Property}
    (h : properties? d = some properties) :
    ∀ e ∈ properties.entries, ∃ x ∈ d.parts, Property.ofDocument? x = some e.2 := by
  cases d with
  | record fields =>
    obtain ⟨entries, hentries, rfl⟩ := Option.map_eq_some_iff.1 h
    intro e he
    obtain ⟨f, hf, hread⟩ := exists_of_mapM_eq_some hentries e (Named.mem_of_mem_collapse he)
    obtain ⟨p, hp, rfl⟩ := Option.map_eq_some_iff.1 hread
    exact ⟨f.2, List.mem_map_of_mem hf, hp⟩
  | _ => exact nomatch h

theorem ofText_text_of_arguments? {d : Document} {arguments : List Argument}
    (h : arguments? d = some arguments) : ∀ a ∈ arguments, Argument.ofText a.text = a := by
  obtain ⟨texts, -, rfl⟩ := Option.map_eq_some_iff.1 h
  exact List.forall_mem_map.2 fun s _ => Argument.ofText_text_ofText s

/-- What a record takes from the document it is read of, be that a record or a list. -/
theorem exists_of_ofDocument? {leeway : Leeway} {d : Document} {r : ClassRecord}
    (h : ofDocument? leeway d = some r) :
    (∀ e ∈ r.properties.entries, ∃ y ∈ d.parts, ∃ x ∈ y.parts, Property.ofDocument? x = some e.2) ∧
      (∀ arguments ∈ r.arguments, ∀ a ∈ arguments, Argument.ofText a.text = a) ∧
      Names.sorted r.external = r.external := by
  obtain ⟨slots, hslots, h⟩ := Option.bind_eq_some_iff.1 h
  split at h
  · next path parent properties args deps ext doc =>
    obtain ⟨_, -, h⟩ := Option.bind_eq_some_iff.1 h
    obtain ⟨_, -, h⟩ := Option.bind_eq_some_iff.1 h
    obtain ⟨ps, hproperties, h⟩ := Option.bind_eq_some_iff.1 h
    obtain ⟨as, harguments, h⟩ := Option.bind_eq_some_iff.1 h
    obtain ⟨_, -, h⟩ := Option.bind_eq_some_iff.1 h
    obtain ⟨names, -, h⟩ := Option.bind_eq_some_iff.1 h
    obtain ⟨_, -, h⟩ := Option.bind_eq_some_iff.1 h
    obtain rfl := Option.some.inj h
    refine ⟨fun e he => ?_, fun arguments ha => ?_, Names.sorted_sorted names⟩
    · cases properties with
      | none =>
        obtain rfl : Keyed.empty = ps := Option.some.inj hproperties
        exact nomatch he
      | some y =>
        exact ⟨y, Document.mem_parts_of_slots? hslots (by simp), exists_of_properties? hproperties e he⟩
    · obtain rfl : as = some arguments := ha
      obtain ⟨_, -, -, hread⟩ := Document.optional?_eq_some harguments
      exact ofText_text_of_arguments? hread
  · exact nomatch h

theorem fits_value {r : ClassRecord} {n : Nat} (h : r.WellFormed)
    (huntyped : ∀ e ∈ r.properties.entries, ∀ v ∈ e.2.untyped?, v.Fits (n + 1))
    (hfloats : ∀ e ∈ r.properties.entries, e.2.floatDefaults = []) : r.value.Fits (n + 4) := by
  have htext : ∀ o : Option String, (Value.ofOption .text o).Fits (n + 3) := fun _ =>
    Value.fits_ofOption fun s _ => Value.fits_text _ s
  have hproperties : (propertiesValue r.properties).Fits (n + 3) := by
    refine Value.fits_record_iff.2 (List.forall_mem_map.2 fun e he => ?_)
    exact Property.fits_value (h.properties e he).words (huntyped e he) (hfloats e he)
  have harguments : (Value.ofOption argumentsValue r.arguments).Fits (n + 3) :=
    Value.fits_ofOption fun arguments _ =>
      Value.fits_list_iff.2 (List.forall_mem_map.2 fun a _ => Value.fits_text _ a.text)
  refine Value.fits_record_iff.2 fun e he => ?_
  have hmem := (List.of_mem_zip he).2
  simp only [List.mem_cons, List.not_mem_nil, or_false] at hmem
  rcases hmem with h | h | h | h | h | h | h
  · exact h ▸ htext r.unitPath
  · exact h ▸ htext r.superClass
  · exact h ▸ hproperties
  · exact h ▸ harguments
  · exact h ▸ Value.fits_ofTexts r.dependencies _
  · exact h ▸ Value.fits_ofTexts r.external _
  · exact h ▸ htext r.docPath

/-- The record of a text. -/
def ofText? (format : Format) (s : String) : Option ClassRecord :=
  (format.read? s).bind (ofDocument? format.leeway)

/-- A record that was read of a JSON text of whole numbers, and that gives no floats, is read of its own
JSON text, with properties, fields and arguments in the same order. -/
theorem record_reads_back {s : String} {d : Document} {r : ClassRecord} (hread : Json.read? s = some d)
    (hwhole : d.whole = true) (hr : ofText? .json s = some r)
    (hfloats : ∀ e ∈ r.properties.entries, e.2.floatDefaults = []) :
    ofText? .json (Json.compact r.value) = some r := by
  have hdocument : ofDocument? .fields d = some r := by
    rwa [ofText?, Format.read?, hread, Option.bind_some] at hr
  obtain ⟨hproperties, harguments, hexternal⟩ := exists_of_ofDocument? hdocument
  have hheight := Json.height_le_of_read? hread
  have heach : ∀ e ∈ r.properties.entries,
      e.2.WellFormed ∧ ∀ v ∈ e.2.untyped?, v.Fits (123 + 1) := by
    intro e he
    obtain ⟨y, hy, x, hx, hread⟩ := hproperties e he
    have hxwhole := Document.allScalars_of_mem_parts (Document.allScalars_of_mem_parts hwhole hy) hx
    obtain ⟨hwellFormed, huntyped⟩ := Property.wellFormed_of_ofDocument? hread hxwhole
    refine ⟨hwellFormed, fun v hv => ⟨(huntyped v hv).1, ?_⟩⟩
    have hv := (huntyped v hv).2
    have hx := Document.height_lt_of_mem_parts hx
    have hy := Document.height_lt_of_mem_parts hy
    omega
  have hr : r.WellFormed := ⟨fun e he => (heach e he).1, harguments, hexternal⟩
  have hfits : r.value.Fits 127 := fits_value hr (fun e he => (heach e he).2) hfloats
  rw [ofText?, Format.read?, Json.read?_compact hfits.1 hfits.2, Option.bind_some]
  exact ofDocument?_value hr

/-- A record written as a list, with one property as a list and one as a record. -/
def knobText : String :=
  "[null,\"Hoop\",\x7b\"knob\":[\"any\",\x7b\"n\":[-0,7]\x7d],\"axis\":\x7b\"type\":\"vector3\"\x7d\x7d," ++
    "[\"knob\",\"parameters\"]]"

def knobRecord : ClassRecord where
  unitPath := none
  superClass := some "Hoop"
  properties := .ofList [("knob", .any (some (.record [("n", .list [.number (.float (.zero true)), .ofInt 7])]))
    false), ("axis", .vector3 none)]
  arguments := some [.property "knob", .parameters]
  dependencies := []
  external := []
  docPath := none

theorem record_reads_back_knob : ofText? .json knobText = some knobRecord ∧
    ofText? .json (Json.compact knobRecord.value) = some knobRecord := by
  obtain ⟨d, hread, hd⟩ : ∃ d, Json.read? knobText = some d ∧
      (d.whole && ofDocument? .fields d = some knobRecord) = true :=
    (Option.any_eq_true _ _).1 (by decide +kernel)
  rw [Bool.and_eq_true, decide_eq_true_iff] at hd
  have hrecord : ofText? .json knobText = some knobRecord := by
    rw [ofText?, Format.read?, hread, Option.bind_some]
    exact hd.2
  exact ⟨hrecord, record_reads_back hread hd.1 hrecord (by decide +kernel)⟩

end ClassRecord
end WrapperGen
