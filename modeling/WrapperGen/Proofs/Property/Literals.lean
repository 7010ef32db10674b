import WrapperGen.Proofs.Json.RoundTrip
import WrapperGen.Property.Literal

/-!
# Literals read back

The literal of a structured default is a text in a dialect of JSON that has the target language's words. It
stands on one line and is read as the default, and so is the literal of a text. Words are only what stands
outside of strings: neither a name nor a text becomes one.
-/

namespace WrapperGen.Literal

theorem dialect_legible (target : Target) : (dialect target).Legible := by
  cases target <;> exact ⟨by decide, by decide, by decide⟩

/-- The value of a literal in a target language. -/
def read? (target : Target) (s : String) : Option Value :=
  (Json.readAs? (dialect target) s).bind Document.value?

/-- The literal of a value of whole numbers is read as the value, fields in the same order, and has no
character below the blank. The literal of a text is read as the text. -/
theorem literals_read_back (target : Target) :
    (∀ v : Value, v.Distinct → v.document.whole = true →
      read? target (value target v) = some v ∧ ∀ c ∈ (value target v).toList, 0x20 ≤ c.toNat) ∧
    ∀ s, Json.readText? (Json.quoteText s) = some s := by
  refine ⟨fun v hv hwhole => ⟨?_, ?_⟩, Json.readText?_quoteText⟩
  · have hread := Json.readAs?_valueChars (dialect_legible target)
      (show ∀ c ∈ [' '], Json.isBlank c = true from List.forall_mem_singleton.2 (by decide)) hwhole nofun
    rw [read?, value, hread, Option.bind_some, Value.value?_document hv hwhole]
  · rw [value, String.toList_ofList]
    exact Json.toNat_of_mem_valueChars (dialect_legible target) (List.forall_mem_singleton.2 (by decide)) hwhole

/-- Words of either language as a name and a text, beside the values the words stand for. -/
def wordsValue : Value :=
  .record [("null", .null), ("True", .list [.bool true, .bool false, .number (.int (-1))]),
    ("line\nbreak", .text "None, \"true\"")]

theorem wordsValue_distinct : wordsValue.Distinct := by
  refine .record (by decide +kernel) fun e he => ?_
  simp only [List.mem_cons, List.not_mem_nil, or_false] at he
  rcases he with rfl | rfl | rfl
  · exact .null
  · refine .list fun v hv => ?_
    simp only [List.mem_cons, List.not_mem_nil, or_false] at hv
    rcases hv with rfl | rfl | rfl <;> constructor
  · exact .text _

theorem literals_read_back_words :
    value .python wordsValue =
      "\x7b\"null\": None, \"True\": [True, False, -1], \"line\\nbreak\": \"None, \\\"true\\\"\"\x7d" ∧
    read? .python (value .python wordsValue) = some wordsValue ∧
    ∀ c ∈ (value .python wordsValue).toList, 0x20 ≤ c.toNat :=
  ⟨by decide +kernel, (literals_read_back .python).1 wordsValue wordsValue_distinct (by decide +kernel)⟩

end WrapperGen.Literal
