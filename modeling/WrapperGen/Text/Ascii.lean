/-!
# Texts in ASCII

The characters of a text are decoded from its bytes. In ASCII a byte is a character, so the characters of a
fixed text are found without decoding it, which keeps computations in proofs short.
-/

namespace WrapperGen.Text

/-- The characters of a text in ASCII, which are its bytes. -/
def ascii? (s : String) : Option (List Char) :=
  let bytes := s.toByteArray.data.toList
  if bytes.all (· < 128) then some (bytes.map Char.ofUInt8) else none

theorem utf8EncodeChar_ofUInt8 {b : UInt8} (h : b < 128) :
    String.utf8EncodeChar (Char.ofUInt8 b) = [b] := by
  have hb : b.toNat ≤ 127 := Nat.le_of_lt_succ (UInt8.lt_iff_toNat_lt.1 h)
  have hval : (Char.ofUInt8 b).val.toNat = b.toNat := UInt8.toNat_toUInt32 b
  simp [String.utf8EncodeChar, hval, hb]

theorem toList_of_ascii? {s : String} {cs : List Char} (h : ascii? s = some cs) : s.toList = cs := by
  rw [ascii?, Option.ite_none_right_eq_some] at h
  obtain ⟨hall, hcs⟩ := h
  have hencode : cs.flatMap String.utf8EncodeChar = s.toByteArray.data.toList := by
    have hbytes : ∀ b ∈ s.toByteArray.data.toList, String.utf8EncodeChar (Char.ofUInt8 b) = [b] :=
      fun b hb => utf8EncodeChar_ofUInt8 (by simpa using List.all_eq_true.1 hall b hb)
    rw [← Option.some.inj hcs, List.flatMap_map, List.flatMap_def, List.map_congr_left hbytes,
      ← List.flatMap_def, List.flatMap_singleton']
  have hs : s = String.ofList cs := by
    rw [← String.toByteArray_inj, String.toByteArray_ofList, List.utf8Encode, hencode,
      ByteArray.ext_iff, ← Array.toList_inj, List.toList_data_toByteArray]
  rw [hs, String.toList_ofList]

theorem toList_of_mapM_ascii? {lines : List String} {css : List (List Char)}
    (h : lines.mapM ascii? = some css) : lines.map String.toList = css := by
  induction lines generalizing css with
  | nil => simpa using h
  | cons line lines ih =>
    rw [List.mapM_cons] at h
    obtain ⟨cs, hcs, h⟩ := Option.bind_eq_some_iff.1 h
    obtain ⟨rest, hrest, h⟩ := Option.bind_eq_some_iff.1 h
    rw [← Option.some.inj h, List.map_cons, toList_of_ascii? hcs, ih hrest]

end WrapperGen.Text
