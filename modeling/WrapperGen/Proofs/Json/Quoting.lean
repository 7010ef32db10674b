import Mathlib.Tactic.IntervalCases
import WrapperGen.Json.Quoted

/-!
# Quoted strings read back

Quoting leaves neither a bare quote nor a character below the blank in a string, and a reader that knows
the escapes quoting makes gets the string back, whatever follows it. JSON knows one escape more, that of
the slash, which the languages wrappers are written in do not share.
-/

namespace WrapperGen.Json

/-- The escapes of one letter that JSON shares with the target languages. -/
def shared? (c : Char) : Option Char := if c = '/' then none else escaped? c

/-- A text as a literal of either target language: a quoted string with the escapes they share. -/
def readText? (s : String) : Option String :=
  match s.toList with
  | '"' :: cs =>
    match readPieces? shared? cs with
    | some (pieces, []) => (characters? pieces).map String.ofList
    | _ => none
  | _ => none

/-- A reader's escapes include the shared ones. -/
def Knows (known : Char → Option Char) : Prop := ∀ e c, shared? e = some c → known e = some c

theorem knows_shared : Knows shared? := fun _ _ h => h

theorem knows_escaped : Knows escaped? := by
  intro e c h
  unfold shared? at h
  split at h
  · exact nomatch h
  · exact h

theorem hexValue?_hexDigit {n : Nat} (h : n < 16) : hexValue? (hexDigit n) = some n := by
  interval_cases n <;> decide

theorem toNat_hexDigit {n : Nat} (h : n < 16) : 0x20 ≤ (hexDigit n).toNat := by
  interval_cases n <;> decide

theorem hex4?_control {n : Nat} (h : n < 0x20) :
    hex4? '0' '0' (hexDigit (n / 16)) (hexDigit (n % 16)) = some n := by
  have hzero : hexValue? '0' = some 0 := by decide
  have hvalue : n / 16 * 16 + n % 16 = n := by omega
  rw [hex4?, hzero, hexValue?_hexDigit (by omega), hexValue?_hexDigit (by omega)]
  simpa using hvalue

/-- The code point of a character, given as a unit, is the character. -/
theorem characters?_unit (c : Char) (pieces : List Piece) :
    characters? (.unit c.toNat :: pieces) = (characters? pieces).map (c :: ·) := by
  have hvalid : ¬ (0xD800 ≤ c.toNat ∧ c.toNat < 0xE000) := by
    rintro ⟨hlow, hhigh⟩
    rcases c.valid with h | h
    · exact absurd h (Nat.not_lt.2 hlow)
    · exact absurd h.1 (Nat.not_lt.2 (Nat.le_of_lt_succ hhigh))
  have hc : Char.ofNat c.toNat = c := Char.ofNat_toNat c
  rcases pieces with _ | ⟨_ | m, rest⟩
  · simp [characters?, hvalid, hc]
  · simp [characters?, hvalid, hc]
  · rw [characters?, if_neg (by omega), if_neg (by omega), hc]

/-- The ways in which a character stands in a quoted string. -/
inductive Escaped (c : Char) : List Char → Prop
  | letter {e : Char} (other : e ≠ 'u') (printed : 0x20 ≤ e.toNat) (known : shared? e = some c) :
    Escaped c ['\\', e]
  | control (low : c.toNat < 0x20) :
    Escaped c ['\\', 'u', '0', '0', hexDigit (c.toNat / 16), hexDigit (c.toNat % 16)]
  | plain (unquoted : c ≠ '"') (unescaped : c ≠ '\\') (printed : 0x20 ≤ c.toNat) : Escaped c [c]

theorem escaped_escape (c : Char) : Escaped c (escape c) := by
  unfold escape
  -- the escapes of one letter, each with its own character
  iterate 7
    split
    · next h => exact .letter (by decide) (by decide) (by subst h; decide)
  split
  · next h => exact .control h
  · next hquote hback _ _ _ _ _ hlow => exact .plain hquote hback (Nat.not_lt.1 hlow)

/-- An escaped character is read as one piece, which stands for it. -/
theorem exists_piece {known : Char → Option Char} (hknown : Knows known) {c : Char} {text : List Char}
    (h : Escaped c text) :
    ∃ p, (∀ pieces, characters? (p :: pieces) = (characters? pieces).map (c :: ·)) ∧
      ∀ cs, readPieces? known (text ++ cs) = (readPieces? known cs).map fun (ps, t) => (p :: ps, t) := by
  have plain : ∀ pieces, characters? (.char c :: pieces) = (characters? pieces).map (c :: ·) := fun _ => by
    rw [characters?]
  cases h with
  | letter other _ hshared =>
    refine ⟨.char c, plain, fun cs => ?_⟩
    rw [List.cons_append, List.singleton_append, readPieces?, hknown _ c hshared]
    · cases readPieces? known cs <;> rfl
    · rintro _ _ _ _ _ rfl
      exact absurd rfl other
  | control low =>
    refine ⟨.unit c.toNat, characters?_unit c, fun cs => ?_⟩
    rw [List.cons_append, List.cons_append, List.cons_append, List.cons_append, List.cons_append,
      List.cons_append, List.nil_append, readPieces?, hex4?_control low]
    cases readPieces? known cs <;> rfl
  | plain unquoted unescaped printed =>
    refine ⟨.char c, plain, fun cs => ?_⟩
    rw [List.singleton_append, readPieces?, if_neg (by simp [unescaped, printed])]
    · cases readPieces? known cs <;> rfl
    all_goals simp [unquoted, unescaped]

/-- The rest of a quoted string is read up to its closing quote, whatever follows. -/
theorem exists_readPieces? {known : Char → Option Char} (hknown : Knows known) (cs rest : List Char) :
    ∃ pieces, characters? pieces = some cs ∧
      readPieces? known (cs.flatMap escape ++ '"' :: rest) = some (pieces, rest) := by
  induction cs with
  | nil => exact ⟨[], rfl, by rw [List.flatMap_nil, List.nil_append, readPieces?]⟩
  | cons c cs ih =>
    obtain ⟨pieces, hpieces, hread⟩ := ih
    obtain ⟨p, hp, hescape⟩ := exists_piece hknown (escaped_escape c)
    refine ⟨p :: pieces, by rw [hp, hpieces, Option.map_some], ?_⟩
    rw [List.flatMap_cons, List.append_assoc, hescape, hread, Option.map_some]

theorem readText?_quoteText (s : String) : readText? (quoteText s) = some s := by
  obtain ⟨pieces, hpieces, hread⟩ := exists_readPieces? knows_shared s.toList []
  rw [readText?, quoteText, String.toList_ofList, quote, List.cons_append]
  simp only [hread, hpieces, Option.map_some, String.ofList_toList]

theorem toNat_of_escaped {c x : Char} {text : List Char} (h : Escaped c text) (hx : x ∈ text) :
    0x20 ≤ x.toNat := by
  cases h with
  | letter _ printed _ =>
    rw [List.mem_cons, List.mem_singleton] at hx
    obtain rfl | rfl := hx
    · decide
    · exact printed
  | control low =>
    have hhigh := toNat_hexDigit (show c.toNat / 16 < 16 by omega)
    have hlow := toNat_hexDigit (show c.toNat % 16 < 16 by omega)
    simp only [List.mem_cons, List.not_mem_nil, or_false] at hx
    rcases hx with rfl | rfl | rfl | rfl | rfl | rfl <;> first | decide | assumption
  | plain _ _ printed =>
    obtain rfl := List.mem_singleton.1 hx
    exact printed

/-- A quoted string has no character below the blank. -/
theorem toNat_of_mem_quote {cs : List Char} {x : Char} (h : x ∈ quote cs) : 0x20 ≤ x.toNat := by
  rw [quote, List.cons_append, List.mem_cons, List.mem_append, List.mem_singleton] at h
  rcases h with rfl | h | rfl
  · decide
  · obtain ⟨c, -, hx⟩ := List.mem_flatMap.1 h
    exact toNat_of_escaped (escaped_escape c) hx
  · decide

end WrapperGen.Json
