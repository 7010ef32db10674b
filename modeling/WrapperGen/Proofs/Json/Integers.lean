import Mathlib.Tactic.IntervalCases
import WrapperGen.Json.Number
import WrapperGen.Json.Printer
import WrapperGen.Proofs.Documents

/-!
# Whole numbers read back

The text of a whole number, followed by the end of the text or of a value, is read as that number: its
digits fit the significand, so none is dropped.
-/

namespace WrapperGen.Json

/-- What may follow a value in a text without blanks: the end, a comma, or the end of a container. -/
def Delimited (cs : List Char) : Prop := ∀ c, cs.head? = some c → c = ',' ∨ c = ']' ∨ c = '\x7d'

theorem delimited_nil : Delimited [] := nofun

theorem delimited_cons {c : Char} (h : c = ',' ∨ c = ']' ∨ c = '\x7d') (cs : List Char) :
    Delimited (c :: cs) := by
  rintro _ ⟨⟩
  exact h

/-- None of the marks after a value goes on with a number. -/
theorem Delimited.not_number {cs : List Char} (h : Delimited cs) {c : Char} (hc : cs.head? = some c) :
    isDigit c = false ∧ c ≠ '.' ∧ c ≠ 'e' ∧ c ≠ 'E' := by
  rcases h c hc with rfl | rfl | rfl <;> decide

theorem isDigit_eq (c : Char) : isDigit c = c.isDigit := by
  rw [isDigit, Char.isDigit]
  rfl

theorem toNat_of_isDigit {c : Char} (h : isDigit c = true) : 48 ≤ c.toNat ∧ c.toNat ≤ 57 := by
  rw [isDigit, Bool.and_eq_true, decide_eq_true_iff, decide_eq_true_iff] at h
  exact ⟨UInt32.le_iff_toNat_le.1 h.1, UInt32.le_iff_toNat_le.1 h.2⟩

theorem isDigit_of_mem_toDigits {n : Nat} {c : Char} (h : c ∈ Nat.toDigits 10 n) : isDigit c = true := by
  rw [isDigit_eq]
  exact Nat.isDigit_of_mem_toDigits (by decide) (by decide) h

/-- Only zero is written with a leading zero. -/
theorem eq_zero_of_head?_toDigits {n : Nat} (h : (Nat.toDigits 10 n).head? = some '0') : n = 0 := by
  induction n using Nat.strongRecOn with
  | _ n ih =>
    rw [Nat.toDigits_eq_if (by decide)] at h
    split at h
    · next hlt =>
      interval_cases n <;> first | rfl | exact nomatch h
    · next hge =>
      rw [List.head?_append_of_ne_nil _ Nat.toDigits_ne_nil] at h
      have := ih (n / 10) (by omega) h
      omega

theorem takeWhile_digits (digits : List Char) {rest : List Char} (hdigits : ∀ c ∈ digits, isDigit c = true)
    (hrest : ∀ c, rest.head? = some c → isDigit c = false) :
    (digits ++ rest).takeWhile isDigit = digits ∧ (digits ++ rest).dropWhile isDigit = rest := by
  rw [List.takeWhile_append_of_pos hdigits, List.dropWhile_append_of_pos hdigits]
  cases rest with
  | nil => simp
  | cons c cs => simp [hrest c rfl]

/-- The digits of a number are read as such, up to what is no digit. -/
theorem readWhole?_toDigits (n : Nat) {rest : List Char}
    (hrest : ∀ c, rest.head? = some c → isDigit c = false) :
    readWhole? (Nat.toDigits 10 n ++ rest) = some (Nat.toDigits 10 n, rest) := by
  obtain ⟨htake, hdrop⟩ := takeWhile_digits _ (fun _ => isDigit_of_mem_toDigits) hrest
  rw [readWhole?, htake, hdrop]
  split
  · next h => exact absurd h Nat.toDigits_ne_nil
  · next h =>
    obtain rfl := eq_zero_of_head?_toDigits (by rw [h]; rfl)
    exact nomatch h
  · rfl

theorem readFraction?_of_delimited {rest : List Char} (h : Delimited rest) :
    readFraction? rest = some (none, rest) := by
  unfold readFraction?
  split
  · exact absurd rfl (h.not_number rfl).2.1
  · rfl

theorem readExponent?_of_delimited {rest : List Char} (h : Delimited rest) :
    readExponent? rest = some (none, rest) := by
  cases rest with
  | nil => rfl
  | cons c cs =>
    obtain ⟨-, -, hlower, hupper⟩ := h.not_number rfl
    simp [readExponent?, hlower, hupper]

theorem le_ofDigitChars (digits : List Char) (s : Nat) : s ≤ Nat.ofDigitChars 10 digits s := by
  induction digits generalizing s with
  | nil => exact Nat.le_refl _
  | cons c r ih =>
    rw [Nat.ofDigitChars_cons]
    have := ih (10 * s + (c.toNat - '0'.toNat))
    omega

/-- All digits of a number that fits 64 bits are collected. -/
theorem collect_of_le {digits : List Char} {s : Nat} (h : Nat.ofDigitChars 10 digits s ≤ maxWord) :
    collect s digits = (Nat.ofDigitChars 10 digits s, []) := by
  induction digits generalizing s with
  | nil => rfl
  | cons c r ih =>
    have hnext : s * 10 + digitValue c = 10 * s + (c.toNat - '0'.toNat) := by
      rw [digitValue, Nat.mul_comm]
    rw [Nat.ofDigitChars_cons] at h ⊢
    have hfits := (le_ofDigitChars r _).trans h
    rw [collect]
    simp only [hnext, if_pos hfits, ih h]

theorem significand_toDigits (negative : Bool) {n : Nat} (h : n ≤ maxWord) :
    NumberText.significand ⟨negative, Nat.toDigits 10 n, none, none⟩ = (n, 0) := by
  have hvalue : Nat.ofDigitChars 10 (Nat.toDigits 10 n) 0 = n :=
    Nat.ofDigitChars_toDigits (by decide) (by decide)
  simp only [NumberText.significand]
  rw [collect_of_le (by rwa [hvalue]), hvalue]
  rfl

/-- Digits that fit 64 bits denote their value. -/
theorem number?_toDigits {n : Nat} (h : n ≤ maxWord) :
    NumberText.number? ⟨false, Nat.toDigits 10 n, none, none⟩ = some (.int n) := by
  simp [NumberText.number?, significand_toDigits false h]

theorem number?_neg_toDigits {n : Nat} (hpos : n ≠ 0) (h : n ≤ Nat.pow 2 63) :
    NumberText.number? ⟨true, Nat.toDigits 10 n, none, none⟩ = some (.int (-n)) := by
  have hword : n ≤ maxWord := h.trans (by decide)
  simp [NumberText.number?, significand_toDigits true hword, hpos, h]

theorem readNumber?_toDigits (n : Nat) {rest : List Char} (hrest : Delimited rest) :
    readNumber? (Nat.toDigits 10 n ++ rest) = some (⟨false, Nat.toDigits 10 n, none, none⟩, rest) := by
  have hstop : ∀ c, rest.head? = some c → isDigit c = false := fun c hc => (hrest.not_number hc).1
  unfold readNumber?
  split
  next sign cs hsign =>
    split at hsign
    · next r hminus =>
      have hhead : (Nat.toDigits 10 n).head? = some '-' := by
        rw [← List.head?_append_of_ne_nil _ Nat.toDigits_ne_nil, hminus]
        rfl
      exact absurd (isDigit_of_mem_toDigits (List.mem_of_mem_head? hhead)) (by decide)
    · obtain ⟨rfl, rfl⟩ := Prod.mk.inj hsign
      simp [readWhole?_toDigits n hstop, readFraction?_of_delimited hrest,
        readExponent?_of_delimited hrest]

theorem readNumber?_neg_toDigits (n : Nat) {rest : List Char} (hrest : Delimited rest) :
    readNumber? ('-' :: (Nat.toDigits 10 n ++ rest)) =
      some (⟨true, Nat.toDigits 10 n, none, none⟩, rest) := by
  have hstop : ∀ c, rest.head? = some c → isDigit c = false := fun c hc => (hrest.not_number hc).1
  simp [readNumber?, readWhole?_toDigits n hstop, readFraction?_of_delimited hrest,
    readExponent?_of_delimited hrest]

theorem readNumber?_minusZero {rest : List Char} (hrest : Delimited rest) :
    readNumber? ('-' :: '0' :: '.' :: '0' :: rest) = some (⟨true, ['0'], some ['0'], none⟩, rest) := by
  have hwhole : readWhole? ('0' :: '.' :: '0' :: rest) = some (['0'], '.' :: '0' :: rest) :=
    readWhole?_toDigits 0 (by rintro _ ⟨⟩; decide)
  obtain ⟨htake, hdrop⟩ : ('0' :: rest).takeWhile isDigit = ['0'] ∧ ('0' :: rest).dropWhile isDigit = rest :=
    takeWhile_digits ['0'] (List.forall_mem_singleton.2 (by decide)) fun c hc => (hrest.not_number hc).1
  simp [readNumber?, hwhole, readFraction?, htake, hdrop, readExponent?_of_delimited hrest]

/-- The text of a whole number is read back, whatever mark follows. -/
theorem exists_readNumber? {n : Number} (h : n.isWhole = true) {rest : List Char}
    (hrest : Delimited rest) :
    ∃ t, readNumber? (numberText n ++ rest) = some (t, rest) ∧ t.number? = some n := by
  cases n with
  | float d =>
    obtain rfl : d = .zero true := of_decide_eq_true h
    exact ⟨_, readNumber?_minusZero hrest, by decide +kernel⟩
  | int i =>
    rw [Number.isWhole, Bool.and_eq_true, decide_eq_true_iff, decide_eq_true_iff] at h
    obtain ⟨hlow, hhigh⟩ := h
    by_cases hneg : i < 0
    · refine ⟨_, by rw [numberText, intText, if_pos hneg]; exact readNumber?_neg_toDigits _ hrest, ?_⟩
      rw [number?_neg_toDigits (by omega) (by omega)]
      congr 2
      omega
    · refine ⟨_, by rw [numberText, intText, if_neg hneg]; exact readNumber?_toDigits _ hrest, ?_⟩
      rw [number?_toDigits (by simp only [maxWord]; omega)]
      congr 2
      omega

/-- The text of a whole number is made of digits, a minus and a point. -/
theorem mem_numberText {n : Number} (h : n.isWhole = true) {c : Char} (hc : c ∈ numberText n) :
    isDigit c = true ∨ c = '-' ∨ c = '.' := by
  cases n with
  | float d =>
    obtain rfl : d = .zero true := of_decide_eq_true h
    have hzero : c ∈ ['-', '0', '.', '0'] := hc
    simp only [List.mem_cons, List.not_mem_nil, or_false] at hzero
    rcases hzero with rfl | rfl | rfl | rfl <;> decide
  | int i =>
    rw [numberText, intText] at hc
    split at hc
    · rcases List.mem_cons.1 hc with rfl | hc
      · exact .inr (.inl rfl)
      · exact .inl (isDigit_of_mem_toDigits hc)
    · exact .inl (isDigit_of_mem_toDigits hc)

theorem numberText_ne_nil {n : Number} (h : n.isWhole = true) : numberText n ≠ [] := by
  cases n with
  | float d =>
    obtain rfl : d = .zero true := of_decide_eq_true h
    exact List.cons_ne_nil _ _
  | int i =>
    rw [numberText, intText]
    split
    · exact List.cons_ne_nil _ _
    · exact Nat.toDigits_ne_nil

end WrapperGen.Json
