import WrapperGen.Json.Reader
import WrapperGen.Proofs.Json.Integers
import WrapperGen.Proofs.Json.Quoting

/-!
# Values read back from their texts

A value of whole numbers, written in a dialect whose words can be told apart, is read in that dialect as the
document of the value. The reader of one value is given whatever follows it in the text, and its steps are
bounded by the length of the text.
-/

namespace WrapperGen.Json

namespace Dialect

def words (g : Dialect) : List (List Char) := [g.nullWord, g.trueWord, g.falseWord]

/-- Words of letters that differ from each other in their first. -/
structure Legible (g : Dialect) : Prop where
  nonempty : ∀ w ∈ g.words, w ≠ []
  letters : ∀ w ∈ g.words, w.all Char.isAlpha = true
  initials : (g.words.map List.head?).Nodup

theorem standard_legible : standard.Legible := ⟨by decide, by decide, by decide⟩

/-- Whether a document of a given height may stand inside `depth` containers. -/
def Holds (g : Dialect) (depth height : Nat) : Prop := ∀ n, g.limit = some n → depth + height ≤ n

variable {g : Dialect} {depth n : Nat}

theorem Holds.admits (h : g.Holds depth (n + 1)) : g.admits depth = true := by
  unfold Dialect.admits
  split
  · next limit hlimit =>
    have := h limit hlimit
    simp only [decide_eq_true_eq]
    omega
  · rfl

theorem Holds.part (h : g.Holds depth (n + 1)) {m : Nat} (hm : m ≤ n) : g.Holds (depth + 1) m := by
  intro limit hlimit
  have := h limit hlimit
  omega

end Dialect

theorem skip_cons {c : Char} (h : isBlank c = false) (cs : List Char) : skip (c :: cs) = c :: cs := by
  rw [skip, List.dropWhile_cons_of_neg (by simp [h])]

theorem after?_append (w rest : List Char) : after? w (w ++ rest) = some rest := by
  induction w with
  | nil => rfl
  | cons c w ih => rw [List.cons_append, after?, if_pos rfl, ih]

theorem after?_eq_none {w cs : List Char} (hw : w ≠ []) (h : w.head? ≠ cs.head?) : after? w cs = none := by
  cases w with
  | nil => exact absurd rfl hw
  | cons a w =>
    cases cs with
    | nil => rfl
    | cons c cs => rw [after?, if_neg fun he => h (congrArg some he)]

section

variable {g : Dialect} {gap : List Char}

theorem readWord?_null (rest : List Char) : readWord? g (g.nullWord ++ rest) = some (.null, rest) := by
  rw [readWord?, after?_append]
  rfl

theorem readWord?_bool (hg : g.Legible) (b : Bool) (rest : List Char) :
    readWord? g (g.boolWord b ++ rest) = some (.bool b, rest) := by
  have hinitials := hg.initials
  simp only [Dialect.words, List.map_cons, List.map_nil, List.nodup_cons, List.mem_cons,
    List.not_mem_nil, or_false, not_or] at hinitials
  have hnonempty := hg.nonempty
  simp only [Dialect.words, List.forall_mem_cons] at hnonempty
  obtain ⟨hnull, htrue, hfalse, -⟩ := hnonempty
  obtain ⟨⟨hnt, hnf⟩, htf, -⟩ := hinitials
  cases b with
  | true =>
    rw [readWord?, Dialect.boolWord, if_pos rfl, after?_append,
      after?_eq_none hnull (by rwa [List.head?_append_of_ne_nil _ htrue])]
    rfl
  | false =>
    rw [readWord?, Dialect.boolWord, if_neg (by decide), after?_append,
      after?_eq_none hnull (by rwa [List.head?_append_of_ne_nil _ hfalse]),
      after?_eq_none htrue (by rwa [List.head?_append_of_ne_nil _ hfalse])]
    rfl

/-- No word starts with what is no letter. -/
theorem readWord?_eq_none (hg : g.Legible) {c : Char} (hc : c.isAlpha = false) (cs : List Char) :
    readWord? g (c :: cs) = none := by
  have hnone : ∀ w ∈ g.words, after? w (c :: cs) = none := by
    intro w hw
    refine after?_eq_none (hg.nonempty w hw) fun hhead => ?_
    rw [List.all_eq_true.1 (hg.letters w hw) c (List.mem_of_mem_head? hhead)] at hc
    exact nomatch hc
  simp only [Dialect.words, List.forall_mem_cons] at hnone
  obtain ⟨hnull, htrue, hfalse, -⟩ := hnone
  rw [readWord?, hnull, htrue, hfalse]
  rfl

/-- Whether a character is neither a blank nor a mark that a string or a container starts or ends with. -/
def isPlain (c : Char) : Bool :=
  !isBlank c && c ≠ '"' && c ≠ '[' && c ≠ ']' && c ≠ '\x7b' && c ≠ '\x7d'

theorem isPlain_of_isAlpha {c : Char} (h : c.isAlpha = true) : isPlain c = true := by
  simp only [isPlain, isBlank, Bool.and_eq_true, Bool.not_eq_true', Bool.or_eq_false_iff,
    decide_eq_true_iff, decide_eq_false_iff_not]
  and_intros <;> (rintro rfl; exact absurd h (by decide))

theorem isPlain_of_mem_numberText {n : Number} (h : n.isWhole = true) {c : Char} (hc : c ∈ numberText n) :
    isPlain c = true ∧ c.isAlpha = false := by
  have hbetween : ∀ m < 128, isDigit (Char.ofNat m) = true ∨ Char.ofNat m = '-' ∨ Char.ofNat m = '.' →
      isPlain (Char.ofNat m) = true ∧ (Char.ofNat m).isAlpha = false := by decide
  have hlt : c.toNat < 128 := by
    rcases mem_numberText h hc with hdigit | rfl | rfl
    · have := toNat_of_isDigit hdigit
      omega
    · decide
    · decide
  have := hbetween c.toNat hlt
  rw [Char.ofNat_toNat] at this
  exact this (mem_numberText h hc)

/-- A text that starts with neither a string nor a container is a word or a number. -/
theorem readValue?_scalar {c : Char} (hplain : isPlain c = true) (fuel depth : Nat) (cs : List Char) :
    readValue? g (fuel + 1) depth (c :: cs) =
      (readWord? g (c :: cs)).or ((readNumber? (c :: cs)).map fun (n, t) => (numberOf n, t)) := by
  simp only [isPlain, Bool.and_eq_true, Bool.not_eq_true', decide_eq_true_iff] at hplain
  obtain ⟨⟨⟨⟨⟨hblank, hquote⟩, hlist⟩, -⟩, hrecord⟩, -⟩ := hplain
  rw [readValue?, skip_cons hblank]
  split
  · next h => exact absurd (List.cons.inj h).1 hquote
  · next h => exact absurd (List.cons.inj h).1 hlist
  · next h => exact absurd (List.cons.inj h).1 hrecord
  · rfl

theorem readValue?_blank {blank : List Char} (h : ∀ c ∈ blank, isBlank c = true) (fuel depth : Nat)
    (cs : List Char) : readValue? g fuel depth (blank ++ cs) = readValue? g fuel depth cs := by
  cases fuel with
  | zero => rfl
  | succ fuel => rw [readValue?, readValue?, skip, List.dropWhile_append_of_pos h, ← skip]

theorem readItems?_blank {blank : List Char} (h : ∀ c ∈ blank, isBlank c = true) (fuel depth : Nat)
    (cs : List Char) : readItems? g fuel depth (blank ++ cs) = readItems? g fuel depth cs := by
  cases fuel with
  | zero => rfl
  | succ fuel => rw [readItems?, readItems?, readValue?_blank h]

theorem readFields?_blank {blank : List Char} (h : ∀ c ∈ blank, isBlank c = true) (fuel depth : Nat)
    (cs : List Char) : readFields? g fuel depth (blank ++ cs) = readFields? g fuel depth cs := by
  cases fuel with
  | zero => rfl
  | succ fuel => rw [readFields?, readFields?, skip, List.dropWhile_append_of_pos h, ← skip]

/-- The text of a value starts like one, and is read as the document of the value. -/
structure Reads (g : Dialect) (gap : List Char) (v : Value) : Prop where
  opens : ∃ c cs, valueChars g gap v = c :: cs ∧ isBlank c = false ∧ c ≠ ']'
  reads : ∀ (fuel depth : Nat) (rest : List Char), 2 * (valueChars g gap v).length ≤ fuel + 1 →
    g.Holds depth v.document.height → Delimited rest →
    readValue? g fuel depth (valueChars g gap v ++ rest) = some (v.document, rest)

theorem Reads.length_pos {v : Value} (h : Reads g gap v) : 0 < (valueChars g gap v).length := by
  obtain ⟨c, cs, heq, -⟩ := h.opens
  rw [heq]
  exact Nat.succ_pos _

/-- A text that neither a string nor a container starts is read in one step. -/
theorem reads_scalar {v : Value} (hne : valueChars g gap v ≠ [])
    (hplain : ∀ c ∈ (valueChars g gap v).head?, isPlain c = true)
    (hread : ∀ rest, Delimited rest →
      (readWord? g (valueChars g gap v ++ rest)).or
        ((readNumber? (valueChars g gap v ++ rest)).map fun (n, t) => (numberOf n, t)) =
          some (v.document, rest)) : Reads g gap v := by
  obtain ⟨c, cs, heq⟩ := List.exists_cons_of_ne_nil hne
  have hc : isPlain c = true := hplain c (by rw [heq]; rfl)
  have hmarks := hc
  simp only [isPlain, Bool.and_eq_true, Bool.not_eq_true', decide_eq_true_iff] at hmarks
  refine ⟨⟨c, cs, heq, hmarks.1.1.1.1.1, hmarks.1.1.2⟩, ?_⟩
  intro fuel depth rest hfuel _ hrest
  obtain ⟨fuel, rfl⟩ : ∃ n, fuel = n + 1 := ⟨fuel - 1, by rw [heq, List.length_cons] at hfuel; omega⟩
  have hstep := hread rest hrest
  rw [heq, List.cons_append] at hstep ⊢
  rw [readValue?_scalar hc, hstep]

theorem reads_word (hg : g.Legible) {v : Value} (hword : valueChars g gap v ∈ g.words)
    (hread : ∀ rest, readWord? g (valueChars g gap v ++ rest) = some (v.document, rest)) :
    Reads g gap v :=
  reads_scalar (hg.nonempty _ hword)
    (fun c hc => isPlain_of_isAlpha (List.all_eq_true.1 (hg.letters _ hword) c (List.mem_of_mem_head? hc)))
    (fun rest _ => by rw [hread rest, Option.some_or])

theorem reads_number (hg : g.Legible) {n : Number} (h : n.isWhole = true) : Reads g gap (.number n) := by
  have hne := numberText_ne_nil h
  refine reads_scalar hne (fun c hc => (isPlain_of_mem_numberText h (List.mem_of_mem_head? hc)).1)
    fun rest hrest => ?_
  obtain ⟨t, hread, hnumber⟩ := exists_readNumber? h hrest
  obtain ⟨c, cs, heq⟩ := List.exists_cons_of_ne_nil hne
  have hword : readWord? g (numberText n ++ rest) = none := by
    rw [heq, List.cons_append]
    exact readWord?_eq_none hg (isPlain_of_mem_numberText h (by rw [heq]; exact List.mem_cons_self)).2 _
  simp only [valueChars, hword, hread, Option.none_or, Option.map_some, numberOf, hnumber, Value.document]

theorem reads_text (s : String) : Reads g gap (.text s) := by
  refine ⟨⟨'"', _, rfl, by decide, by decide⟩, ?_⟩
  intro fuel depth rest hfuel _ _
  obtain ⟨fuel, rfl⟩ : ∃ n, fuel = n + 1 := ⟨fuel - 1, by simp [valueChars, quote] at hfuel; omega⟩
  obtain ⟨pieces, hpieces, hread⟩ := exists_readPieces? knows_escaped s.toList rest
  have htext : textOf pieces = .text s := by
    rw [textOf, hpieces]
    exact congrArg Document.text String.ofList_toList
  rw [valueChars, quote, List.cons_append, List.cons_append, List.append_assoc, readValue?,
    skip_cons (by decide)]
  simp only [List.singleton_append, hread, htext, Option.map_some]
  rfl

theorem itemsChars_cons_cons (v w : Value) (r : List Value) :
    itemsChars g gap (v :: w :: r) = valueChars g gap v ++ ',' :: (gap ++ itemsChars g gap (w :: r)) :=
  rfl

theorem fieldsChars_cons_cons (k : String) (v : Value) (e : String × Value) (r : List (String × Value)) :
    fieldsChars g gap ((k, v) :: e :: r) =
      quote k.toList ++ ':' :: (gap ++ valueChars g gap v ++ ',' :: (gap ++ fieldsChars g gap (e :: r))) :=
  rfl

section

variable {fuel depth : Nat} {cs t u : List Char} {d : Document} {ds : List Document}
  {k : List Piece} {fs : List (List Piece × Document)}

theorem readItems?_last (h : readValue? g fuel (depth + 1) cs = some (d, ']' :: t)) :
    readItems? g (fuel + 1) depth cs = some ([d], t) := by
  rw [readItems?, h, Option.bind_eq_bind, Option.bind_some]
  simp only [skip_cons (c := ']') (by decide)]
  rfl

theorem readItems?_more (h : readValue? g fuel (depth + 1) cs = some (d, ',' :: t))
    (hmore : readItems? g fuel depth t = some (ds, u)) :
    readItems? g (fuel + 1) depth cs = some (d :: ds, u) := by
  rw [readItems?, h, Option.bind_eq_bind, Option.bind_some]
  simp only [skip_cons (c := ',') (by decide), hmore]
  rfl

theorem readFields?_last (hk : readPieces? escaped? cs = some (k, ':' :: t))
    (h : readValue? g fuel (depth + 1) t = some (d, '\x7d' :: u)) :
    readFields? g (fuel + 1) depth ('"' :: cs) = some ([(k, d)], u) := by
  rw [readFields?, skip_cons (by decide)]
  simp only [hk, Option.bind_eq_bind, Option.bind_some, skip_cons (c := ':') (by decide), h,
    skip_cons (c := '\x7d') (by decide)]
  rfl

theorem readFields?_more (hk : readPieces? escaped? cs = some (k, ':' :: t)) {w : List Char}
    (h : readValue? g fuel (depth + 1) t = some (d, ',' :: u))
    (hmore : readFields? g fuel depth u = some (fs, w)) :
    readFields? g (fuel + 1) depth ('"' :: cs) = some ((k, d) :: fs, w) := by
  rw [readFields?, skip_cons (by decide)]
  simp only [hk, Option.bind_eq_bind, Option.bind_some, skip_cons (c := ':') (by decide), h,
    skip_cons (c := ',') (by decide), hmore]
  rfl

end

/-- The items of a list are read one by one, each with a step less than the one before. -/
theorem readItems?_itemsChars (hgap : ∀ c ∈ gap, isBlank c = true) {items : List Value} (hne : items ≠ [])
    (hreads : ∀ v ∈ items, Reads g gap v) (fuel depth : Nat)
    (hfuel : 2 * (itemsChars g gap items).length ≤ fuel + 2)
    (hheight : ∀ v ∈ items, g.Holds (depth + 1) v.document.height) (rest : List Char) :
    readItems? g fuel depth (itemsChars g gap items ++ rest) = some (items.map Value.document, rest) := by
  induction items generalizing fuel with
  | nil => exact absurd rfl hne
  | cons v r ih =>
    obtain ⟨hv, hr⟩ := List.forall_mem_cons.1 hreads
    obtain ⟨hfirst, hothers⟩ := List.forall_mem_cons.1 hheight
    have hpos := hv.length_pos
    cases r with
    | nil =>
      rw [itemsChars, List.length_append, List.length_singleton] at hfuel
      obtain ⟨fuel, rfl⟩ : ∃ n, fuel = n + 1 := ⟨fuel - 1, by omega⟩
      rw [itemsChars, List.append_assoc, List.singleton_append]
      exact readItems?_last (hv.reads _ _ _ (by omega) hfirst (delimited_cons (by decide) rest))
    | cons w r =>
      rw [itemsChars_cons_cons, List.length_append, List.length_cons, List.length_append] at hfuel
      obtain ⟨fuel, rfl⟩ : ∃ n, fuel = n + 1 := ⟨fuel - 1, by omega⟩
      rw [itemsChars_cons_cons, List.append_assoc, List.cons_append, List.append_assoc]
      refine readItems?_more (hv.reads _ _ _ (by omega) hfirst (delimited_cons (by decide) _)) ?_
      rw [readItems?_blank hgap]
      exact ih (List.cons_ne_nil _ _) hr fuel (by omega) hothers

/-- The fields of a record are read likewise, their names as pieces that make the names. -/
theorem readFields?_fieldsChars (hgap : ∀ c ∈ gap, isBlank c = true) {fields : List (String × Value)}
    (hne : fields ≠ []) (hreads : ∀ e ∈ fields, Reads g gap e.2) (fuel depth : Nat)
    (hfuel : 2 * (fieldsChars g gap fields).length ≤ fuel + 2)
    (hheight : ∀ e ∈ fields, g.Holds (depth + 1) e.2.document.height) (rest : List Char) :
    ∃ fs, readFields? g fuel depth (fieldsChars g gap fields ++ rest) = some (fs, rest) ∧
      (fs.mapM fun (k, d) => (characters? k).map fun cs => (String.ofList cs, d)) =
        some (fields.map fun e => (e.1, e.2.document)) := by
  induction fields generalizing fuel with
  | nil => exact absurd rfl hne
  | cons e r ih =>
    obtain ⟨k, v⟩ := e
    obtain ⟨hv, hr⟩ : Reads g gap v ∧ ∀ e ∈ r, Reads g gap e.2 := List.forall_mem_cons.1 hreads
    obtain ⟨hfirst, hothers⟩ := List.forall_mem_cons.1 hheight
    have hname : ∀ pieces, characters? pieces = some k.toList →
        (characters? pieces).map (fun cs => (String.ofList cs, v.document)) = some (k, v.document) := by
      intro pieces hpieces
      rw [hpieces, Option.map_some, String.ofList_toList]
    cases r with
    | nil =>
      obtain ⟨pieces, hpieces, hread⟩ := exists_readPieces? knows_escaped k.toList
        (':' :: (gap ++ (valueChars g gap v ++ '\x7d' :: rest)))
      simp only [fieldsChars, quote, List.length_append, List.length_cons, List.length_nil] at hfuel
      obtain ⟨fuel, rfl⟩ : ∃ n, fuel = n + 1 := ⟨fuel - 1, by omega⟩
      refine ⟨[(pieces, v.document)], ?_, by simp [hname pieces hpieces]⟩
      simp only [fieldsChars, quote, List.cons_append, List.append_assoc, List.nil_append]
      refine readFields?_last hread ?_
      rw [readValue?_blank hgap]
      exact hv.reads _ _ _ (by omega) hfirst (delimited_cons (by decide) rest)
    | cons e r =>
      obtain ⟨pieces, hpieces, hread⟩ := exists_readPieces? knows_escaped k.toList
        (':' :: (gap ++ (valueChars g gap v ++ ',' :: (gap ++ (fieldsChars g gap (e :: r) ++ rest)))))
      simp only [fieldsChars_cons_cons, quote, List.length_append, List.length_cons, List.length_nil] at hfuel
      obtain ⟨fuel, rfl⟩ : ∃ n, fuel = n + 1 := ⟨fuel - 1, by omega⟩
      obtain ⟨fs, hfs, hnames⟩ := ih (List.cons_ne_nil _ _) hr fuel (by omega) hothers
      refine ⟨(pieces, v.document) :: fs, ?_, ?_⟩
      · simp only [fieldsChars_cons_cons, quote, List.cons_append, List.append_assoc, List.nil_append]
        refine readFields?_more hread ?_ ((readFields?_blank hgap _ _ _).trans hfs)
        rw [readValue?_blank hgap]
        exact hv.reads _ _ _ (by omega) hfirst (delimited_cons (by decide) _)
      · simp only [List.mapM_cons, hnames, hname pieces hpieces]
        rfl

theorem readValue?_list {fuel depth : Nat} {c : Char} {cs t : List Char} {ds : List Document}
    (hblank : isBlank c = false) (hc : c ≠ ']') (h : readItems? g fuel depth (c :: cs) = some (ds, t)) :
    readValue? g (fuel + 1) depth ('[' :: c :: cs) = some (listOf g depth ds, t) := by
  rw [readValue?, skip_cons (by decide)]
  simp only [skip_cons hblank]
  split
  · next heq => exact absurd (List.cons.inj heq).1 hc
  · rw [h]
    rfl

theorem readValue?_record {fuel depth : Nat} {cs t : List Char} {fs : List (List Piece × Document)}
    (h : readFields? g fuel depth ('"' :: cs) = some (fs, t)) :
    readValue? g (fuel + 1) depth ('\x7b' :: '"' :: cs) = some (recordOf g depth fs, t) := by
  rw [readValue?, skip_cons (by decide)]
  simp only [skip_cons (c := '"') (by decide)]
  split
  · next heq => exact absurd (List.cons.inj heq).1 (by decide)
  · rw [h]
    rfl

theorem reads_list (hgap : ∀ c ∈ gap, isBlank c = true) {items : List Value}
    (hreads : ∀ v ∈ items, Reads g gap v) : Reads g gap (.list items) := by
  refine ⟨⟨'[', _, rfl, by decide, by decide⟩, ?_⟩
  intro fuel depth rest hfuel hheight _
  rw [valueChars, List.length_cons] at hfuel
  obtain ⟨fuel, rfl⟩ : ∃ n, fuel = n + 1 := ⟨fuel - 1, by omega⟩
  have hlimit : g.Holds depth (Document.heightItems (Value.documentItems items) + 1) := hheight
  have heach := Value.height_list_le_iff.1 (Nat.le_refl (Value.document (.list items)).height)
  have hlist : listOf g depth (items.map Value.document) = Value.document (.list items) := by
    rw [listOf, if_pos hlimit.admits, Value.document, Value.documentItems_eq_map]
  cases items with
  | nil =>
    rw [valueChars, itemsChars, List.cons_append, readValue?, skip_cons (by decide), ← hlist]
    rfl
  | cons v r =>
    obtain ⟨c, cs, heq, hblank, hc⟩ : ∃ c cs, itemsChars g gap (v :: r) ++ rest = c :: cs ∧
        isBlank c = false ∧ c ≠ ']' := by
      obtain ⟨c, cs, heq, hc⟩ := (hreads v List.mem_cons_self).opens
      cases r with
      | nil => exact ⟨c, _, by rw [itemsChars, heq]; rfl, hc⟩
      | cons w r => exact ⟨c, _, by rw [itemsChars_cons_cons, heq]; rfl, hc⟩
    have hitems := readItems?_itemsChars hgap (List.cons_ne_nil v r) hreads fuel depth (by omega)
      (fun w hw => hlimit.part (heach w hw)) rest
    rw [heq] at hitems
    rw [valueChars, List.cons_append, heq, readValue?_list hblank hc hitems, hlist]

theorem reads_record (hgap : ∀ c ∈ gap, isBlank c = true) {fields : List (String × Value)}
    (hreads : ∀ e ∈ fields, Reads g gap e.2) : Reads g gap (.record fields) := by
  refine ⟨⟨'\x7b', _, rfl, by decide, by decide⟩, ?_⟩
  intro fuel depth rest hfuel hheight _
  rw [valueChars, List.length_cons] at hfuel
  obtain ⟨fuel, rfl⟩ : ∃ n, fuel = n + 1 := ⟨fuel - 1, by omega⟩
  have hlimit : g.Holds depth (Document.heightFields (Value.documentFields fields) + 1) := hheight
  have heach := Value.height_record_le_iff.1 (Nat.le_refl (Value.document (.record fields)).height)
  have hrecord : ∀ fs : List (List Piece × Document),
      (fs.mapM fun (k, d) => (characters? k).map fun cs => (String.ofList cs, d)) =
        some (fields.map fun e => (e.1, e.2.document)) →
      recordOf g depth fs = Value.document (.record fields) := by
    intro fs hnames
    simp only [recordOf, hnames, if_pos hlimit.admits, Value.document, Value.documentFields_eq_map]
  cases fields with
  | nil =>
    rw [valueChars, fieldsChars, List.cons_append, readValue?, skip_cons (by decide), ← hrecord [] rfl]
    rfl
  | cons e r =>
    obtain ⟨cs, heq⟩ : ∃ cs, fieldsChars g gap (e :: r) ++ rest = '"' :: cs := by
      cases r with
      | nil => exact ⟨_, rfl⟩
      | cons f r => exact ⟨_, rfl⟩
    obtain ⟨fs, hfields, hnames⟩ := readFields?_fieldsChars hgap (List.cons_ne_nil e r) hreads fuel depth
      (by omega) (fun f hf => hlimit.part (heach f hf)) rest
    rw [heq] at hfields
    rw [valueChars, List.cons_append, heq, readValue?_record hfields, hrecord fs hnames]

/-- A value of whole numbers is read from its text, whatever mark follows. -/
theorem reads (hg : g.Legible) (hgap : ∀ c ∈ gap, isBlank c = true) {v : Value}
    (hwhole : v.document.whole = true) : Reads g gap v := by
  induction v using Value.induct with
  | null => exact reads_word (v := .null) hg (by simp [valueChars, Dialect.words]) readWord?_null
  | bool b =>
    refine reads_word (v := .bool b) hg ?_ (readWord?_bool hg b)
    cases b <;> simp [valueChars, Dialect.words, Dialect.boolWord]
  | number n => exact reads_number hg hwhole
  | text s => exact reads_text s
  | list items ih =>
    exact reads_list hgap fun v hv => ih v hv (Value.whole_list_iff.1 hwhole v hv)
  | record fields ih =>
    exact reads_record hgap fun e he => ih e he (Value.whole_record_iff.1 hwhole e he)

/-- The text of a value of whole numbers, nested within the limit, is the text of its document. -/
theorem readAs?_valueChars (hg : g.Legible) (hgap : ∀ c ∈ gap, isBlank c = true) {v : Value}
    (hwhole : v.document.whole = true) (hheight : g.Holds 0 v.document.height) :
    readAs? g (String.ofList (valueChars g gap v)) = some v.document := by
  have hread := (reads hg hgap hwhole).reads (2 * (valueChars g gap v).length + 2) 0 [] (by omega) hheight
    delimited_nil
  rw [List.append_nil] at hread
  simp only [readAs?, String.toList_ofList, hread]
  rfl

end

section

variable {g : Dialect} {gap : List Char}

theorem toNat_of_isAlpha {c : Char} (h : c.isAlpha = true) : 0x20 ≤ c.toNat := by
  by_contra hlow
  have hnone : ∀ n < 0x20, (Char.ofNat n).isAlpha = false := by decide
  have := hnone c.toNat (by omega)
  rw [Char.ofNat_toNat, h] at this
  exact nomatch this

theorem toNat_of_mem_words (hg : g.Legible) {w : List Char} (hw : w ∈ g.words) {c : Char} (hc : c ∈ w) :
    0x20 ≤ c.toNat :=
  toNat_of_isAlpha (List.all_eq_true.1 (hg.letters w hw) c hc)

theorem toNat_of_mem_itemsChars (hgap : ∀ c ∈ gap, 0x20 ≤ c.toNat) {items : List Value}
    (h : ∀ v ∈ items, ∀ c ∈ valueChars g gap v, 0x20 ≤ c.toNat) :
    ∀ c ∈ itemsChars g gap items, 0x20 ≤ c.toNat := by
  induction items with
  | nil =>
    rw [itemsChars]
    exact List.forall_mem_singleton.2 (by decide)
  | cons v r ih =>
    obtain ⟨hv, hr⟩ := List.forall_mem_cons.1 h
    cases r with
    | nil =>
      rw [itemsChars, List.forall_mem_append]
      exact ⟨hv, List.forall_mem_singleton.2 (by decide)⟩
    | cons w r =>
      rw [itemsChars_cons_cons, List.forall_mem_append, List.forall_mem_cons, List.forall_mem_append]
      exact ⟨hv, by decide, hgap, ih hr⟩

theorem toNat_of_mem_fieldsChars (hgap : ∀ c ∈ gap, 0x20 ≤ c.toNat) {fields : List (String × Value)}
    (h : ∀ e ∈ fields, ∀ c ∈ valueChars g gap e.2, 0x20 ≤ c.toNat) :
    ∀ c ∈ fieldsChars g gap fields, 0x20 ≤ c.toNat := by
  induction fields with
  | nil =>
    rw [fieldsChars]
    exact List.forall_mem_singleton.2 (by decide)
  | cons e r ih =>
    obtain ⟨k, v⟩ := e
    obtain ⟨hv, hr⟩ : (∀ c ∈ valueChars g gap v, 0x20 ≤ c.toNat) ∧ _ := List.forall_mem_cons.1 h
    have hname : ∀ c ∈ quote k.toList, 0x20 ≤ c.toNat := fun _ => toNat_of_mem_quote
    cases r with
    | nil =>
      simp only [fieldsChars, List.forall_mem_append, List.forall_mem_cons]
      exact ⟨hname, by decide, ⟨hgap, hv⟩, by decide, by simp⟩
    | cons f r =>
      simp only [fieldsChars_cons_cons, List.forall_mem_append, List.forall_mem_cons]
      exact ⟨hname, by decide, ⟨hgap, hv⟩, by decide, hgap, ih hr⟩

/-- The text of a value of whole numbers has no character below the blank. -/
theorem toNat_of_mem_valueChars (hg : g.Legible) (hgap : ∀ c ∈ gap, 0x20 ≤ c.toNat) {v : Value}
    (hwhole : v.document.whole = true) : ∀ c ∈ valueChars g gap v, 0x20 ≤ c.toNat := by
  induction v using Value.induct with
  | null => exact fun c => toNat_of_mem_words hg (by simp [valueChars, Dialect.words])
  | bool b =>
    refine fun c => toNat_of_mem_words hg ?_
    cases b <;> simp [valueChars, Dialect.words, Dialect.boolWord]
  | number n =>
    intro c hc
    rcases mem_numberText hwhole hc with hdigit | rfl | rfl
    · have := toNat_of_isDigit hdigit
      omega
    · decide
    · decide
  | text s => exact fun c => toNat_of_mem_quote
  | list items ih =>
    rw [valueChars, List.forall_mem_cons]
    exact ⟨by decide, toNat_of_mem_itemsChars hgap fun v hv => ih v hv (Value.whole_list_iff.1 hwhole v hv)⟩
  | record fields ih =>
    rw [valueChars, List.forall_mem_cons]
    exact ⟨by decide,
      toNat_of_mem_fieldsChars hgap fun e he => ih e he (Value.whole_record_iff.1 hwhole e he)⟩

end

/-- The compact text of a value of whole numbers, nested at most 127 deep, is read as its document. -/
theorem read?_compact {v : Value} (hwhole : v.document.whole = true) (hheight : v.document.height ≤ 127) :
    read? (compact v) = some v.document :=
  readAs?_valueChars Dialect.standard_legible (by simp) hwhole (by rintro _ ⟨⟩; omega)

end WrapperGen.Json
