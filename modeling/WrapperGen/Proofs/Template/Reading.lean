import WrapperGen.Template.Reader

/-!
# Reading line by line

Lines that can be read on their own are read the same among others, and between the lines of a block's two
tags they are its body: of a line with nothing but such a tag neither the blanks nor the end are left. A line
without tags is read as its own text.
-/

namespace WrapperGen.Template

variable {met cs rest before after inside : List Char} {t : Token}

theorem scanText?_cons {c : Char} (hc : c ≠ '\x7b') : scanText? met (c :: rest) = scanText? (c :: met) rest :=
  scanText?.eq_2 met c rest fun _ h _ => hc h

theorem scanTag?_cons {c : Char} (hc : c ≠ '\x7d') : scanTag? met (c :: rest) = scanTag? (c :: met) rest :=
  scanTag?.eq_2 met c rest fun _ h _ => hc h

theorem scanText?_append (hcs : '\x7b' ∉ cs) :
    scanText? met (cs ++ rest) = scanText? (cs.reverse ++ met) rest := by
  induction cs generalizing met with
  | nil => rfl
  | cons c cs ih =>
    rw [List.mem_cons, not_or] at hcs
    rw [List.cons_append, scanText?_cons (Ne.symm hcs.1), ih hcs.2, List.reverse_cons, List.append_assoc,
      List.singleton_append]

theorem scanTag?_append (hcs : '\x7d' ∉ cs) :
    scanTag? met (cs ++ rest) = scanTag? (cs.reverse ++ met) rest := by
  induction cs generalizing met with
  | nil => rfl
  | cons c cs ih =>
    rw [List.mem_cons, not_or] at hcs
    rw [List.cons_append, scanTag?_cons (Ne.symm hcs.1), ih hcs.2, List.reverse_cons, List.append_assoc,
      List.singleton_append]

/-- Text without braces is one token. -/
theorem scanText?_plain (hcs : '\x7b' ∉ cs) : scanText? [] cs = some (textOf cs) := by
  rw [← List.append_nil cs, scanText?_append hcs, scanText?, List.append_nil, List.reverse_reverse,
    List.append_nil]

/-- A tag is what stands between its braces. -/
theorem scanText?_tag (hbefore : '\x7b' ∉ before) (hinside : '\x7d' ∉ inside) (htag : tag? inside = some t) :
    scanText? [] (before ++ '\x7b' :: '\x7b' :: (inside ++ '\x7d' :: '\x7d' :: after)) =
      (scanText? [] after).map fun tokens => textOf before ++ t :: tokens := by
  rw [scanText?_append hbefore, List.append_nil, scanText?, List.reverse_reverse, scanTag?_append hinside,
    List.append_nil, scanTag?, List.reverse_reverse, htag]
  cases scanText? [] after <;> rfl

/-- A line without braces is kept with its end. -/
theorem lineTokens?_plain (hcs : '\x7b' ∉ cs) :
    lineTokens? cs = some [.text (String.ofList (cs ++ ['\n']))] := by
  have hline : '\x7b' ∉ cs ++ ['\n'] := by simp [hcs]
  rw [lineTokens?, scanText?_plain hline, textOf, if_neg (by simp)]
  rfl

theorem filter_isBlock_textOf (cs : List Char) : (textOf cs).filter Token.isBlock = [] := by
  unfold textOf
  split <;> rfl

theorem isBlank_of_mem_textOf (hcs : ∀ c ∈ cs, c = ' ' ∨ c = '\t' ∨ c = '\n') (ht : t ∈ textOf cs) :
    t.isBlank = true := by
  unfold textOf at ht
  split at ht
  · exact nomatch ht
  · obtain rfl := List.mem_singleton.1 ht
    simpa [Token.isBlank, or_assoc] using hcs

theorem lineTokens?_tagged (hbefore : '\x7b' ∉ before) (hinside : '\x7d' ∉ inside) (hafter : '\x7b' ∉ after)
    (htag : tag? inside = some t) :
    lineTokens? (before ++ '\x7b' :: '\x7b' :: (inside ++ '\x7d' :: '\x7d' :: after)) =
      some (alone (textOf before ++ t :: textOf (after ++ ['\n']))) := by
  have hend : '\x7b' ∉ after ++ ['\n'] := by simp [hafter]
  rw [lineTokens?, List.append_assoc, List.cons_append, List.cons_append, List.append_assoc, List.cons_append,
    List.cons_append, scanText?_tag hbefore hinside htag, scanText?_plain hend]
  rfl

/-- Of a line with nothing but the tag of a block, only the tag is left. -/
theorem lineTokens?_block (hbefore : ∀ c ∈ before, c = ' ' ∨ c = '\t')
    (hafter : ∀ c ∈ after, c = ' ' ∨ c = '\t') (hinside : '\x7d' ∉ inside) (htag : tag? inside = some t)
    (hblock : t.isBlock = true) :
    lineTokens? (before ++ '\x7b' :: '\x7b' :: (inside ++ '\x7d' :: '\x7d' :: after)) = some [t] := by
  -- Around the tag there are blanks and the line end, which make no tag and show nothing.
  have hend : ∀ c ∈ after ++ ['\n'], c = ' ' ∨ c = '\t' ∨ c = '\n' := by
    intro c hc
    rcases List.mem_append.1 hc with hc | hc
    · exact (hafter c hc).imp_right .inl
    · exact .inr (.inr (List.mem_singleton.1 hc))
  have hfilter : (textOf before ++ t :: textOf (after ++ ['\n'])).filter Token.isBlock = [t] := by
    rw [List.filter_append, List.filter_cons_of_pos hblock, filter_isBlock_textOf, filter_isBlock_textOf,
      List.nil_append]
  have hall : ∀ u ∈ textOf before ++ t :: textOf (after ++ ['\n']), (u.isBlock || u.isBlank) = true := by
    intro u hu
    rw [Bool.or_eq_true]
    rcases List.mem_append.1 hu with hu | hu
    · exact .inr (isBlank_of_mem_textOf (fun c hc => (hbefore c hc).imp_right .inl) hu)
    · rcases List.mem_cons.1 hu with rfl | hu
      · exact .inl hblock
      · exact .inr (isBlank_of_mem_textOf hend hu)
  rw [lineTokens?_tagged (fun h => by simpa using hbefore _ h) hinside (fun h => by simpa using hafter _ h)
    htag, alone, hfilter]
  exact congrArg some (if_pos (List.all_eq_true.2 hall))

/-- A line in which something is printed is kept with its end. -/
theorem lineTokens?_print {path : List String} (hbefore : '\x7b' ∉ before) (hinside : '\x7d' ∉ inside)
    (hafter : '\x7b' ∉ after) (htag : tag? inside = some (.print path)) :
    lineTokens? (before ++ '\x7b' :: '\x7b' :: (inside ++ '\x7d' :: '\x7d' :: after)) =
      some (textOf before ++ .print path :: textOf (after ++ ['\n'])) := by
  have hfilter : (textOf before ++ .print path :: textOf (after ++ ['\n'])).filter Token.isBlock = [] := by
    rw [List.filter_append, List.filter_cons_of_neg (by simp [Token.isBlock]), filter_isBlock_textOf,
      filter_isBlock_textOf, List.append_nil]
  rw [lineTokens?_tagged hbefore hinside hafter htag, alone, hfilter]

theorem toList_tag (before inside after : String) : (before ++ tag inside ++ after).toList =
    before.toList ++ '\x7b' :: '\x7b' :: (inside.toList ++ '\x7d' :: '\x7d' :: after.toList) := by
  simp [tag]

theorem lineTokens?_tag {inside : String} (hinside : '\x7d' ∉ inside.toList)
    (htag : tag? inside.toList = some t) (hblock : t.isBlock = true) :
    lineTokens? (tag inside).toList = some [t] := by
  have hline := toList_tag "" inside ""
  rw [String.empty_append, String.append_empty] at hline
  rw [hline]
  exact lineTokens?_block (by simp) (by simp) hinside htag hblock

/-! ### Parts -/

variable {lines more : List String} {parts rest : List Part} {outer : List Started} {tokens : List Token}

theorem tokensOf_append (parts rest : List Part) :
    tokensOf (parts ++ rest) = tokensOf parts ++ tokensOf rest := by
  induction parts with
  | nil => rfl
  | cons p parts ih => rw [List.cons_append, tokensOf, tokensOf, ih, List.append_assoc]

theorem tokensOf_singleton (p : Part) : tokensOf [p] = partTokens p := by
  rw [tokensOf, tokensOf, List.append_nil]

theorem partTokens_part (block : Block) (path : List String) (body : List Part) :
    partTokens (block.part path body) = .start block path :: (tokensOf body ++ [.stop block]) := by
  cases block <;> rw [Block.part, partTokens]

/-- The tokens of what stands before the innermost of the blocks that were started, and their starts. -/
def startedTokens : List Started → List Token
  | [] => []
  | b :: outer => startedTokens outer ++ tokensOf b.before ++ [.start b.block b.path]

/-- Parts are made of no other tokens than their own. -/
theorem tokensOf_of_nest? {result : List Part} (h : nest? outer parts tokens = some result) :
    startedTokens outer ++ tokensOf parts ++ tokens = tokensOf result := by
  -- Over the tokens that are left. What was read so far is the started blocks and the parts after them.
  induction tokens generalizing outer parts with
  | nil =>
    cases outer with
    | nil =>
      rw [nest?] at h
      obtain rfl := Option.some.inj h
      rw [startedTokens, List.nil_append, List.append_nil]
    | cons b outer => exact nomatch h
  | cons t tokens ih =>
    cases t with
    | text s =>
      rw [← ih (by rwa [nest?] at h), tokensOf_append, tokensOf_singleton, partTokens]
      simp
    | print path =>
      rw [← ih (by rwa [nest?] at h), tokensOf_append, tokensOf_singleton, partTokens]
      simp
    | start block path =>
      rw [← ih (by rwa [nest?] at h), startedTokens, tokensOf]
      simp
    | stop block =>
      -- The innermost block becomes a part of what it stands in.
      cases outer with
      | nil => exact nomatch h
      | cons b outer =>
        rw [nest?, Option.ite_none_right_eq_some] at h
        obtain ⟨rfl, h⟩ := h
        rw [← ih h, startedTokens, tokensOf_append, tokensOf_singleton, partTokens_part]
        simp

/-- Lines are read as the parts whose tokens they have. -/
theorem read?_eq_some_iff :
    read? lines = some parts ↔ tokens? (lines.map String.toList) = some (tokensOf parts) := by
  refine ⟨fun h => ?_, read?_of_tokens⟩
  obtain ⟨tokens, htokens, hnest⟩ := Option.bind_eq_some_iff.1 h
  rw [htokens, ← tokensOf_of_nest? hnest]
  rfl

theorem tokens?_append (css dss : List (List Char)) :
    tokens? (css ++ dss) = do return (← tokens? css) ++ (← tokens? dss) := by
  induction css with
  | nil => simp [tokens?]
  | cons cs css ih =>
    rw [List.cons_append, tokens?, tokens?, ih]
    cases lineTokens? cs <;> cases tokens? css <;> cases tokens? dss <;> simp

/-- Lines that can be read on their own are read the same one after the other. -/
theorem read?_append (h : read? lines = some parts) (hmore : read? more = some rest) :
    read? (lines ++ more) = some (parts ++ rest) := by
  rw [read?_eq_some_iff] at h hmore ⊢
  rw [List.map_append, tokens?_append, h, hmore, tokensOf_append]
  rfl

theorem read?_plain {line : String} (hline : '\x7b' ∉ line.toList) :
    read? [line] = some [.text (line ++ "\n")] := by
  have htext : String.ofList (line.toList ++ ['\n']) = line ++ "\n" := by
    rw [String.ofList_append, String.ofList_toList]
  rw [read?_eq_some_iff, List.map_singleton, tokens?, tokens?, lineTokens?_plain hline, htext,
    tokensOf_singleton, partTokens]
  rfl

theorem read?_print {before inside after : String} {path : List String} (hne : before ≠ "")
    (hbefore : '\x7b' ∉ before.toList) (hinside : '\x7d' ∉ inside.toList) (hafter : '\x7b' ∉ after.toList)
    (htag : tag? inside.toList = some (.print path)) :
    read? [before ++ tag inside ++ after] = some [.text before, .print path, .text (after ++ "\n")] := by
  have htext : textOf before.toList = [.text before] := by
    rw [textOf, if_neg (by simpa using hne), String.ofList_toList]
  have hend : textOf (after.toList ++ ['\n']) = [.text (after ++ "\n")] := by
    rw [textOf, if_neg (by simp), String.ofList_append, String.ofList_toList]
  rw [read?_eq_some_iff, List.map_singleton, tokens?, tokens?, toList_tag,
    lineTokens?_print hbefore hinside hafter htag, htext, hend]
  rfl

/-- Lines that can be read on their own are the body of a block between lines with nothing but its tags. Of
these two lines nothing else is left. -/
theorem read?_block {block : Block} {path : List String} {start stop : String}
    (hstart : lineTokens? start.toList = some [.start block path])
    (hstop : lineTokens? stop.toList = some [.stop block]) (hbody : read? lines = some parts) :
    read? ([start] ++ lines ++ [stop]) = some [block.part path parts] := by
  rw [read?_eq_some_iff] at hbody ⊢
  rw [List.map_append, List.map_append, tokens?_append, tokens?_append, hbody]
  simp [tokens?, hstart, hstop, tokensOf_singleton, partTokens_part]

end WrapperGen.Template
