/-!
# Beginnings and ends of texts

Tests and cuts at either end of a text, stated on lists of characters.
-/

namespace WrapperGen.Text

/-- What follows a beginning. -/
def dropPrefix? : List Char → List Char → Option (List Char)
  | [], cs => some cs
  | p :: ps, c :: cs => if p = c then dropPrefix? ps cs else none
  | _ :: _, [] => none

/-- What stands before an end. -/
def dropSuffix? (suffix cs : List Char) : Option (List Char) :=
  (dropPrefix? suffix.reverse cs.reverse).map List.reverse

theorem dropPrefix?_eq_some_iff (ps cs rest : List Char) :
    dropPrefix? ps cs = some rest ↔ cs = ps ++ rest := by
  induction ps generalizing cs with
  | nil => simp [dropPrefix?]
  | cons p ps ih =>
    cases cs with
    | nil => simp [dropPrefix?]
    | cons c cs =>
      by_cases h : p = c
      · simp [dropPrefix?, h, ih]
      · have h' : ¬ c = p := fun e => h e.symm
        simp [dropPrefix?, h, h']

theorem dropSuffix?_eq_some_iff (suffix cs rest : List Char) :
    dropSuffix? suffix cs = some rest ↔ cs = rest ++ suffix := by
  simp only [dropSuffix?, Option.map_eq_some_iff, dropPrefix?_eq_some_iff]
  constructor
  · rintro ⟨r, h, rfl⟩
    simpa using congrArg List.reverse h
  · rintro rfl
    exact ⟨rest.reverse, by simp, by simp⟩

def startsWith (beginning s : String) : Bool := (dropPrefix? beginning.toList s.toList).isSome

def endsWith (ending s : String) : Bool := (dropSuffix? ending.toList s.toList).isSome

/-- The text before an end. -/
def beforeEnd? (ending s : String) : Option String :=
  (dropSuffix? ending.toList s.toList).map String.ofList

/-- The text after a beginning. -/
def afterStart? (beginning s : String) : Option String :=
  (dropPrefix? beginning.toList s.toList).map String.ofList

theorem beforeEnd?_eq_some_iff (ending s rest : String) :
    beforeEnd? ending s = some rest ↔ s = rest ++ ending := by
  simp only [beforeEnd?, Option.map_eq_some_iff, dropSuffix?_eq_some_iff]
  constructor
  · rintro ⟨r, h, rfl⟩
    rw [← String.toList_inj]
    simpa using h
  · rintro rfl
    exact ⟨rest.toList, by simp, by simp⟩

theorem afterStart?_eq_some_iff (beginning s rest : String) :
    afterStart? beginning s = some rest ↔ s = beginning ++ rest := by
  simp only [afterStart?, Option.map_eq_some_iff, dropPrefix?_eq_some_iff]
  constructor
  · rintro ⟨r, h, rfl⟩
    rw [← String.toList_inj]
    simpa using h
  · rintro rfl
    exact ⟨rest.toList, by simp, by simp⟩

theorem startsWith_iff {beginning s : String} :
    startsWith beginning s = true ↔ ∃ rest, s = beginning ++ rest := by
  rw [startsWith, ← Option.isSome_map (f := String.ofList), Option.isSome_iff_exists]
  exact exists_congr (afterStart?_eq_some_iff beginning s)

theorem endsWith_iff {ending s : String} :
    endsWith ending s = true ↔ ∃ rest, s = rest ++ ending := by
  rw [endsWith, ← Option.isSome_map (f := String.ofList), Option.isSome_iff_exists]
  exact exists_congr (beforeEnd?_eq_some_iff ending s)

/-- The pieces of a text between the occurrences of a character. -/
def pieces (c : Char) (s : String) : List String := (s.toList.splitOn c).map String.ofList

theorem pieces_ne_nil (c : Char) (s : String) : pieces c s ≠ [] := by
  simp [pieces, List.splitOn_ne_nil]

theorem pieces_eq_singleton {c : Char} {s : String} (h : c ∉ s.toList) : pieces c s = [s] := by
  simp [pieces, List.splitOn_eq_singleton h]

theorem pieces_append {c : Char} {sep : String} (hsep : sep.toList = [c]) (s t : String) :
    pieces c (s ++ sep ++ t) = pieces c s ++ pieces c t := by
  simp [pieces, hsep, List.splitOn_append_cons_self]

/-- A text is its pieces put together again. -/
theorem intercalate_pieces {c : Char} {sep : String} (hsep : sep.toList = [c]) (s : String) :
    sep.intercalate (pieces c s) = s := by
  rw [← String.toList_inj, String.toList_intercalate, hsep, pieces, List.map_map]
  have hid : (String.toList ∘ String.ofList) = id := funext fun cs => by simp
  rw [hid, List.map_id, List.intercalate_splitOn]

/-- Texts without a character are the pieces of what they make when it stands between them. -/
theorem pieces_intercalate {c : Char} {sep : String} (hsep : sep.toList = [c]) {names : List String}
    (hne : names ≠ []) (h : ∀ n ∈ names, c ∉ n.toList) : pieces c (sep.intercalate names) = names := by
  have hsplit : ∀ cs ∈ names.map String.toList, c ∉ cs := by simpa using h
  rw [pieces, String.toList_intercalate, hsep,
    List.splitOn_intercalate c hsplit (by simpa using hne), List.map_map]
  have hid : (String.ofList ∘ String.toList) = id := funext fun s => by simp
  rw [hid, List.map_id]

theorem not_mem_of_mem_splitOn {c : Char} {cs piece : List Char} (h : piece ∈ cs.splitOn c) :
    c ∉ piece := by
  induction cs generalizing piece with
  | nil => simp_all
  | cons d cs ih =>
    rw [List.splitOn_cons_eq_if_modifyHead] at h
    split at h
    · rcases List.mem_cons.1 h with rfl | h
      · simp
      · exact ih h
    · next hd =>
      obtain ⟨first, rest, hsplit⟩ := List.exists_cons_of_ne_nil (List.splitOn_ne_nil c cs)
      rw [hsplit, List.modifyHead_cons] at h
      rcases List.mem_cons.1 h with rfl | h
      · have hfirst := ih (hsplit ▸ List.mem_cons_self)
        rw [List.mem_cons, not_or]
        exact ⟨fun hcd => hd (by simp [hcd]), hfirst⟩
      · exact ih (hsplit ▸ List.mem_cons_of_mem _ h)

/-- The characters of a text besides the separators are those of its pieces. -/
theorem mem_iff_exists_mem_splitOn {c d : Char} (hd : d ≠ c) (cs : List Char) :
    d ∈ cs ↔ ∃ piece ∈ cs.splitOn c, d ∈ piece := by
  induction cs with
  | nil => simp
  | cons e cs ih =>
    rw [List.splitOn_cons_eq_if_modifyHead, List.mem_cons, ih]
    split
    · next he =>
      have hde : d ≠ e := by simpa [beq_iff_eq.1 he] using hd
      simp [hde]
    · obtain ⟨first, rest, hsplit⟩ := List.exists_cons_of_ne_nil (List.splitOn_ne_nil c cs)
      simp [hsplit, or_assoc]

theorem not_mem_of_mem_pieces {c : Char} {s piece : String} (h : piece ∈ pieces c s) :
    c ∉ piece.toList := by
  obtain ⟨cs, hcs, rfl⟩ := List.mem_map.1 h
  simpa using not_mem_of_mem_splitOn hcs

theorem splitOn_append_plain {c : Char} (cs : List Char) {ending : List Char} (h : c ∉ ending) :
    ∃ before x, cs.splitOn c = before ++ [x] ∧ (cs ++ ending).splitOn c = before ++ [x ++ ending] := by
  induction cs with
  | nil => exact ⟨[], [], by simp, by simpa using List.splitOn_eq_singleton h⟩
  | cons d cs ih =>
    obtain ⟨before, x, hcs, hsplit⟩ := ih
    rw [List.cons_append, List.splitOn_cons_eq_if_modifyHead, List.splitOn_cons_eq_if_modifyHead, hcs,
      hsplit]
    by_cases hd : d = c
    · exact ⟨[] :: before, x, by simp [hd], by simp [hd]⟩
    · cases before with
      | nil => exact ⟨[], d :: x, by simp [hd], by simp [hd]⟩
      | cons first before => exact ⟨(d :: first) :: before, x, by simp [hd], by simp [hd]⟩

/-- An ending in which nothing is separated ends the last piece. -/
theorem pieces_append_plain {c : Char} (s : String) {ending : String} (h : c ∉ ending.toList) :
    ∃ before x, pieces c s = before ++ [x] ∧ pieces c (s ++ ending) = before ++ [x ++ ending] := by
  obtain ⟨before, x, hs, hsplit⟩ := splitOn_append_plain s.toList h
  refine ⟨before.map String.ofList, String.ofList x, ?_, ?_⟩
  · rw [pieces, hs, List.map_append, List.map_singleton]
  · rw [pieces, String.toList_append, hsplit, List.map_append, List.map_singleton,
      String.ofList_append, String.ofList_toList]

/-- A separator at either end of a text makes an empty piece. -/
theorem empty_mem_pieces {c : Char} {sep s : String} (hsep : sep.toList = [c])
    (h : startsWith sep s = true ∨ endsWith sep s = true) : "" ∈ pieces c s ∧ s ≠ "" := by
  have hblank : pieces c "" = [""] := pieces_eq_singleton (by simp)
  have hne : sep ≠ "" := by
    rintro rfl
    simp at hsep
  rcases h with h | h
  · obtain ⟨rest, rfl⟩ := startsWith_iff.1 h
    have hpieces := pieces_append hsep "" rest
    rw [String.empty_append, hblank] at hpieces
    exact ⟨by simp [hpieces], by simp [hne]⟩
  · obtain ⟨start, rfl⟩ := endsWith_iff.1 h
    have hpieces := pieces_append hsep start ""
    rw [String.append_empty, hblank] at hpieces
    exact ⟨by simp [hpieces], by simp [hne]⟩

/-- The pieces of a text begin those of another one exactly if the other text is the same, or goes on after it
with the separator. -/
theorem splitOn_prefix_iff {c : Char} {start cs : List Char} :
    start.splitOn c <+: cs.splitOn c ↔ cs = start ∨ ∃ rest, cs = start ++ c :: rest := by
  have hjoined : [c].intercalate (cs.splitOn c) = cs := List.intercalate_splitOn c
  constructor
  · rintro ⟨more, hmore⟩
    have hpieces : ∀ piece ∈ more, c ∉ piece := fun piece hpiece =>
      not_mem_of_mem_splitOn (hmore ▸ List.mem_append_right _ hpiece)
    by_cases hnil : more = []
    · left
      rw [hnil, List.append_nil] at hmore
      rw [← hjoined, ← hmore, List.intercalate_splitOn]
    · right
      refine ⟨[c].intercalate more, ?_⟩
      have hsplit : (start ++ c :: [c].intercalate more).splitOn c = cs.splitOn c := by
        rw [List.splitOn_append_cons_self, List.splitOn_intercalate c hpieces hnil, hmore]
      rw [← hjoined, ← hsplit, List.intercalate_splitOn]
  · rintro (rfl | ⟨rest, rfl⟩)
    · exact List.prefix_rfl
    · rw [List.splitOn_append_cons_self]
      exact List.prefix_append _ _

/-- The last piece of a text that is cut at a character. -/
def lastPiece (c : Char) (s : String) : String := (pieces c s).getLast?.getD s

/-- The pieces of a text with an ending in which nothing is separated are those of the text, the last one with
the ending. -/
theorem pieces_append_ending {c : Char} (s : String) {ending : String} (h : c ∉ ending.toList) :
    pieces c (s ++ ending) = (pieces c s).dropLast ++ [lastPiece c s ++ ending] := by
  obtain ⟨before, x, hs, hsplit⟩ := pieces_append_plain s h
  rw [hsplit, lastPiece, hs, List.dropLast_concat, List.getLast?_concat, Option.getD_some]

/-- A text is its own last piece if nothing separates it. -/
theorem lastPiece_eq_self_iff {c : Char} {s : String} : lastPiece c s = s ↔ c ∉ s.toList := by
  constructor
  · intro h
    obtain ⟨before, x, hs⟩ := List.eq_nil_or_concat (pieces c s) |>.resolve_left (pieces_ne_nil c s)
    have hlast : lastPiece c s = x := by simp [lastPiece, hs]
    rw [← h, hlast]
    exact not_mem_of_mem_pieces (s := s) (by simp [hs])
  · intro h
    simp [lastPiece, pieces_eq_singleton h]

end WrapperGen.Text
