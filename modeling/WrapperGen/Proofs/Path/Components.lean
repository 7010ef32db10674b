import WrapperGen.FileTree

/-!
# Components of paths

A path is kept as its text, and what it says is its list of components. The components follow from the
pieces of the text. Appending a name appends one component, and the parent of a path that ends in a
name has all components but that one.
-/

namespace WrapperGen

open Entries (isName)

theorem Entries.isName_iff {s : String} :
    isName s = true ↔ s ≠ "" ∧ s ≠ "." ∧ s ≠ ".." ∧ '/' ∉ s.toList := by
  simp [isName, and_assoc]

theorem Entries.isName_append {s t : String} (hs : '/' ∉ s.toList) (ht : '/' ∉ t.toList)
    (hplain : ∃ c ∈ t.toList, c ≠ '.') : isName (s ++ t) = true := by
  obtain ⟨c, hc, hdot⟩ := hplain
  have hmem : c ∈ (s ++ t).toList := by simp [hc]
  refine isName_iff.2 ⟨?_, ?_, ?_, by simp [hs, ht]⟩ <;> intro h <;> simp_all

namespace Component

theorem ofPiece?_eq_none_iff {piece : String} :
    ofPiece? piece = none ↔ Path.isVoid piece = true := by
  unfold ofPiece? Path.isVoid
  by_cases h : piece = "" ∨ piece = "."
  · simp [h]
  · by_cases hup : piece = ".." <;> simp [h, hup]

theorem ofPiece?_of_isName {s : String} (h : isName s = true) : ofPiece? s = some (.name s) := by
  obtain ⟨hempty, hdot, hdots, -⟩ := Entries.isName_iff.1 h
  simp [ofPiece?, hempty, hdot, hdots]

theorem ofPiece?_eq_name {piece : String} (hvoid : Path.isVoid piece = false) (hup : piece ≠ "..") :
    ofPiece? piece = some (.name piece) := by
  have hdots : ¬ (piece = "" ∨ piece = ".") := by simpa [Path.isVoid] using hvoid
  rw [ofPiece?, if_neg hdots, if_neg hup]

theorem filterMap_ofPiece?_names {names : List String} (h : ∀ n ∈ names, isName n = true) :
    names.filterMap ofPiece? = names.map .name := by
  induction names with
  | nil => rfl
  | cons n names ih =>
    have hn := ofPiece?_of_isName (h n List.mem_cons_self)
    simp [hn, ih fun m hm => h m (List.mem_cons_of_mem _ hm)]

theorem ne_lead_of_ofPiece? {piece : String} {c : Component} (h : ofPiece? piece = some c) :
    c ≠ .root ∧ c ≠ .current := by
  unfold ofPiece? at h
  split at h
  · exact nomatch h
  · split at h <;> obtain rfl := Option.some.inj h <;> simp

theorem isName_of_ofPiece? {piece s : String} (h : ofPiece? piece = some (.name s))
    (hslash : '/' ∉ piece.toList) : isName s = true := by
  unfold ofPiece? at h
  split at h
  · exact nomatch h
  · next hvoid =>
    split at h
    · exact nomatch h
    · next hup =>
      obtain rfl : piece = s := by simpa using h
      exact Entries.isName_iff.2 ⟨fun he => hvoid (.inl he), fun he => hvoid (.inr he), hup, hslash⟩

end Component

namespace Path

theorem sep_toList : "/".toList = ['/'] := rfl

/-- What a path begins with before its names, by its first piece and the others. -/
def leadOf (first : String) (rest : List String) : List Component :=
  if first = "" ∧ rest ≠ [] then [.root] else if first = "." then [.current] else []

theorem isAbsolute_iff {p : Path} {first : String} {rest : List String}
    (h : p.pieces = first :: rest) : p.isAbsolute = true ↔ first = "" ∧ rest ≠ [] := by
  rw [pieces, Text.pieces] at h
  unfold isAbsolute
  cases hchars : p.text.toList with
  | nil =>
    obtain ⟨rfl, rfl⟩ : "" = first ∧ [] = rest := by simpa [hchars] using h
    simp
  | cons c cs =>
    obtain ⟨piece, others, hsplit⟩ := List.exists_cons_of_ne_nil (List.splitOn_ne_nil '/' cs)
    rw [hchars, List.splitOn_cons_eq_if_modifyHead, hsplit] at h
    by_cases hc : c = '/'
    · obtain ⟨rfl, rfl⟩ : "" = first ∧ _ = rest := by simpa [hc] using h
      simp [hc]
    · obtain ⟨rfl, -⟩ : String.ofList (c :: piece) = first ∧ _ = rest := by simpa [hc] using h
      simp [hc]

theorem components_of_pieces {p : Path} {first : String} {rest : List String}
    (h : p.pieces = first :: rest) :
    p.components = leadOf first rest ++ (first :: rest).filterMap Component.ofPiece? := by
  rw [components, lead?, h]
  simp only [isAbsolute_iff h, leadOf]
  split
  · rfl
  · split <;> rfl

theorem exists_pieces (p : Path) : ∃ first rest, p.pieces = first :: rest :=
  List.exists_cons_of_ne_nil (Text.pieces_ne_nil '/' p.text)

theorem components_of_text_eq_empty {p : Path} (h : p.text = "") : p.components = [] := by
  have hpieces : p.pieces = "" :: [] := by simp [pieces, Text.pieces, h]
  rw [components_of_pieces hpieces]
  simp [leadOf, Component.ofPiece?]

/-- A component that is a name is one that can name an entry. -/
theorem isName_of_mem_components {p : Path} {s : String} (h : .name s ∈ p.components) :
    isName s = true := by
  obtain ⟨first, rest, hpieces⟩ := p.exists_pieces
  rw [components_of_pieces hpieces, List.mem_append] at h
  rcases h with h | h
  · unfold leadOf at h
    split at h
    · simp at h
    · split at h <;> simp at h
  · obtain ⟨piece, hmem, hpiece⟩ := List.mem_filterMap.1 h
    exact Component.isName_of_ofPiece? hpiece (Text.not_mem_of_mem_pieces (hpieces ▸ hmem))

/-- The pieces of a path are those of its beginning, and what is put after it brings its own. -/
theorem pieces_child {p : Path} {name : String} (hp : p.text ≠ "")
    (hrelative : (⟨name⟩ : Path).isAbsolute = false) :
    ∃ before, (p.child name).pieces = before ++ Text.pieces '/' name ∧
      (p.pieces = before ∨ p.pieces = before ++ [""]) ∧ before ≠ [] := by
  by_cases hend : Text.endsWith "/" p.text = true
  · obtain ⟨start, hstart⟩ := Text.endsWith_iff.1 hend
    have hjoin : (p.child name).text = start ++ "/" ++ name := by
      rw [child, join, if_neg (by simp [hrelative, hp]), if_pos hend, hstart]
    refine ⟨Text.pieces '/' start, ?_, .inr ?_, Text.pieces_ne_nil _ _⟩
    · rw [pieces, hjoin, Text.pieces_append sep_toList]
    · have hempty : start ++ "/" = start ++ "/" ++ "" := by simp
      rw [pieces, hstart, hempty, Text.pieces_append sep_toList]
      rfl
  · have hjoin : (p.child name).text = p.text ++ "/" ++ name := by
      simp [child, join, hrelative, hp, hend]
    refine ⟨p.pieces, ?_, .inl rfl, Text.pieces_ne_nil _ _⟩
    rw [pieces, hjoin, Text.pieces_append sep_toList]
    rfl

theorem exists_pieces_child (p : Path) (name : String) :
    ∃ before, (p.child name).pieces = before ++ Text.pieces '/' name := by
  by_cases hreplaced : (⟨name⟩ : Path).isAbsolute = true ∨ p.text = ""
  · exact ⟨[], by rw [child, join, if_pos hreplaced]; rfl⟩
  · rw [not_or, Bool.not_eq_true] at hreplaced
    obtain ⟨before, hpieces, -, -⟩ := pieces_child hreplaced.2 hreplaced.1
    exact ⟨before, hpieces⟩

theorem isAbsolute_of_isName {name : String} (h : isName name = true) :
    (⟨name⟩ : Path).isAbsolute = false := by
  obtain ⟨-, -, -, hslash⟩ := Entries.isName_iff.1 h
  unfold isAbsolute
  cases hchars : name.toList with
  | nil => simp
  | cons c cs =>
    rw [hchars, List.mem_cons, not_or] at hslash
    simpa [eq_comm] using hslash.1

/-- What is appended brings the components of its pieces. -/
theorem components_child_append {p : Path} {name : String} (hp : p.text ≠ "")
    (hrelative : (⟨name⟩ : Path).isAbsolute = false) :
    (p.child name).components =
      p.components ++ (Text.pieces '/' name).filterMap Component.ofPiece? := by
  obtain ⟨before, hchild, hbefore, hne⟩ := pieces_child hp hrelative
  obtain ⟨first, rest, rfl⟩ := List.exists_cons_of_ne_nil hne
  have hmore : rest ++ Text.pieces '/' name ≠ [] := by simp [Text.pieces_ne_nil]
  have hcomponents : p.components =
      leadOf first (rest ++ Text.pieces '/' name) ++
        (first :: rest).filterMap Component.ofPiece? := by
    rcases hbefore with hbefore | hbefore
    · -- An empty piece alone would make the text empty, so the lead stays what it was.
      have hfirst : rest = [] → first ≠ "" := by
        rintro rfl rfl
        have htext := Text.intercalate_pieces sep_toList p.text
        rw [show Text.pieces '/' p.text = [""] from hbefore] at htext
        exact hp (by simpa using htext.symm)
      rw [components_of_pieces hbefore]
      by_cases hrest : rest = []
      · simp [leadOf, hrest, hfirst hrest]
      · simp [leadOf, hrest]
    · have hpieces : p.pieces = first :: (rest ++ [""]) := by simpa using hbefore
      rw [components_of_pieces hpieces, ← List.cons_append, List.filterMap_append]
      simp [leadOf, Component.ofPiece?, hmore]
  have hpieces : (p.child name).pieces = first :: (rest ++ Text.pieces '/' name) := by simpa using hchild
  rw [components_of_pieces hpieces, hcomponents, ← List.cons_append, List.filterMap_append,
    List.append_assoc]

theorem components_of_isName {name : String} (h : isName name = true) :
    (⟨name⟩ : Path).components = [.name name] := by
  obtain ⟨-, hdot, -, hslash⟩ := Entries.isName_iff.1 h
  have hpieces : (⟨name⟩ : Path).pieces = name :: [] := Text.pieces_eq_singleton hslash
  rw [components_of_pieces hpieces]
  simp [leadOf, hdot, Component.ofPiece?_of_isName h]

theorem components_child (p : Path) {name : String} (h : isName name = true) :
    (p.child name).components = p.components ++ [.name name] := by
  by_cases hp : p.text = ""
  · have hchild : p.child name = ⟨name⟩ := by simp [child, join, hp]
    rw [hchild, components_of_isName h, components_of_text_eq_empty hp, List.nil_append]
  · have hslash : '/' ∉ name.toList := (Entries.isName_iff.1 h).2.2.2
    rw [components_child_append hp (isAbsolute_of_isName h), Text.pieces_eq_singleton hslash]
    simp [Component.ofPiece?_of_isName h]

/-- Trimming drops pieces that stand for nothing, and what is left ends in one that does not. -/
theorem trimVoid_spec (pieces : List String) :
    (∃ void, pieces = trimVoid pieces ++ void ∧ ∀ s ∈ void, isVoid s = true) ∧
      ∀ last ∈ (trimVoid pieces).getLast?, isVoid last = false := by
  refine ⟨⟨(pieces.reverse.takeWhile isVoid).reverse, ?_, ?_⟩, ?_⟩
  · rw [trimVoid, ← List.reverse_append, List.takeWhile_append_dropWhile, List.reverse_reverse]
  · intro s hs
    exact List.all_eq_true.1 List.all_takeWhile s (List.mem_reverse.1 hs)
  · intro last hlast
    rw [trimVoid, List.getLast?_reverse] at hlast
    have := List.head?_dropWhile_not isVoid pieces.reverse
    simp_all

theorem prefix_trimVoid (pieces : List String) : trimVoid pieces <+: pieces := by
  obtain ⟨⟨void, hpieces, -⟩, -⟩ := trimVoid_spec pieces
  exact ⟨void, hpieces.symm⟩

theorem filterMap_trimVoid (pieces : List String) :
    (trimVoid pieces).filterMap Component.ofPiece? = pieces.filterMap Component.ofPiece? := by
  obtain ⟨⟨void, hpieces, hvoid⟩, -⟩ := trimVoid_spec pieces
  have hnone : void.filterMap Component.ofPiece? = [] :=
    List.filterMap_eq_nil_iff.2 fun s hs => Component.ofPiece?_eq_none_iff.2 (hvoid s hs)
  conv => rhs; rw [hpieces, List.filterMap_append, hnone, List.append_nil]

theorem not_mem_of_mem_pieces {p : Path} {piece : String} (h : piece ∈ p.pieces) :
    '/' ∉ piece.toList :=
  Text.not_mem_of_mem_pieces h

/-- The pieces of a text with a separator and kept pieces after a beginning. -/
theorem filterMap_pieces_ofPieces {kept : List String} (h : ∀ s ∈ kept, '/' ∉ s.toList) :
    (Text.pieces '/' (ofPieces kept)).filterMap Component.ofPiece? =
      kept.filterMap Component.ofPiece? := by
  by_cases hkept : kept = []
  · subst hkept
    rfl
  · rw [ofPieces, Text.pieces_intercalate sep_toList hkept h]

/-- A path begins at the root, with a dot, or with neither, and is split accordingly. -/
theorem lead?_cases {p : Path} {first : String} {rest : List String} (h : p.pieces = first :: rest) :
    (p.lead? = some .root ∧ p.split = ("/", rest) ∧ first = "" ∧ rest ≠ []) ∨
    (p.lead? = some .current ∧ p.split = (".", "" :: rest) ∧ first = ".") ∨
    (p.lead? = none ∧ p.split = ("", first :: rest) ∧ first ≠ "." ∧ (first = "" → rest = [])) := by
  have habs := isAbsolute_iff h
  rw [split, lead?, h]
  by_cases hroot : first = "" ∧ rest ≠ []
  · exact .inl (by simp [habs.2 hroot, hroot])
  · have hrel : ¬ p.isAbsolute = true := fun ha => hroot (habs.1 ha)
    by_cases hdot : first = "."
    · exact .inr (.inl (by simp [hrel, hdot]))
    · refine .inr (.inr ⟨by simp [hrel, hdot], by simp [hrel, hdot], hdot, fun he => ?_⟩)
      exact Classical.byContradiction fun hrest => hroot ⟨he, hrest⟩

theorem components_eq_split (p : Path) :
    p.components = p.lead?.toList ++ p.split.2.filterMap Component.ofPiece? := by
  obtain ⟨first, rest, hpieces⟩ := p.exists_pieces
  rw [components, hpieces]
  rcases lead?_cases hpieces with ⟨hlead, hsplit, rfl, -⟩ | ⟨hlead, hsplit, rfl⟩ | ⟨hlead, hsplit, -⟩ <;>
    simp [hlead, hsplit, Component.ofPiece?]

/-- The lead of a path, put before some of its first pieces, stays what it is. -/
theorem components_lead_ofPieces {p : Path} {kept : List String} (hbegin : kept <+: p.split.2)
    (hlast : ∀ last ∈ kept.getLast?, isVoid last = false) :
    (⟨p.split.1 ++ ofPieces kept⟩ : Path).components =
      p.lead?.toList ++ kept.filterMap Component.ofPiece? := by
  obtain ⟨first, rest, hpieces⟩ := p.exists_pieces
  have hslash : ∀ s ∈ first :: rest, '/' ∉ s.toList := fun s hs => not_mem_of_mem_pieces (hpieces ▸ hs)
  rcases lead?_cases hpieces with
    ⟨hlead, hsplit, rfl, -⟩ | ⟨hlead, hsplit, rfl⟩ | ⟨hlead, hsplit, hdot, hempty⟩ <;>
    rw [hsplit] at hbegin ⊢ <;> rw [hlead] <;> dsimp only at hbegin ⊢
  · -- The text begins with the separator, which makes an empty piece before those kept.
    have hkept : ∀ s ∈ kept, '/' ∉ s.toList :=
      fun s hs => hslash s (List.mem_cons_of_mem _ (hbegin.subset hs))
    obtain ⟨piece, more, hmore⟩ :=
      List.exists_cons_of_ne_nil (Text.pieces_ne_nil '/' (ofPieces kept))
    have hnew : (⟨"/" ++ ofPieces kept⟩ : Path).pieces = "" :: (piece :: more) := by
      have hempty : "/" ++ ofPieces kept = "" ++ "/" ++ ofPieces kept := by simp
      rw [pieces, hempty, Text.pieces_append sep_toList, ← hmore]
      rfl
    rw [components_of_pieces hnew, ← hmore, List.filterMap_cons, filterMap_pieces_ofPieces hkept]
    simp [leadOf, Text.pieces_ne_nil, Component.ofPiece?]
  · cases kept with
    | nil =>
      have hnew : (⟨"." ++ ofPieces []⟩ : Path).pieces = "." :: [] := rfl
      rw [components_of_pieces hnew]
      rfl
    | cons blank kept =>
      -- A blank piece alone would have been trimmed.
      obtain ⟨rfl, hrest⟩ := List.cons_prefix_cons.1 hbegin
      have hne : kept ≠ [] := by
        rintro rfl
        exact absurd (hlast "" rfl) (by decide)
      have hkept : ∀ s ∈ kept, '/' ∉ s.toList :=
        fun s hs => hslash s (List.mem_cons_of_mem _ (hrest.subset hs))
      have hnew : (⟨"." ++ ofPieces ("" :: kept)⟩ : Path).pieces = "." :: kept := by
        have htext : "." ++ ofPieces ("" :: kept) = "." ++ "/" ++ ofPieces kept := by
          rw [ofPieces, String.intercalate_cons_of_ne_nil hne, String.empty_append,
            ← String.append_assoc]
          rfl
        rw [pieces, htext, Text.pieces_append sep_toList, ofPieces,
          Text.pieces_intercalate sep_toList hne hkept]
        rfl
      rw [components_of_pieces hnew]
      simp [leadOf, Component.ofPiece?]
  · cases kept with
    | nil => exact components_of_text_eq_empty rfl
    | cons piece kept =>
      have hkept : ∀ s ∈ piece :: kept, '/' ∉ s.toList := fun s hs => hslash s (hbegin.subset hs)
      obtain ⟨rfl, hrest⟩ := List.cons_prefix_cons.1 hbegin
      have hnew : (⟨"" ++ ofPieces (piece :: kept)⟩ : Path).pieces = piece :: kept := by
        rw [String.empty_append]
        exact Text.pieces_intercalate sep_toList (by simp) hkept
      rw [components_of_pieces hnew]
      have hnone : leadOf piece kept = [] := by
        have hnil : piece = "" → kept = [] := fun he => by
          simpa [hempty he] using hrest
        simpa [leadOf, hdot] using hnil
      rw [hnone]
      rfl

/-- A path that ends in a name has a parent, which has all components but that name. -/
theorem exists_parent {p : Path} {above : List Component} {name : String}
    (h : p.components = above ++ [.name name]) :
    ∃ dir, p.parent? = some dir ∧ dir.components = above := by
  obtain ⟨⟨void, hpieces, -⟩, hlast⟩ := trimVoid_spec p.split.2
  have hcomponents := components_eq_split p
  rw [← filterMap_trimVoid] at hcomponents
  rcases List.eq_nil_or_concat (trimVoid p.split.2) with hkept | ⟨kept, last, hkept⟩
  · -- Without pieces that count, a path would end in its lead.
    rw [hkept, h] at hcomponents
    obtain ⟨first, rest, hfirst⟩ := p.exists_pieces
    rcases lead?_cases hfirst with ⟨hlead, -⟩ | ⟨hlead, -⟩ | ⟨hlead, -⟩ <;>
      simp [hlead, List.append_eq_singleton_iff] at hcomponents
  · rw [List.concat_eq_append] at hkept
    have hvoid : isVoid last = false := hlast last (by simp [hkept])
    obtain ⟨c, hc⟩ : ∃ c, Component.ofPiece? last = some c := by
      cases hpiece : Component.ofPiece? last with
      | none => simp [Component.ofPiece?_eq_none_iff.1 hpiece] at hvoid
      | some c => exact ⟨c, rfl⟩
    have habove : p.lead?.toList ++ kept.filterMap Component.ofPiece? = above := by
      rw [h, hkept, List.filterMap_append, ← List.append_assoc] at hcomponents
      simp only [List.filterMap_cons, hc, List.filterMap_nil] at hcomponents
      exact (List.append_inj_left' hcomponents rfl).symm
    refine ⟨⟨p.split.1 ++ ofPieces (trimVoid kept)⟩, ?_, ?_⟩
    · have hparent : p.parent? = some ⟨p.split.1 ++ ofPieces (trimVoid (kept ++ [last]).dropLast)⟩ := by
        simp only [parent?, hkept]
        cases kept <;> rfl
      rw [hparent, List.dropLast_concat]
    · have hbegin : trimVoid kept <+: p.split.2 := by
        refine (prefix_trimVoid kept).trans ?_
        rw [hpieces, hkept, List.append_assoc]
        exact List.prefix_append _ _
      rw [components_lead_ofPieces hbegin (trimVoid_spec kept).2, filterMap_trimVoid, habove]

theorem text_eq_split (p : Path) : p.text = p.split.1 ++ ofPieces p.split.2 := by
  have htext : p.text = ofPieces p.pieces := (Text.intercalate_pieces sep_toList p.text).symm
  obtain ⟨first, rest, hpieces⟩ := p.exists_pieces
  rw [hpieces] at htext
  rcases lead?_cases hpieces with ⟨-, hsplit, rfl, hrest⟩ | ⟨-, hsplit, rfl⟩ | ⟨-, hsplit, -⟩ <;>
    rw [htext, hsplit] <;> unfold ofPieces
  · rw [String.intercalate_cons_of_ne_nil hrest, String.empty_append]
  · cases rest with
    | nil => rfl
    | cons piece rest =>
      rw [String.intercalate_cons_cons, String.intercalate_cons_cons, String.empty_append, String.append_assoc]
  · rw [String.empty_append]

/-- The text of a path begins with that of its parent. -/
theorem exists_text_of_parent? {p q : Path} (h : p.parent? = some q) :
    ∃ rest, p.text = q.text ++ rest := by
  have hbegin : ∀ kept more : List String,
      ∃ rest, ofPieces (kept ++ more) = ofPieces kept ++ rest := by
    intro kept more
    by_cases hkept : kept = []
    · exact ⟨ofPieces more, by simp [hkept, ofPieces]⟩
    by_cases hmore : more = []
    · exact ⟨"", by simp [hmore]⟩
    · exact ⟨"/" ++ ofPieces more, by
        rw [ofPieces, String.intercalate_append_of_ne_nil hkept hmore, String.append_assoc]; rfl⟩
  unfold parent? at h
  dsimp only at h
  split at h
  · split at h
    · exact ⟨p.text, by rw [← Option.some.inj h, String.empty_append]⟩
    · exact nomatch h
  · obtain rfl := Option.some.inj h
    have hkept : trimVoid (trimVoid p.split.2).dropLast <+: p.split.2 :=
      ((prefix_trimVoid _).trans (List.dropLast_prefix _)).trans (prefix_trimVoid _)
    obtain ⟨more, hmore⟩ := hkept
    obtain ⟨rest, hrest⟩ := hbegin (trimVoid (trimVoid p.split.2).dropLast) more
    exact ⟨rest, by rw [String.append_assoc, ← hrest, hmore, ← text_eq_split]⟩

theorem isAbsolute_iff_lead? {p : Path} : p.isAbsolute = true ↔ p.lead? = some .root := by
  obtain ⟨first, rest, hpieces⟩ := p.exists_pieces
  rw [isAbsolute_iff hpieces]
  rcases lead?_cases hpieces with ⟨hlead, -, hroot⟩ | ⟨hlead, -, rfl⟩ | ⟨hlead, -, -, hempty⟩
  · simp [hlead, hroot]
  · simp [hlead]
  · simpa [hlead] using hempty

/-- A path is absolute if its components begin with the root. -/
theorem isAbsolute_iff_head? {p : Path} : p.isAbsolute = true ↔ p.components.head? = some .root := by
  rw [isAbsolute_iff_lead?, components]
  obtain ⟨first, rest, hpieces⟩ := p.exists_pieces
  rcases lead?_cases hpieces with ⟨hlead, -⟩ | ⟨hlead, -⟩ | ⟨hlead, -⟩ <;> simp only [hlead]
  · simp
  · simp
  · have hnone : some .root ≠ (p.pieces.filterMap Component.ofPiece?).head? := by
      intro hroot
      obtain ⟨piece, -, hpiece⟩ := List.mem_filterMap.1 (List.mem_of_head? hroot.symm)
      exact (Component.ne_lead_of_ofPiece? hpiece).1 rfl
    simpa [eq_comm] using hnone

/-- A path begins where its parent does. -/
theorem isAbsolute_of_parent? {p q : Path} (h : p.parent? = some q) : q.isAbsolute = p.isAbsolute := by
  have habs : p.isAbsolute = true → q.isAbsolute = true := by
    intro habs
    have hsplit : p.split.1 = "/" := by
      unfold split
      rw [isAbsolute_iff_lead?.1 habs]
    unfold parent? at h
    simp only [hsplit] at h
    split at h
    · exact nomatch h
    · obtain rfl := Option.some.inj h
      simp [isAbsolute]
  refine Bool.eq_iff_iff.2 ⟨fun hq => ?_, habs⟩
  obtain ⟨rest, htext⟩ := exists_text_of_parent? h
  unfold isAbsolute at hq ⊢
  rw [decide_eq_true_eq] at hq ⊢
  rw [htext, String.toList_append, List.head?_append, hq, Option.some_or]

/-- The components of a path without its lead. -/
theorem filter_components (p : Path) :
    p.components.filter (fun c => c ≠ .root ∧ c ≠ .current) = p.pieces.filterMap Component.ofPiece? := by
  have hlead : p.lead?.toList.filter (fun c => c ≠ .root ∧ c ≠ .current) = [] := by
    obtain ⟨first, rest, hpieces⟩ := p.exists_pieces
    rcases lead?_cases hpieces with ⟨hlead, -⟩ | ⟨hlead, -⟩ | ⟨hlead, -⟩ <;> simp [hlead]
  rw [components, List.filter_append, hlead, List.nil_append, List.filter_eq_self]
  intro c hc
  obtain ⟨piece, -, hpiece⟩ := List.mem_filterMap.1 hc
  simpa using Component.ne_lead_of_ofPiece? hpiece

end Path
end WrapperGen
