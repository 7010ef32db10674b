import WrapperGen.Proofs.Placement.Places

/-!
# Normal forms of unit paths

A written path is brought to its normal form in two steps: the segments that name nothing are dropped, and
then the extension is cut off the last segment that is left. The second step may leave one dot or two, which
the first would have dropped. Everywhere else the normal form has named segments only and keeps the class in
its directory when it is normalized again. It is a fixed point only if no further extension is left.
-/

namespace WrapperGen

namespace UnitPath

/-- Reading from the end, what holds no dot is passed over. -/
theorem dropWhile_reverse_append {ext : List Char} (h : '.' ∉ ext) (rest : List Char) :
    (ext.reverse ++ rest).dropWhile (· ≠ '.') = rest.dropWhile (· ≠ '.') := by
  refine List.dropWhile_append_of_pos fun c hc => decide_eq_true ?_
  rintro rfl
  exact h (List.mem_reverse.1 hc)

/-- What stands before the last dot is kept, if it is not empty. -/
theorem stem_append {start ext : List Char} (hne : start ≠ []) (hext : '.' ∉ ext) :
    stem (start ++ '.' :: ext) = start := by
  have hdrop : (start ++ '.' :: ext).reverse.dropWhile (· ≠ '.') = '.' :: start.reverse := by
    rw [List.reverse_append, List.reverse_cons, List.append_assoc, dropWhile_reverse_append hext]
    rfl
  obtain ⟨c, rest, hrest⟩ := List.exists_cons_of_ne_nil (List.reverse_ne_nil_iff.2 hne)
  rw [stem, hdrop, hrest]
  dsimp only
  rw [← hrest, List.reverse_reverse]

/-- Only a dot after the first character begins an extension. -/
theorem stem_eq_self {segment : List Char} (h : '.' ∉ segment.tail) : stem segment = segment := by
  cases segment with
  | nil => rfl
  | cons c rest =>
    have hrest : '.' ∉ rest := h
    rw [stem, List.reverse_cons, dropWhile_reverse_append hrest]
    by_cases hc : c = '.' <;> simp [hc]

/-- A segment has no extension, or it is a stem with an extension after it. -/
theorem stem_cases (segment : List Char) : '.' ∉ segment.tail ∨
    ∃ start ext, start ≠ [] ∧ '.' ∉ ext ∧ segment = start ++ '.' :: ext := by
  by_cases h : '.' ∈ segment.tail
  · right
    obtain ⟨c, rest, rfl⟩ := List.exists_cons_of_ne_nil (l := segment) (by rintro rfl; simp at h)
    obtain ⟨ext, start, hrest, hext⟩ := List.eq_append_cons_of_mem (List.mem_reverse.2 h)
    refine ⟨c :: start.reverse, ext.reverse, by simp, by simpa using hext, ?_⟩
    have := congrArg List.reverse hrest
    simpa using this
  · exact .inl h

theorem stem_eq_self_iff {segment : List Char} : stem segment = segment ↔ '.' ∉ segment.tail := by
  refine ⟨fun h => ?_, stem_eq_self⟩
  rcases stem_cases segment with hplain | ⟨start, ext, hne, hext, rfl⟩
  · exact hplain
  · rw [stem_append hne hext] at h
    simp at h

theorem stem_ne_nil {segment : List Char} (h : segment ≠ []) : stem segment ≠ [] := by
  rcases stem_cases segment with hplain | ⟨start, ext, hne, hext, rfl⟩
  · rwa [stem_eq_self hplain]
  · rwa [stem_append hne hext]

/-- One dot or two, and an extension after them. -/
def IsDotted (segment : List Char) : Prop :=
  ∃ ext, '.' ∉ ext ∧ (segment = ['.'] ++ '.' :: ext ∨ segment = ['.', '.'] ++ '.' :: ext)

theorem IsDotted.stem {segment : List Char} (h : IsDotted segment) :
    stem segment = ['.'] ∨ stem segment = ['.', '.'] := by
  obtain ⟨ext, hext, rfl | rfl⟩ := h
  · exact .inl (stem_append (by simp) hext)
  · exact .inr (stem_append (by simp) hext)

/-- The stem of a name is a name again, except where it is made of one dot or two. -/
theorem isName_stem_iff {segment : List Char} (h : isName segment = true) :
    isName (stem segment) = true ↔ ¬ IsDotted segment := by
  constructor
  · intro hstem hdotted
    rcases hdotted.stem with hdots | hdots <;> rw [hdots] at hstem <;> exact absurd hstem (by decide)
  · intro hdotted
    rcases stem_cases segment with hplain | ⟨start, ext, hne, hext, rfl⟩
    · rwa [stem_eq_self hplain]
    · rw [stem_append hne hext]
      have hone : start ≠ ['.'] := fun hstart => hdotted ⟨ext, hext, .inl (by rw [hstart])⟩
      have htwo : start ≠ ['.', '.'] := fun hstart => hdotted ⟨ext, hext, .inr (by rw [hstart])⟩
      simp [isName, hne, hone, htwo]

theorem stemLast_concat (dirs : List (List Char)) (last : List Char) :
    stemLast (dirs ++ [last]) = dirs ++ [stem last] := by
  induction dirs with
  | nil => rfl
  | cons dir dirs ih =>
    have hne : dirs ++ [last] ≠ [] := by simp
    obtain ⟨next, rest, hnext⟩ := List.exists_cons_of_ne_nil hne
    rw [List.cons_append, hnext, stemLast, ← hnext, ih, List.cons_append]
    simp

theorem segments_of_plain {path : List Char} (h : '\\' ∉ path) :
    segments path = (path.splitOn '/').filter isName := by
  have hsame : ∀ c ∈ path, (if c = '\\' then '/' else c) = c := by
    intro c hc
    rw [if_neg]
    rintro rfl
    exact h hc
  rw [segments, List.map_congr_left hsame, List.map_id']

theorem segments_intercalate {names : List (List Char)} (h : ∀ s ∈ names, '/' ∉ s ∧ '\\' ∉ s) :
    segments (['/'].intercalate names) = names.filter isName := by
  by_cases hnil : names = []
  · subst hnil
    rfl
  · have hsplit := List.splitOn_intercalate '/' (fun s hs => (h s hs).1) hnil
    have hplain : '\\' ∉ ['/'].intercalate names := by
      rw [Text.mem_iff_exists_mem_splitOn (c := '/') (by decide), hsplit]
      rintro ⟨s, hs, hmem⟩
      exact (h s hs).2 hmem
    rw [segments_of_plain hplain, hsplit]

theorem mem_segments_plain {path segment : List Char} (h : segment ∈ segments path) :
    '/' ∉ segment ∧ '\\' ∉ segment := by
  refine ⟨(mem_segments h).2, fun hback => ?_⟩
  have hmem := (Text.mem_iff_exists_mem_splitOn (c := '/') (d := '\\') (by decide) _).2
    ⟨segment, List.mem_filter.1 h |>.1, hback⟩
  obtain ⟨c, -, hc⟩ := List.mem_map.1 hmem
  split at hc
  · exact absurd hc (by decide)
  · next hne => exact hne hc

theorem isName_ofList {segment : List Char} (h : '/' ∉ segment) :
    Entries.isName (String.ofList segment) = isName segment := by
  have hnames : Entries.isName (String.ofList segment) = true ↔ isName segment = true := by
    rw [Entries.isName_iff]
    simp [isName, ← String.toList_inj, h, and_assoc]
  exact Bool.eq_iff_iff.2 hnames

theorem stemLast_plain {path segment : List Char} (h : segment ∈ stemLast (segments path)) :
    '/' ∉ segment ∧ '\\' ∉ segment := by
  obtain ⟨written, hwritten, hsub⟩ := mem_stemLast h
  have hplain := mem_segments_plain hwritten
  exact ⟨fun hmem => hplain.1 (hsub _ hmem), fun hmem => hplain.2 (hsub _ hmem)⟩

theorem backslash_not_mem_normalize (path : String) : '\\' ∉ (normalize path).toList := by
  rw [normalize, String.toList_ofList, Text.mem_iff_exists_mem_splitOn (c := '/') (by decide)]
  by_cases hnil : stemLast (segments path.toList) = []
  · simp [hnil]
  · rw [List.splitOn_intercalate '/' (fun s hs => (stemLast_plain hs).1) hnil]
    rintro ⟨s, hs, hmem⟩
    exact (stemLast_plain hs).2 hmem

theorem isName_ne_nil {segment : List Char} (h : isName segment = true) : segment ≠ [] := by
  rintro rfl
  exact absurd h (by decide)

/-- A written path names nothing, or its normal form has the segments it names, the last one without its
extension. -/
theorem normalize_cases (path : String) :
    (segments path.toList = [] ∧ normalize path = "") ∨
      ∃ before last, segments path.toList = before ++ [last] ∧
        (∀ s ∈ before, isName s = true) ∧ isName last = true ∧
        (∀ s ∈ before ++ [stem last], '/' ∉ s ∧ '\\' ∉ s) ∧
        Text.pieces '/' (normalize path) = (before ++ [stem last]).map String.ofList ∧
        segments (normalize path).toList = before ++ [stem last].filter isName := by
  rcases List.eq_nil_or_concat (segments path.toList) with hnil | ⟨before, last, hsegments⟩
  · exact .inl ⟨hnil, by simp [normalize, hnil, stemLast]⟩
  · rw [List.concat_eq_append] at hsegments
    have hname : ∀ s ∈ before ++ [last], isName s = true := fun s hs =>
      (mem_segments (hsegments ▸ hs)).1
    have hbefore : ∀ s ∈ before, isName s = true := fun s hs => hname s (List.mem_append_left _ hs)
    have hnormal : (normalize path).toList = ['/'].intercalate (before ++ [stem last]) := by
      rw [normalize, hsegments, stemLast_concat, String.toList_ofList]
    have hplain : ∀ s ∈ before ++ [stem last], '/' ∉ s ∧ '\\' ∉ s := by
      rw [← stemLast_concat, ← hsegments]
      exact fun s hs => stemLast_plain hs
    refine .inr ⟨before, last, hsegments, hbefore, hname last (by simp), hplain, ?_, ?_⟩
    · rw [Text.pieces, hnormal, List.splitOn_intercalate '/' (fun s hs => (hplain s hs).1) (by simp)]
    · rw [hnormal, segments_intercalate hplain, List.filter_append, List.filter_eq_self.2 hbefore]

/-- Every segment of the path, if it has any, names something. -/
def IsNamed (path : String) : Prop :=
  path = "" ∨ ∀ segment ∈ Text.pieces '/' path, Entries.isName segment = true

instance (path : String) : Decidable (IsNamed path) := inferInstanceAs (Decidable (_ ∨ _))

/-- Nothing but dots is left of the last segment without its extension. -/
def LeavesDots (path : String) : Prop :=
  ∃ before last, segments path.toList = before ++ [last] ∧ IsDotted last

theorem leavesDots_iff {path : String} {before : List (List Char)} {last : List Char}
    (h : segments path.toList = before ++ [last]) : LeavesDots path ↔ IsDotted last := by
  refine ⟨?_, fun hdotted => ⟨before, last, h, hdotted⟩⟩
  rintro ⟨before', last', h', hdotted⟩
  obtain ⟨-, hlast⟩ := List.append_inj' (h.symm.trans h') rfl
  rwa [List.singleton_inj.1 hlast]

theorem not_leavesDots {path : String} (h : segments path.toList = []) : ¬ LeavesDots path := by
  rintro ⟨before, last, hsegments, -⟩
  simp [h] at hsegments

theorem isNamed_normalize_iff {path : String} : IsNamed (normalize path) ↔ ¬ LeavesDots path := by
  rcases normalize_cases path with ⟨hnil, hempty⟩ | ⟨before, last, hsegments, hbefore, hlast, hplain, hpieces, -⟩
  · exact iff_of_true (.inl hempty) (not_leavesDots hnil)
  · have hne : normalize path ≠ "" := by
      intro hempty
      have hblank : Text.pieces '/' "" = [""] := rfl
      rw [hempty, hblank] at hpieces
      have hlast' := congrArg List.getLast? hpieces
      rw [List.getLast?_map, List.getLast?_concat] at hlast'
      have hstem : String.ofList (stem last) = "" := (Option.some.inj hlast').symm
      exact stem_ne_nil (isName_ne_nil hlast) (String.ofList_eq_empty_iff.1 hstem)
    have hall : (∀ s ∈ before ++ [stem last], isName s = true) ↔ isName (stem last) = true := by
      rw [List.forall_mem_append, List.forall_mem_singleton, and_iff_right hbefore]
    rw [leavesDots_iff hsegments, ← isName_stem_iff hlast, ← hall, IsNamed, or_iff_right hne, hpieces,
      List.forall_mem_map]
    refine forall₂_congr fun s hs => ?_
    rw [isName_ofList (hplain s hs).1]

theorem dirs_normalize_eq_iff {path : String} :
    dirs (normalize path) = dirs path ↔ ¬ (LeavesDots path ∧ dirs path ≠ []) := by
  rw [dirs_eq, dirs_eq]
  rcases normalize_cases path with ⟨hnil, hempty⟩ | ⟨before, last, hsegments, hbefore, hlast, -, -, hagain⟩
  · have hblank : segments "".toList = [] := rfl
    rw [hnil, hempty, hblank]
    simp
  · rw [leavesDots_iff hsegments, hagain, hsegments, List.dropLast_concat]
    by_cases hdotted : IsDotted last
    · have hstem : ¬ isName (stem last) = true := mt (isName_stem_iff hlast).1 (not_not_intro hdotted)
      rw [List.filter_cons_of_neg hstem, List.filter_nil, List.append_nil]
      -- A directory is lost, if there is one.
      constructor
      · rintro hsame ⟨-, hdirs⟩
        have hlength := congrArg List.length hsame
        have hpos := List.length_pos_iff.2 hdirs
        simp only [List.length_map, List.length_dropLast] at hlength hpos
        omega
      · intro hdirs
        have hnone : before.map String.ofList = [] := by
          simpa [hdotted] using hdirs
        rw [List.map_eq_nil_iff.1 hnone, List.dropLast_nil]
    · have hstem : isName (stem last) = true := (isName_stem_iff hlast).2 hdotted
      rw [List.filter_cons_of_pos hstem, List.filter_nil, List.dropLast_concat]
      exact iff_of_true rfl fun h => hdotted h.1

theorem empty_not_mem_pieces_normalize {path : String} (h : normalize path ≠ "") :
    "" ∉ Text.pieces '/' (normalize path) := by
  rcases normalize_cases path with ⟨-, hempty⟩ | ⟨before, last, -, hbefore, hlast, -, hpieces, -⟩
  · exact absurd hempty h
  · rw [hpieces]
    intro hmem
    obtain ⟨s, hs, hblank⟩ := List.mem_map.1 hmem
    obtain rfl := String.ofList_eq_empty_iff.1 hblank
    rcases List.mem_append.1 hs with hs | hs
    · exact absurd rfl (isName_ne_nil (hbefore _ hs))
    · exact absurd (List.mem_singleton.1 hs).symm (stem_ne_nil (isName_ne_nil hlast))

/-- No separator stands at either end of a normal form. -/
theorem startsWith_normalize (path : String) : Text.startsWith "/" (normalize path) = false := by
  refine Bool.eq_false_iff.2 fun h => ?_
  obtain ⟨hmem, hne⟩ := Text.empty_mem_pieces Path.sep_toList (.inl h)
  exact empty_not_mem_pieces_normalize hne hmem

theorem endsWith_normalize (path : String) : Text.endsWith "/" (normalize path) = false := by
  refine Bool.eq_false_iff.2 fun h => ?_
  obtain ⟨hmem, hne⟩ := Text.empty_mem_pieces Path.sep_toList (.inr h)
  exact empty_not_mem_pieces_normalize hne hmem

/-- Where only dots are left of the last segment, the others still are names. -/
theorem pieces_normalize_of_leavesDots {path : String} (h : LeavesDots path) :
    ∃ before last, Text.pieces '/' (normalize path) = before ++ [last] ∧
      (∀ segment ∈ before, Entries.isName segment = true) ∧ (last = "." ∨ last = "..") := by
  rcases normalize_cases path with ⟨hnil, -⟩ | ⟨before, last, hsegments, hbefore, -, hplain, hpieces, -⟩
  · exact absurd h (not_leavesDots hnil)
  · refine ⟨before.map String.ofList, String.ofList (stem last), by simpa using hpieces, ?_, ?_⟩
    · rw [List.forall_mem_map]
      intro s hs
      rw [isName_ofList (hplain s (List.mem_append_left _ hs)).1]
      exact hbefore s hs
    · rcases ((leavesDots_iff hsegments).1 h).stem with hdots | hdots <;> rw [hdots]
      · exact .inl rfl
      · exact .inr rfl

/-- A path that normalization leaves as it is: named segments, the last one without an extension. -/
structure IsNormal (path : String) : Prop where
  named : IsNamed path
  noBackslash : '\\' ∉ path.toList
  noExtension : '.' ∉ (unitName path).toList.tail

theorem IsNormal.normalize_eq {path : String} (h : IsNormal path) : normalize path = path := by
  rcases h.named with rfl | hnamed
  · rfl
  · have hsegments : segments path.toList = path.toList.splitOn '/' := by
      rw [segments_of_plain h.noBackslash, List.filter_eq_self]
      intro s hs
      rw [← isName_ofList (Text.not_mem_of_mem_splitOn hs)]
      exact hnamed _ (List.mem_map_of_mem hs)
    rcases List.eq_nil_or_concat (path.toList.splitOn '/') with hnil | ⟨before, last, hsplit⟩
    · exact absurd hnil (List.splitOn_ne_nil _ _)
    · rw [List.concat_eq_append] at hsplit
      have hlast : unitName path = String.ofList last := by
        simp [unitName, Text.lastPiece, Text.pieces, hsplit]
      have hstem : stem last = last := stem_eq_self (by simpa [hlast] using h.noExtension)
      rw [normalize, hsegments, hsplit, stemLast_concat, hstem, ← hsplit, List.intercalate_splitOn,
        String.ofList_toList]

theorem isNormal_of_normalize_eq {path : String} (h : normalize path = path) : IsNormal path := by
  rcases normalize_cases path with ⟨-, hempty⟩ |
    ⟨before, last, hsegments, hbefore, hlast, -, hpieces, hagain⟩
  · obtain rfl : path = "" := h.symm.trans hempty
    exact ⟨.inl rfl, by simp, by decide⟩
  · rw [h] at hpieces hagain
    -- What is read from the path is what is read from its normal form.
    have hread : [last] = [stem last].filter isName := by
      simpa using hsegments.symm.trans hagain
    have hmem : last ∈ [stem last].filter isName := hread ▸ List.mem_singleton_self last
    have hsame : last = stem last := List.mem_singleton.1 (List.mem_filter.1 hmem).1
    have hlast' : unitName path = String.ofList last := by
      simp [unitName, Text.lastPiece, hpieces, ← hsame]
    refine ⟨?_, h ▸ backslash_not_mem_normalize path, ?_⟩
    · rw [← h, isNamed_normalize_iff, leavesDots_iff hsegments, ← isName_stem_iff hlast, ← hsame]
      exact hlast
    · rw [hlast', String.toList_ofList]
      exact stem_eq_self_iff.1 hsame.symm

/-- Exactly the normal paths are left as they are. -/
theorem normalize_eq_self_iff {path : String} : normalize path = path ↔ IsNormal path :=
  ⟨isNormal_of_normalize_eq, IsNormal.normalize_eq⟩

end UnitPath

namespace Placement

theorem classDir_eq (p : Placement) (unitPath : String) :
    p.classDir unitPath = (UnitPath.dirs unitPath).foldl Path.child p.root := rfl

theorem same_classDir_iff {p : Placement} {a b : String} :
    (p.classDir a).same (p.classDir b) = true ↔ UnitPath.dirs a = UnitPath.dirs b := by
  rw [Path.same, decide_eq_true_iff, components_classDir, components_classDir, List.append_right_inj,
    List.map_inj_right fun _ _ => Component.name.inj]

end Placement

namespace UnitPath

/-- Whatever is written, the normal form has no `\` and no separator at either end. Its segments name something
exactly if the last written one is not made of one dot or two and an extension; otherwise these dots are its
last segment, and the other ones still are names. In every output tree normalizing again leads to the same
directory, unless only dots are left below some directory, which is lost then. -/
theorem normalize_clean_iff (path : String) :
    '\\' ∉ (normalize path).toList ∧
    Text.startsWith "/" (normalize path) = false ∧ Text.endsWith "/" (normalize path) = false ∧
    (IsNamed (normalize path) ↔ ¬ LeavesDots path) ∧
    (LeavesDots path → ∃ before last, Text.pieces '/' (normalize path) = before ++ [last] ∧
      (∀ segment ∈ before, Entries.isName segment = true) ∧ (last = "." ∨ last = "..")) ∧
    ∀ p : Placement,
      ((p.classDir (normalize path)).same (p.classDir path) = true ↔
        ¬ (LeavesDots path ∧ dirs path ≠ [])) ∧
      (¬ (LeavesDots path ∧ dirs path ≠ []) → p.classDir (normalize path) = p.classDir path) := by
  refine ⟨backslash_not_mem_normalize path, startsWith_normalize path, endsWith_normalize path,
    isNamed_normalize_iff, pieces_normalize_of_leavesDots, fun p => ⟨?_, fun h => ?_⟩⟩
  · rw [Placement.same_classDir_iff, dirs_normalize_eq_iff]
  · rw [Placement.classDir_eq, dirs_normalize_eq_iff.2 h, Placement.classDir_eq]

/-- A dot is left below the directory `x`; nothing but its name is left of a path that leads up. -/
theorem normalize_clean_dots :
    let p : Placement := ⟨.javascript, ⟨"out"⟩⟩
    LeavesDots "x/..js" ∧ dirs "x/..js" ≠ [] ∧
      (∃ before last, Text.pieces '/' (normalize "x/..js") = before ++ [last] ∧
        (∀ segment ∈ before, Entries.isName segment = true) ∧ (last = "." ∨ last = "..")) ∧
      (p.classDir (normalize "x/..js")).same (p.classDir "x/..js") = false ∧
      ¬ LeavesDots "../outside/Escape.js" ∧
      p.classDir (normalize "../outside/Escape.js") = p.classDir "../outside/Escape.js" := by
  intro p
  have hdots : LeavesDots "x/..js" := ⟨[['x']], ['.', '.', 'j', 's'], by decide, ['j', 's'], by decide, .inl rfl⟩
  have hdirs : dirs "x/..js" ≠ [] := by decide
  obtain ⟨-, -, -, -, hleft, hplace⟩ := normalize_clean_iff "x/..js"
  have hescape : ¬ LeavesDots "../outside/Escape.js" :=
    (normalize_clean_iff "../outside/Escape.js").2.2.2.1.1 (by decide)
  refine ⟨hdots, hdirs, hleft hdots, ?_, hescape, ?_⟩
  · exact Bool.eq_false_iff.2 fun hsame => (hplace p).1.1 hsame ⟨hdots, hdirs⟩
  · exact ((normalize_clean_iff "../outside/Escape.js").2.2.2.2.2 p).2 fun h => hescape h.1

/-- Dots are left of a segment of dots and of one that is all extension, and the second one's directory is
lost. -/
theorem normalize_leaves_dots :
    let p : Placement := ⟨.javascript, ⟨"out"⟩⟩
    normalize "..." = ".." ∧ ¬ IsNamed (normalize "...") ∧
      normalize "x/..js" = "x/." ∧ ¬ IsNamed (normalize "x/..js") ∧
      p.classDir "x/..js" = ⟨"out/x"⟩ ∧ p.classDir (normalize "x/..js") = ⟨"out"⟩ := by
  decide +kernel

end UnitPath
end WrapperGen
