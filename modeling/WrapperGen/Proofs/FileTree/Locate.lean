import WrapperGen.Proofs.Path.Components

/-!
# Where paths lead in a file tree

A path is followed piece by piece. What leads to an entry names it last, and a spot is the directory the
path leads to before its last name.
-/

namespace WrapperGen.FileTree

open Entries (isName)

variable {t : FileTree} {p q : Path} {l here : Location}

theorem holdsDir_iff {l : Location} : t.holdsDir l = true ↔ t.entry? l = some .dir := by
  unfold holdsDir
  cases t.entry? l with
  | none => simp
  | some e => cases e <;> simp [Entry.isDir]

/-- Where a piece of a path leads: it stays, goes up, or goes to an entry that stands. -/
theorem follow_eq_ok_iff {here there : Location} {piece : String} :
    t.follow here piece = .ok there ↔ t.entry? here = some .dir ∧
      ((Path.isVoid piece = true ∧ there = here) ∨
        (Path.isVoid piece = false ∧ piece = ".." ∧ there = here.dropLast) ∨
        (Path.isVoid piece = false ∧ piece ≠ ".." ∧ piece.utf8ByteSize ≤ maxName ∧
          (t.entry? (here ++ [piece])).isSome ∧ there = here ++ [piece])) := by
  unfold follow
  by_cases hdir : t.holdsDir here = true
  · have hentry := holdsDir_iff.1 hdir
    by_cases hvoid : Path.isVoid piece = true
    · simp [hdir, hentry, hvoid, eq_comm (a := here)]
    · by_cases hup : piece = ".."
      · have hdots : Path.isVoid ".." = false := rfl
        rw [hup]
        simp [hdir, hentry, hdots, eq_comm (a := here.dropLast)]
      · by_cases hlong : maxName < piece.utf8ByteSize
        · have hlong' : ¬ piece.utf8ByteSize ≤ maxName := Nat.not_le.2 hlong
          simp [hdir, hentry, hvoid, hup, hlong, hlong']
        · have hlong' : piece.utf8ByteSize ≤ maxName := Nat.not_lt.1 hlong
          by_cases hstands : (t.entry? (here ++ [piece])).isSome = true <;>
            simp [hdir, hentry, hvoid, hup, hlong, hlong', hstands, eq_comm (a := here ++ [piece])]
  · simp [hdir, mt holdsDir_iff.2 hdir]

/-- The pieces of a path without those that a final separator leaves. -/
theorem kept_spec {before : List String} {last : String}
    (h : (p.pieces.reverse.dropWhile (· = "")).reverse = before ++ [last]) :
    last ≠ "" ∧ (¬ (before ++ [last]).length < p.pieces.length → p.pieces = before ++ [last]) := by
  have hdrop : p.pieces.reverse.dropWhile (· = "") = (before ++ [last]).reverse := by
    rw [← h, List.reverse_reverse]
  constructor
  · have hhead := List.head?_dropWhile_not (fun piece : String => decide (piece = "")) p.pieces.reverse
    rw [hdrop] at hhead
    simpa using hhead
  · intro hlength
    have hsuffix : (before ++ [last]).reverse <:+ p.pieces.reverse := by
      rw [← hdrop]
      exact List.dropWhile_suffix _
    have heq := hsuffix.eq_of_length_le (by simpa using hlength)
    exact (List.reverse_inj.1 heq).symm

theorem isDir_of_foldlM_follow {pieces : List String} (h : pieces.foldlM t.follow here = .ok l)
    (hdir : t.entry? l = some .dir) : t.entry? here = some .dir := by
  cases pieces with
  | nil => exact Except.ok.inj h ▸ hdir
  | cons piece pieces =>
    rw [List.foldlM_cons] at h
    obtain ⟨next, hstep, -⟩ := bind_eq_ok_iff.1 h
    exact (follow_eq_ok_iff.1 hstep).1

/-- To follow a path to a directory, the pieces that stand for nothing can be left out. -/
theorem foldlM_follow_dir_iff {pieces : List String} (hdir : t.entry? l = some .dir) :
    pieces.foldlM t.follow here = .ok l ↔
      ((pieces.filterMap Component.ofPiece?).map Component.text).foldlM t.follow here = .ok l := by
  induction pieces generalizing here with
  | nil => rfl
  | cons piece pieces ih =>
    cases hpiece : Component.ofPiece? piece with
    | none =>
      have hvoid := Component.ofPiece?_eq_none_iff.1 hpiece
      rw [List.filterMap_cons_none hpiece, ← ih, List.foldlM_cons, bind_eq_ok_iff]
      constructor
      · rintro ⟨next, hstep, hrest⟩
        rcases (follow_eq_ok_iff.1 hstep).2 with ⟨-, rfl⟩ | ⟨hpart, -⟩ | ⟨hpart, -⟩
        · exact hrest
        · simp [hvoid] at hpart
        · simp [hvoid] at hpart
      · exact fun h => ⟨here, follow_eq_ok_iff.2 ⟨isDir_of_foldlM_follow h hdir, .inl ⟨hvoid, rfl⟩⟩, h⟩
    | some c =>
      have htext : c.text = piece := by
        unfold Component.ofPiece? at hpiece
        split at hpiece
        · cases hpiece
        · split at hpiece <;> obtain rfl := Option.some.inj hpiece
          · next hup => exact hup.symm
          · rfl
      rw [List.filterMap_cons_some hpiece, List.map_cons, htext, List.foldlM_cons, List.foldlM_cons,
        bind_eq_ok_iff, bind_eq_ok_iff]
      exact exists_congr fun next => and_congr_right fun _ => ih

theorem refusal?_of_text {rest : String} (h : refusal? p = none) (htext : p.text = q.text ++ rest)
    (hne : q.text ≠ "") : refusal? q = none := by
  unfold refusal? at h ⊢
  split at h
  · cases h
  · next hnull =>
    split at h
    · cases h
    · split at h
      · cases h
      · next hlong =>
        rw [htext] at hnull hlong
        rw [String.utf8ByteSize_append] at hlong
        rw [if_neg (by simp_all), if_neg hne, if_neg (by omega)]

theorem locate_eq_ok_iff :
    t.locate p = .ok l ↔ refusal? p = none ∧ p.pieces.foldlM t.follow (t.origin p) = .ok l := by
  unfold locate
  cases refusal? p <;> simp

theorem locate_concat_eq_ok_iff {before : List String} {last : String}
    (hpieces : p.pieces = before ++ [last]) :
    t.locate p = .ok l ↔ refusal? p = none ∧
      ∃ dir, before.foldlM t.follow (t.origin p) = .ok dir ∧ t.follow dir last = .ok l := by
  have hfold : p.pieces.foldlM t.follow (t.origin p) =
      before.foldlM t.follow (t.origin p) >>= fun dir => t.follow dir last := by
    rw [hpieces, List.foldlM_append]
    exact bind_congr fun dir => bind_pure (t.follow dir last)
  rw [locate_eq_ok_iff, hfold, bind_eq_ok_iff]

/-- A spot with a name lies in the directory that the path leads to before its last name. -/
theorem spot_named {s : Spot} (h : t.spot p = .ok s) (hnamed : s.named = true) :
    ∃ before last dir, refusal? p = none ∧
      (p.pieces.reverse.dropWhile (· = "")).reverse = before ++ [last] ∧
      before.foldlM t.follow (t.origin p) = .ok dir ∧ t.entry? dir = some .dir ∧ last ≠ "." ∧ last ≠ ".." ∧
      last.utf8ByteSize ≤ maxName ∧
      s = ⟨dir ++ [last], true, decide ((before ++ [last]).length < p.pieces.length)⟩ := by
  unfold spot at h
  cases hrefused : refusal? p with
  | some f => simp [hrefused] at h
  | none =>
    simp only [hrefused] at h
    generalize (p.pieces.reverse.dropWhile (· = "")).reverse = kept at h
    rcases List.eq_nil_or_concat kept with rfl | ⟨before, last, rfl⟩
    · obtain rfl := Except.ok.inj h
      simp at hnamed
    rw [List.concat_eq_append] at h
    simp only [List.getLast?_append, List.getLast?_singleton, Option.some_or, List.dropLast_concat] at h
    obtain ⟨dir, hfollow, h⟩ := bind_eq_ok_iff.1 h
    split at h
    · exact nomatch h
    · next hdir =>
      have hentry := holdsDir_iff.1 (Decidable.not_not.1 hdir)
      split at h
      · obtain rfl := Except.ok.inj h
        simp at hnamed
      · next hdots =>
        rw [not_or] at hdots
        split at h
        · exact nomatch h
        · next hlong =>
          exact ⟨before, last, dir, rfl, List.concat_eq_append, hfollow, hentry, hdots.1, hdots.2,
            Nat.not_lt.1 hlong, (Except.ok.inj h).symm⟩

/-- What a spot that can hold a file says of its path. -/
theorem spot_eq_ok {s : Spot} (h : t.spot p = .ok s) (hnamed : s.named = true)
    (hslash : s.slash = false) :
    ∃ before last dir, refusal? p = none ∧ p.pieces = before ++ [last] ∧
      before.foldlM t.follow (t.origin p) = .ok dir ∧ t.entry? dir = some .dir ∧ Path.isVoid last = false ∧
      last ≠ ".." ∧ last.utf8ByteSize ≤ maxName ∧ s.location = dir ++ [last] := by
  obtain ⟨before, last, dir, hrefused, hkept, hfollow, hentry, hdot, hup, hlong, rfl⟩ :=
    spot_named h hnamed
  obtain ⟨hempty, hpieces⟩ := kept_spec hkept
  have hlength : ¬ (before ++ [last]).length < p.pieces.length := by simpa using hslash
  have hvoid : Path.isVoid last = false := by simp [Path.isVoid, hempty, hdot]
  exact ⟨before, last, dir, hrefused, hpieces hlength, hfollow, hentry, hvoid, hup, hlong, rfl⟩

/-- A path that ends in a name leads to an entry of that name. -/
theorem getLast?_of_locate {before : List String} {name : String} (hpieces : p.pieces = before ++ [name])
    (hname : isName name = true) (h : t.locate p = .ok l) : l.getLast? = some name := by
  obtain ⟨hempty, hdot, hup, -⟩ := Entries.isName_iff.1 hname
  have hvoid : Path.isVoid name = false := by simp [Path.isVoid, hempty, hdot]
  obtain ⟨-, dir, -, hlast⟩ := (locate_concat_eq_ok_iff hpieces).1 h
  rcases (follow_eq_ok_iff.1 hlast).2 with ⟨hv, -⟩ | ⟨-, hdots, -⟩ | ⟨-, -, -, -, hl⟩
  · simp [hvoid] at hv
  · exact absurd hdots hup
  · simp [hl]

/-- A path to a file below a directory leads to an entry of the last name that was put after it. -/
theorem getLast?_of_locate_child {dir : Path} {s ending : String} (hslash : '/' ∉ ending.toList)
    (hplain : ∃ c ∈ ending.toList, c ≠ '.') (h : t.locate (dir.child (s ++ ending)) = .ok l) :
    l.getLast? = some (Text.lastPiece '/' (s ++ ending)) ∧
      ∃ x, Text.lastPiece '/' (s ++ ending) = x ++ ending := by
  obtain ⟨before, x, -, hs⟩ := Text.pieces_append_plain s hslash
  obtain ⟨above, hpieces⟩ := dir.exists_pieces_child (s ++ ending)
  have hlast : Text.lastPiece '/' (s ++ ending) = x ++ ending := by simp [Text.lastPiece, hs]
  have hname : isName (x ++ ending) = true := by
    have hx : '/' ∉ (x ++ ending).toList :=
      Text.not_mem_of_mem_pieces (s := s ++ ending) (by simp [hs])
    exact Entries.isName_append (by simp_all) hslash hplain
  rw [hs, ← List.append_assoc] at hpieces
  rw [hlast]
  exact ⟨getLast?_of_locate hpieces hname h, x, rfl⟩

end WrapperGen.FileTree
