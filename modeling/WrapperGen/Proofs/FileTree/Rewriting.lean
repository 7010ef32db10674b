import WrapperGen.Proofs.FileTree.Writes

/-!
# Rewriting files

A path that was written is written again without anything new beside it: its directories stand, and it
leads where it led.
-/

namespace WrapperGen.FileTree

variable {t t' a b c : FileTree} {p : Path}

/-- A path is its pieces up to the last that is not empty, and the empty ones that separators leave. -/
theorem exists_pieces_eq_kept (p : Path) :
    ∃ n, p.pieces = (p.pieces.reverse.dropWhile (· = "")).reverse ++ List.replicate n "" := by
  have hempty : ∀ s ∈ p.pieces.reverse.takeWhile (· = ""), s = "" := fun s hs => by
    simpa using List.all_eq_true.1 List.all_takeWhile s hs
  have hreplicate := List.eq_replicate_of_mem hempty
  refine ⟨(p.pieces.reverse.takeWhile (· = "")).length, ?_⟩
  rw [← List.reverse_replicate, ← hreplicate, ← List.reverse_append, List.takeWhile_append_dropWhile,
    List.reverse_reverse]

theorem foldlM_follow_void {l : Location} (h : t.entry? l = some .dir) (n : Nat) :
    (List.replicate n "").foldlM t.follow l = .ok l := by
  induction n with
  | zero => rfl
  | succ n ih =>
    rw [List.replicate_succ, List.foldlM_cons]
    exact bind_eq_ok_iff.2 ⟨l, follow_eq_ok_iff.2 ⟨h, .inl ⟨rfl, rfl⟩⟩, ih⟩

theorem isDir_of_makeDir (h : t.makeDir p = .ok t') : t'.isDir p = true := by
  have hkeeps := (grows_makeDir (fun _ => False) h).toKeeps
  obtain ⟨s, hspot, hnamed, -, rfl⟩ := makeDir_eq_ok_iff.1 h
  have hplaced := placed_of_spot hspot hnamed
  obtain ⟨before, last, dir, hrefused, hkept, hfollow, hentry, hdot, hup, hlong, rfl⟩ :=
    spot_named hspot hnamed
  have hput : entry? (t.put (dir ++ [last]) .dir) (dir ++ [last]) = some .dir := by
    rw [entry?_put ((Entries.fits_iff _ _ _).2 ⟨hplaced, fun _ => rfl⟩), if_pos rfl]
  obtain ⟨n, hpieces⟩ := exists_pieces_eq_kept p
  have hlast : (t.put (dir ++ [last]) .dir).follow dir last = .ok (dir ++ [last]) := by
    have hvoid : Path.isVoid last = false := by simp [Path.isVoid, (kept_spec hkept).1, hdot]
    exact follow_eq_ok_iff.2
      ⟨hkeeps.dirs dir hentry, .inr (.inr ⟨hvoid, hup, hlong, by simp [hput], rfl⟩)⟩
  refine isDir_iff.2 ⟨dir ++ [last], locate_eq_ok_iff.2 ⟨hrefused, ?_⟩, hput⟩
  rw [hpieces, hkept, List.append_assoc, List.foldlM_append]
  refine bind_eq_ok_iff.2 ⟨dir, hkeeps.origin_eq p ▸ hkeeps.foldlM_follow hfollow, ?_⟩
  rw [List.cons_append, List.nil_append, List.foldlM_cons]
  exact bind_eq_ok_iff.2 ⟨_, hlast, foldlM_follow_void hput n⟩

theorem makeDir_of_isDir (h : t.isDir p = true) : t.makeDir p = .error .alreadyExists := by
  obtain ⟨l, hlocate, hdir⟩ := isDir_iff.1 h
  obtain ⟨hrefused, hfold⟩ := locate_eq_ok_iff.1 hlocate
  have hspot : ∃ s, t.spot p = .ok s ∧ (s.named = false ∨ (t.entry? s.location).isSome) := by
    -- The path to the directory leads to its spot as well: the last name is all that the spot leaves out.
    obtain ⟨n, hpieces⟩ := exists_pieces_eq_kept p
    unfold spot
    rw [hrefused]
    dsimp only
    rcases List.eq_nil_or_concat (p.pieces.reverse.dropWhile (· = "")).reverse with
      hkept | ⟨before, last, hkept⟩
    · exact ⟨_, by rw [hkept]; rfl, .inl rfl⟩
    rw [List.concat_eq_append] at hkept
    rw [hpieces, hkept, List.append_assoc, List.foldlM_append] at hfold
    obtain ⟨dir, hfollow, hfold⟩ := bind_eq_ok_iff.1 hfold
    rw [List.cons_append, List.nil_append, List.foldlM_cons] at hfold
    obtain ⟨here, hlast, -⟩ := bind_eq_ok_iff.1 hfold
    obtain ⟨hentry, hcases⟩ := follow_eq_ok_iff.1 hlast
    let slash := decide ((before ++ [last]).length < p.pieces.length)
    rw [hkept]
    simp only [List.getLast?_append, List.getLast?_singleton, Option.some_or, List.dropLast_concat]
    by_cases hdots : last = "." ∨ last = ".."
    · refine ⟨⟨dir, false, slash⟩, bind_eq_ok_iff.2 ⟨dir, hfollow, ?_⟩, .inl rfl⟩
      rw [if_neg (by simp [holdsDir_iff.2 hentry]), if_pos hdots]
    · rw [not_or] at hdots
      have hvoid : Path.isVoid last = false := by simp [Path.isVoid, (kept_spec hkept).1, hdots.1]
      obtain ⟨-, -, hlong, hstands, rfl⟩ :=
        (hcases.resolve_left (by simp [hvoid])).resolve_left (by simp [hdots.2])
      refine ⟨⟨dir ++ [last], true, slash⟩, bind_eq_ok_iff.2 ⟨dir, hfollow, ?_⟩, .inr hstands⟩
      rw [if_neg (by simp [holdsDir_iff.2 hentry]), if_neg (by simp [hdots]),
        if_neg (Nat.not_lt.2 hlong)]
  obtain ⟨s, hs, hstands⟩ := hspot
  refine bind_eq_error_iff.2 (.inr ⟨s, hs, ?_⟩)
  rw [if_pos (by simpa using hstands)]

theorem isDir_of_settle (h : t.settle p (t.makeDir p) = (none, t')) : t'.isDir p = true := by
  cases hmade : t.makeDir p with
  | ok b =>
    rw [hmade] at h
    obtain rfl : b = t' := (Prod.mk.inj h).2
    exact isDir_of_makeDir hmade
  | error f =>
    rw [hmade, settle] at h
    split at h
    · next hdir => rwa [← (Prod.mk.inj h).2]
    · cases (Prod.mk.inj h).1

theorem isDir_of_makeDirs {above : List Path} (htext : p.text ≠ "")
    (h : t.makeDirs (p :: above) = (none, t')) : t'.isDir p = true := by
  unfold makeDirs at h
  rw [if_neg htext] at h
  split at h
  · split at h
    · cases (Prod.mk.inj h).1
    · exact isDir_of_settle h
  · exact isDir_of_settle h

theorem makeDirs_again {dirs : List Path} (h : t.makeDirs dirs = (none, t')) (hkeeps : Keeps t' c) :
    c.makeDirs dirs = (none, c) := by
  cases dirs with
  | nil => cases (Prod.mk.inj h).1
  | cons p above =>
    unfold makeDirs
    split
    · rfl
    · next htext =>
      have hstands := hkeeps.isDir (isDir_of_makeDirs htext h)
      rw [makeDir_of_isDir hstands]
      dsimp only
      rw [settle, if_pos hstands]

theorem makeParent_eq_none_iff {dir : Path} (hdir : p.parent? = some dir) :
    t.makeParent p = (none, t') ↔ t.makeDirs dir.ancestors = (none, t') := by
  unfold makeParent
  rw [hdir]
  dsimp only
  rcases t.makeDirs dir.ancestors with ⟨_ | f, made⟩ <;> simp

theorem makeParent_again (h : t.makeParent p = (none, t')) (hkeeps : Keeps t' c) :
    c.makeParent p = (none, c) := by
  cases hdir : p.parent? with
  | none => simp [makeParent, hdir]
  | some dir =>
    rw [makeParent_eq_none_iff hdir] at h ⊢
    exact makeDirs_again h hkeeps

theorem run_ensureParent (p : Path) (t : FileTree) :
    (ensureParent p).run t =
      match t.makeParent p with
      | (some (dir, f), t') => (.error (.io dir f), t')
      | (none, t') => (.ok (), t') := by
  unfold ensureParent
  rw [Step.run_get_bind]
  dsimp only
  rcases t.makeParent p with ⟨_ | ⟨dir, f⟩, t'⟩ <;> rfl

/-- Above a name that can be given to an entry stands the directory. -/
theorem isDir_parent_of_spot {s : Spot} (h : t.spot p = .ok s) (hnamed : s.named = true) {above : Path}
    (hparent : p.parent? = some above) (hne : above.text ≠ "") : t.isDir above = true := by
  obtain ⟨before, last, dir, hrefused, hkept, hfollow, hentry, hdot, hup, -, -⟩ := spot_named h hnamed
  obtain ⟨n, hpieces⟩ := exists_pieces_eq_kept p
  have hvoid : Path.isVoid last = false := by simp [Path.isVoid, (kept_spec hkept).1, hdot]
  have hlast : p.pieces.filterMap Component.ofPiece? = before.filterMap Component.ofPiece? ++ [.name last] := by
    have hnone : (List.replicate n "").filterMap Component.ofPiece? = [] :=
      List.filterMap_eq_nil_iff.2 fun s hs => by rw [List.eq_of_mem_replicate hs]; rfl
    rw [hpieces, hkept, List.filterMap_append, hnone, List.append_nil, List.filterMap_append,
      List.filterMap_cons_some (Component.ofPiece?_eq_name hvoid hup), List.filterMap_nil]
  have hnames : p.components = (p.lead?.toList ++ before.filterMap Component.ofPiece?) ++ [.name last] := by
    rw [Path.components, hlast, List.append_assoc]
  obtain ⟨dir', hparent', hcomponents⟩ := Path.exists_parent hnames
  obtain rfl := Option.some.inj (hparent.symm.trans hparent')
  have habove : above.pieces.filterMap Component.ofPiece? = before.filterMap Component.ofPiece? := by
    have hsame := p.filter_components
    rw [hlast, Path.components, hlast, ← List.append_assoc, ← hcomponents, List.filter_append,
      above.filter_components] at hsame
    exact List.append_inj_left' hsame (by simp)
  obtain ⟨rest, htext⟩ := Path.exists_text_of_parent? hparent
  refine isDir_iff.2 ⟨dir, locate_eq_ok_iff.2 ⟨refusal?_of_text hrefused htext hne, ?_⟩, hentry⟩
  rwa [origin, Path.isAbsolute_of_parent? hparent, ← origin, foldlM_follow_dir_iff hentry, habove,
    ← foldlM_follow_dir_iff hentry]

/-- Where a name can be given to an entry, no directory is made any more. -/
theorem run_ensureParent_of_spot {s : Spot} (h : t.spot p = .ok s) (hnamed : s.named = true) :
    (ensureParent p).run t = (.ok (), t) := by
  have hmade : t.makeParent p = (none, t) := by
    cases hparent : p.parent? with
    | none => simp [makeParent, hparent]
    | some above =>
      rw [makeParent_eq_none_iff hparent, Path.ancestors, Path.ancestors.go, makeDirs]
      split
      · rfl
      · next hne =>
        have hdir := isDir_parent_of_spot h hnamed hparent hne
        rw [makeDir_of_isDir hdir]
        dsimp only
        rw [settle, if_pos hdir]
  rw [run_ensureParent, hmade]

/-- The directories above a file that were made once stand from then on. -/
theorem ensureParent_again {u : Unit} (h : (ensureParent p).run a = (.ok u, b)) :
    Extends a b ∧ ∀ c, Keeps b c → (ensureParent p).run c = (.ok (), c) := by
  have hgrows : Grows (fun _ => False) a ((ensureParent p).after a) := grows_ensureParent _ a
  rw [Step.after, h] at hgrows
  refine ⟨hgrows.extends, fun c hkeeps => ?_⟩
  rw [run_ensureParent] at h ⊢
  rcases hmade : a.makeParent p with ⟨_ | _, made⟩
  · rw [hmade] at h
    obtain rfl : made = b := (Prod.mk.inj h).2
    rw [makeParent_again hmade hkeeps]
  · rw [hmade] at h
    cases (Prod.mk.inj h).1

theorem run_commit_eq_ok_iff {changed : Except Fault FileTree} :
    (commit p changed).run a = (.ok (), b) ↔ changed = .ok b := by
  cases changed with
  | ok t => exact ⟨fun h => congrArg _ (Prod.mk.inj h).2, fun h => congrArg _ (Except.ok.inj h)⟩
  | error f => exact ⟨fun h => (nomatch (Prod.mk.inj h).1), nofun⟩

/-- A path that ends in a name is spotted where it leads. -/
theorem spot_of_locate {before : List String} {n : String} (hn : Entries.isName n = true)
    (hpieces : p.pieces = before ++ [n]) {l : Location} (h : t.locate p = .ok l) :
    t.spot p = .ok ⟨l, true, false⟩ := by
  obtain ⟨hempty, hdot, hup, -⟩ := Entries.isName_iff.1 hn
  have hvoid : Path.isVoid n = false := by simp [Path.isVoid, hempty, hdot]
  obtain ⟨hrefused, dir, hfollow, hlast⟩ := (locate_concat_eq_ok_iff hpieces).1 h
  obtain ⟨hentry, hcases⟩ := follow_eq_ok_iff.1 hlast
  obtain ⟨-, -, hlong, -, rfl⟩ := (hcases.resolve_left (by simp [hvoid])).resolve_left (by simp [hup])
  have hkept : (p.pieces.reverse.dropWhile (· = "")).reverse = before ++ [n] := by
    simp [hpieces, hempty]
  unfold spot
  rw [hrefused]
  dsimp only
  rw [hkept, hpieces]
  simp only [List.getLast?_append, List.getLast?_singleton, Option.some_or, List.dropLast_concat]
  refine bind_eq_ok_iff.2 ⟨dir, hfollow, ?_⟩
  rw [if_neg (by simp [holdsDir_iff.2 hentry]), if_neg (by simp [hdot, hup]), if_neg (Nat.not_lt.2 hlong)]
  simp

section

variable {before : List String} {n : String} (hn : Entries.isName n = true)
  (hpieces : p.pieces = before ++ [n])

include hn hpieces

theorem run_ensureParent_of_locate {l : Location} (h : t.locate p = .ok l) :
    (ensureParent p).run t = (.ok (), t) :=
  run_ensureParent_of_spot (spot_of_locate hn hpieces h) rfl

/-- To write into a file what it holds changes nothing. -/
theorem Holds.write_eq {text : String} (h : t.Holds p text) : t.write p text.toUTF8 = .ok t := by
  obtain ⟨l, hl, hfile⟩ := h
  have hspot := spot_of_locate hn hpieces hl
  have hdir := holdsDir_eq_false_of_file? (Option.isSome_of_eq_some hfile)
  refine write_eq_ok_iff.2 ⟨_, hspot, rfl, rfl, hdir, ext_of_entry (home_put t l _).symm fun k => ?_⟩
  rw [entry?_put_file hspot rfl hdir]
  split
  · next hk => rw [← hk, entry?_eq_of_file? hfile]
  · rfl

end

theorem foldlM_follow_ne_alreadyExists (pieces : List String) (here : Location) :
    pieces.foldlM t.follow here ≠ .error .alreadyExists := by
  induction pieces generalizing here with
  | nil => exact nofun
  | cons piece pieces ih =>
    intro h
    rw [List.foldlM_cons] at h
    rcases bind_eq_error_iff.1 h with hstep | ⟨next, -, hrest⟩
    · unfold follow at hstep
      repeat' split at hstep
      all_goals cases hstep
    · exact ih next hrest

theorem spot_ne_alreadyExists : t.spot p ≠ .error .alreadyExists := by
  intro h
  unfold spot at h
  split at h
  · next f hrefused =>
    obtain rfl := Except.error.inj h
    unfold refusal? at hrefused
    repeat' split at hrefused
    all_goals cases hrefused
  · dsimp only at h
    split at h
    · cases h
    · rcases bind_eq_error_iff.1 h with hfollow | ⟨dir, -, h⟩
      · exact foldlM_follow_ne_alreadyExists _ _ hfollow
      · repeat' split at h
        all_goals cases h

/-- When creating a file finds it there: the path ends in dots, or something has its name. -/
theorem create_eq_exists_iff :
    t.create p = .error .alreadyExists ↔ ∃ s, t.spot p = .ok s ∧
      (s.named = false ∨ s.slash = false ∧ (t.entry? s.location).isSome) := by
  unfold create
  rw [bind_eq_error_iff, or_iff_right spot_ne_alreadyExists]
  refine exists_congr fun s => and_congr_right fun _ => ?_
  cases s.named <;> cases s.slash <;> cases t.entry? s.location <;> simp

theorem create_eq_exists {before : List String} {n : String} (hn : Entries.isName n = true)
    (hpieces : p.pieces = before ++ [n]) (h : t.present p = true) : t.create p = .error .alreadyExists := by
  obtain ⟨l, hl, hstands⟩ := present_iff.1 h
  exact create_eq_exists_iff.2 ⟨_, spot_of_locate hn hpieces hl, .inr ⟨rfl, hstands⟩⟩

theorem run_ensureFile_cases {made : Bool} (h : (ensureFile p).run a = (.ok made, b)) :
    ∃ above, (ensureParent p).run a = (.ok (), above) ∧
      (made = true ∧ above.create p = .ok b ∨
        made = false ∧ above.create p = .error .alreadyExists ∧ b = above) := by
  obtain ⟨_, above, hparent, h⟩ := Step.run_bind_eq_ok_iff.1 h
  refine ⟨above, hparent, ?_⟩
  rw [Step.run_get_bind] at h
  cases hcreate : above.create p with
  | ok t =>
    rw [hcreate] at h
    obtain ⟨hmade, rfl⟩ := Prod.mk.inj h
    exact .inl ⟨(Except.ok.inj hmade).symm, rfl⟩
  | error f =>
    rw [hcreate] at h
    cases f with
    | alreadyExists =>
      obtain ⟨hmade, rfl⟩ := Prod.mk.inj h
      exact .inr ⟨(Except.ok.inj hmade).symm, rfl, rfl⟩
    | _ => cases (Prod.mk.inj h).1

/-- Where a file was ensured, nothing is created any more. -/
theorem ensureFile_again {made : Bool} (h : (ensureFile p).run a = (.ok made, b)) :
    Extends a b ∧ ∀ c, Keeps b c → (ensureFile p).run c = (.ok false, c) := by
  obtain ⟨above, hparent, hcases⟩ := run_ensureFile_cases h
  obtain ⟨habove, hagain⟩ := ensureParent_again hparent
  obtain ⟨hextends, hplace⟩ : Extends above b ∧ ∀ c, Keeps b c →
      c.create p = .error .alreadyExists := by
    rcases hcases with ⟨-, hcreate⟩ | ⟨-, hcreate, rfl⟩
    · obtain ⟨s, hspot, hnamed, hslash, hfree, rfl⟩ := create_eq_ok_iff.1 hcreate
      have hentry := entry?_put_file hspot hnamed (by simp [holdsDir, hfree]) .empty
      have hextends : Extends above (above.put s.location (.file .empty)) := by
        refine ⟨home_put above _ _, fun l e he => ?_⟩
        rw [hentry, if_neg (by rintro rfl; simp [hfree] at he), he]
      refine ⟨hextends, fun c hkeeps => create_eq_exists_iff.2 ⟨s, ?_, .inr ⟨hslash, ?_⟩⟩⟩
      · exact (hextends.toKeeps.trans hkeeps).spot hspot
      · exact hkeeps.stands (by simp [hentry])
    · refine ⟨.refl b, fun c hkeeps => ?_⟩
      obtain ⟨s, hspot, hstands⟩ := create_eq_exists_iff.1 hcreate
      exact create_eq_exists_iff.2
        ⟨s, hkeeps.spot hspot, hstands.imp_right (And.imp_right hkeeps.stands)⟩
  refine ⟨habove.trans hextends, fun c hkeeps => ?_⟩
  have hkeeps' := hextends.toKeeps.trans hkeeps
  refine Step.run_bind_eq_ok_iff.2 ⟨(), c, hagain c hkeeps', ?_⟩
  rw [Step.run_get_bind, hplace c hkeeps]
  rfl

end WrapperGen.FileTree
