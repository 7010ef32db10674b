import WrapperGen.Proofs.FileTree.Locate
import WrapperGen.Proofs.Host.Effects

/-!
# Growth of file trees

Writing files only makes a tree grow: directories stay directories, files stay files, and of the files
only those change that a written path leads to. What a path leads to in a tree it leads to in every
tree that comes from it.
-/

namespace WrapperGen.FileTree

variable {t t' a b c : FileTree} {p : Path} {r : Except Fault FileTree}

/-- The contents of the file at a location, if one stands there. -/
def file? (t : FileTree) (l : Location) : Option ByteArray :=
  match t.entry? l with
  | some (.file contents) => some contents
  | _ => none

/-- What stands in `a` stands in `b`: a directory as a directory, a file as a file. The working directory is
the same. -/
structure Keeps (a b : FileTree) : Prop where
  home : b.home = a.home
  dirs : ∀ l, a.entry? l = some .dir → b.entry? l = some .dir
  files : ∀ l, (a.file? l).isSome → (b.file? l).isSome

/-- `Grows S a b`: what stands in `a` stands in `b`, and only files that paths of `S` lead to are new in
`b` or have other contents there. -/
structure Grows (S : Path → Prop) (a b : FileTree) : Prop extends Keeps a b where
  changed : ∀ l, b.file? l = a.file? l ∨ ∃ q, S q ∧ b.locate q = .ok l

theorem entry?_of_ne_nil {l : Location} (h : l ≠ []) : t.entry? l = t.entries[l]? := by
  unfold entry? Entries.at?
  exact if_neg h

theorem file?_isSome_or {l : Location} (h : (t.entry? l).isSome) :
    t.entry? l = some .dir ∨ (t.file? l).isSome := by
  unfold file?
  cases he : t.entry? l with
  | none => simp [he] at h
  | some e => cases e <;> simp

theorem isSome_entry?_of_file? {l : Location} (h : (t.file? l).isSome) : (t.entry? l).isSome := by
  unfold file? at h
  cases he : t.entry? l with
  | none => simp [he] at h
  | some e => rfl

theorem Keeps.refl (t : FileTree) : Keeps t t := ⟨rfl, fun _ h => h, fun _ h => h⟩

theorem Keeps.trans (hab : Keeps a b) (hbc : Keeps b c) : Keeps a c :=
  ⟨hbc.home.trans hab.home, fun l h => hbc.dirs l (hab.dirs l h), fun l h => hbc.files l (hab.files l h)⟩

theorem Keeps.origin_eq (h : Keeps t t') (p : Path) : t'.origin p = t.origin p := by
  rw [origin, origin, h.home]

theorem Keeps.stands (h : Keeps t t') {l : Location} (hl : (t.entry? l).isSome) :
    (t'.entry? l).isSome := by
  rcases file?_isSome_or hl with hdir | hfile
  · simp [h.dirs l hdir]
  · exact isSome_entry?_of_file? (h.files l hfile)

theorem Keeps.entry?_eq_none (h : Keeps t t') {l : Location} (hl : t'.entry? l = none) :
    t.entry? l = none := by
  refine Option.not_isSome_iff_eq_none.1 fun hstands => ?_
  simpa [hl] using h.stands hstands

theorem Keeps.follow (h : Keeps t t') {here there : Location} {piece : String}
    (hl : t.follow here piece = .ok there) : t'.follow here piece = .ok there := by
  rw [follow_eq_ok_iff] at hl ⊢
  obtain ⟨hdir, hcases⟩ := hl
  refine ⟨h.dirs here hdir, ?_⟩
  rcases hcases with hstay | hup | ⟨hvoid, hup, hlong, hstands, hthere⟩
  · exact .inl hstay
  · exact .inr (.inl hup)
  · exact .inr (.inr ⟨hvoid, hup, hlong, h.stands hstands, hthere⟩)

theorem Keeps.foldlM_follow (h : Keeps t t') {here there : Location}
    {pieces : List String} (hl : pieces.foldlM t.follow here = .ok there) :
    pieces.foldlM t'.follow here = .ok there := by
  induction pieces generalizing here with
  | nil => exact hl
  | cons piece pieces ih =>
    rw [List.foldlM_cons] at hl ⊢
    obtain ⟨next, hstep, hrest⟩ := bind_eq_ok_iff.1 hl
    exact bind_eq_ok_iff.2 ⟨next, h.follow hstep, ih hrest⟩

theorem Keeps.locate (h : Keeps t t') {q : Path} {l : Location} (hl : t.locate q = .ok l) :
    t'.locate q = .ok l := by
  rw [locate_eq_ok_iff] at hl ⊢
  exact ⟨hl.1, h.origin_eq q ▸ h.foldlM_follow hl.2⟩

theorem Grows.refl (S : Path → Prop) (t : FileTree) : Grows S t t := ⟨.refl t, fun _ => .inl rfl⟩

theorem Grows.trans {S : Path → Prop} (hab : Grows S a b) (hbc : Grows S b c) : Grows S a c := by
  refine ⟨hab.toKeeps.trans hbc.toKeeps, fun l => ?_⟩
  rcases hbc.changed l with hl | hl
  · rcases hab.changed l with hl' | ⟨q, hq, hl'⟩
    · exact .inl (hl.trans hl')
    · exact .inr ⟨q, hq, hbc.locate hl'⟩
  · exact .inr hl

theorem Grows.mono {S T : Path → Prop} (h : Grows S t t') (sub : ∀ q, S q → T q) : Grows T t t' := by
  refine ⟨h.toKeeps, fun l => ?_⟩
  rcases h.changed l with hl | ⟨q, hq, hl⟩
  · exact .inl hl
  · exact .inr ⟨q, sub q hq, hl⟩

theorem Grows.append {S T : Path → Prop} (hab : Grows S a b) (hbc : Grows T b c) :
    Grows (fun q => S q ∨ T q) a c :=
  (hab.mono fun _ => .inl).trans (hbc.mono fun _ => .inr)

theorem entry?_put {l : Location} {e : Entry} (h : t.entries.fits l e = true) (k : Location) :
    entry? (t.put l e) k = if l = k then some e else t.entry? k := by
  have hne : l ≠ [] := by
    rintro rfl
    simp [Entries.fits] at h
  unfold put
  rw [dif_pos h]
  exact Entries.at?_insert t.entries l k e hne

theorem put_of_not_fits {l : Location} {e : Entry} (h : ¬ t.entries.fits l e = true) : t.put l e = t := by
  unfold put
  rw [dif_neg h]

@[simp] theorem home_put (t : FileTree) (l : Location) (e : Entry) : (t.put l e).home = t.home := by
  unfold put
  split <;> rfl

/-- A new directory changes no file. -/
theorem grows_put_dir (S : Path → Prop) {l : Location} (h : t.entry? l = none) :
    Grows S t (t.put l .dir) := by
  by_cases hfits : t.entries.fits l .dir = true
  · have hkeep : ∀ k, l ≠ k → entry? (t.put l .dir) k = t.entry? k := fun k hk => by
      rw [entry?_put hfits, if_neg hk]
    have hfile : ∀ k, (t.put l .dir).file? k = t.file? k := by
      intro k
      by_cases hk : l = k
      · subst hk
        simp [file?, h, entry?_put hfits]
      · simp [file?, hkeep k hk]
    refine ⟨⟨home_put t l .dir, fun k hk => ?_, fun k hk => by rwa [hfile]⟩, fun k => .inl (hfile k)⟩
    have hne : l ≠ k := by
      rintro rfl
      simp [h] at hk
    rwa [hkeep k hne]
  · rw [put_of_not_fits hfits]
    exact .refl S t

/-- A path leads to its spot once an entry stands there. -/
theorem locate_of_spot {s : Spot} (h : t.spot p = .ok s) (hnamed : s.named = true)
    (hslash : s.slash = false) (hkeeps : Keeps t t') (hstands : (t'.entry? s.location).isSome) :
    t'.locate p = .ok s.location := by
  obtain ⟨before, last, dir, hrefused, hpieces, hfollow, hentry, hvoid, hup, hlong, hlocation⟩ :=
    spot_eq_ok h hnamed hslash
  rw [hlocation] at hstands ⊢
  have hlast : t'.follow dir last = .ok (dir ++ [last]) :=
    follow_eq_ok_iff.2 ⟨hkeeps.dirs dir hentry, .inr (.inr ⟨hvoid, hup, hlong, hstands, rfl⟩)⟩
  exact (locate_concat_eq_ok_iff hpieces).2
    ⟨hrefused, dir, hkeeps.origin_eq p ▸ hkeeps.foldlM_follow hfollow, hlast⟩

/-- A new file in place of no directory takes nothing away. -/
theorem keeps_put_file {l : Location} (h : t.holdsDir l = false) (contents : ByteArray) :
    Keeps t (t.put l (.file contents)) := by
  by_cases hfits : t.entries.fits l (.file contents) = true
  · have hput := entry?_put hfits
    refine ⟨home_put t l _, fun k hk => ?_, fun k hk => ?_⟩
    · have hne : l ≠ k := by
        rintro rfl
        simp [holdsDir_iff.2 hk] at h
      rwa [hput, if_neg hne]
    · by_cases hl : l = k <;> simp_all [file?]
  · rw [put_of_not_fits hfits]
    exact .refl t

/-- A new file is the only one that changes, and its path leads there. -/
theorem grows_put_file {s : Spot} (h : t.spot p = .ok s) (hnamed : s.named = true)
    (hslash : s.slash = false) (hdir : t.holdsDir s.location = false) (contents : ByteArray) :
    Grows (· = p) t (t.put s.location (.file contents)) := by
  have hkeeps := keeps_put_file hdir contents
  refine ⟨hkeeps, fun k => ?_⟩
  by_cases hfits : t.entries.fits s.location (.file contents) = true
  · have hput := entry?_put hfits
    by_cases hk : s.location = k
    · subst hk
      exact .inr ⟨p, rfl, locate_of_spot h hnamed hslash hkeeps (by simp [hput])⟩
    · exact .inl (by simp only [file?, hput, if_neg hk])
  · rw [put_of_not_fits hfits]
    exact .inl rfl

/-- When a file can be written: to a name that no separator follows and no directory has. -/
theorem write_eq_ok_iff {contents : ByteArray} :
    t.write p contents = .ok t' ↔ ∃ s, t.spot p = .ok s ∧ s.named = true ∧ s.slash = false ∧
      t.holdsDir s.location = false ∧ t' = t.put s.location (.file contents) := by
  unfold write
  rw [bind_eq_ok_iff]
  refine exists_congr fun s => and_congr_right fun _ => ?_
  by_cases h : ¬ s.named = true ∨ s.slash = true ∨ t.holdsDir s.location = true
  · rw [if_pos h]
    simp only [reduceCtorEq, false_iff]
    rintro ⟨hnamed, hslash, hdir, -⟩
    simp [hnamed, hslash, hdir] at h
  · rw [if_neg h]
    simp only [not_or, Bool.not_eq_true] at h
    simp [h, eq_comm]

theorem create_eq_ok_iff :
    t.create p = .ok t' ↔ ∃ s, t.spot p = .ok s ∧ s.named = true ∧ s.slash = false ∧
      t.entry? s.location = none ∧ t' = t.put s.location (.file .empty) := by
  unfold create
  rw [bind_eq_ok_iff]
  refine exists_congr fun s => and_congr_right fun _ => ?_
  cases s.named <;> cases s.slash <;> cases t.entry? s.location <;> simp [eq_comm]

theorem makeDir_eq_ok_iff :
    t.makeDir p = .ok t' ↔ ∃ s, t.spot p = .ok s ∧ s.named = true ∧ t.entry? s.location = none ∧
      t' = t.put s.location .dir := by
  unfold makeDir
  rw [bind_eq_ok_iff]
  refine exists_congr fun s => and_congr_right fun _ => ?_
  cases s.named <;> cases t.entry? s.location <;> simp [eq_comm]

theorem grows_write {contents : ByteArray} (h : t.write p contents = .ok t') : Grows (· = p) t t' := by
  obtain ⟨s, hspot, hnamed, hslash, hdir, rfl⟩ := write_eq_ok_iff.1 h
  exact grows_put_file hspot hnamed hslash hdir contents

theorem grows_create (h : t.create p = .ok t') : Grows (· = p) t t' := by
  obtain ⟨s, hspot, hnamed, hslash, hfree, rfl⟩ := create_eq_ok_iff.1 h
  exact grows_put_file hspot hnamed hslash (by simp [holdsDir, hfree]) .empty

theorem grows_makeDir (S : Path → Prop) (h : t.makeDir p = .ok t') : Grows S t t' := by
  obtain ⟨s, -, -, hfree, rfl⟩ := makeDir_eq_ok_iff.1 h
  exact grows_put_dir S hfree

theorem grows_settle (S : Path → Prop) (h : ∀ b, r = .ok b → Grows S t b) :
    Grows S t (t.settle p r).2 := by
  cases r with
  | ok b => exact h b rfl
  | error f =>
    unfold settle
    dsimp only
    split <;> exact .refl S t

theorem grows_makeDirs (S : Path → Prop) (dirs : List Path) : Grows S t (t.makeDirs dirs).2 := by
  induction dirs generalizing t with
  | nil => exact .refl S t
  | cons p above ih =>
    unfold makeDirs
    split
    · exact .refl S t
    · split
      · -- The directories above are made first, and what of them was made stays.
        have habove := ih (t := t)
        split
        · next f made hmade => rwa [hmade] at habove
        · next made hmade =>
          rw [hmade] at habove
          exact habove.trans (grows_settle S fun b hb => grows_makeDir S hb)
      · exact grows_settle S fun b hb => grows_makeDir S hb

theorem grows_makeParent (S : Path → Prop) (p : Path) : Grows S t (t.makeParent p).2 := by
  unfold makeParent
  split
  · exact .refl S t
  · exact grows_makeDirs S _

theorem grows_ensureParent (S : Path → Prop) (t : FileTree) : Grows S t ((ensureParent p).after t) := by
  have hafter : (ensureParent p).after t = (t.makeParent p).2 := by
    unfold ensureParent
    rw [Step.after_get_bind]
    dsimp only
    rcases t.makeParent p with ⟨_ | ⟨dir, f⟩, b⟩ <;> rfl
  rw [hafter]
  exact grows_makeParent S p

end WrapperGen.FileTree
