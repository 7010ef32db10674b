import WrapperGen.Proofs.FileTree.Growth

/-!
# Writes to file trees

What is put in a tree at a spot is the only entry that changes. Where something stands at the end of a path
it stands there in every tree that comes from the present one.
-/

namespace WrapperGen.FileTree

variable {t t' a b c : FileTree} {p : Path}

/-- What stands in `a` stands in `b` as it was. -/
structure Extends (a b : FileTree) : Prop where
  home : b.home = a.home
  stands : ∀ l e, a.entry? l = some e → b.entry? l = some e

theorem entry?_eq_of_file? {l : Location} {x : ByteArray} (h : t.file? l = some x) :
    t.entry? l = some (.file x) := by
  unfold file? at h
  split at h
  · next contents he => rw [he, Option.some.inj h]
  · exact nomatch h

theorem file?_of_entry_eq {l : Location} {x : ByteArray} (h : t.entry? l = some (.file x)) :
    t.file? l = some x := by
  simp [file?, h]

theorem file?_congr {l : Location} (h : b.entry? l = a.entry? l) : b.file? l = a.file? l := by
  simp [file?, h]

theorem Extends.refl (t : FileTree) : Extends t t := ⟨rfl, fun _ _ => id⟩

theorem Extends.trans (hab : Extends a b) (hbc : Extends b c) : Extends a c :=
  ⟨hbc.home.trans hab.home, fun l e h => hbc.stands l e (hab.stands l e h)⟩

theorem Extends.toKeeps (h : Extends a b) : Keeps a b := by
  refine ⟨h.home, fun l => h.stands l .dir, fun l hl => ?_⟩
  obtain ⟨x, hx⟩ := Option.isSome_iff_exists.1 hl
  simp [file?_of_entry_eq (h.stands l _ (entry?_eq_of_file? hx))]

theorem Grows.file?_eq {l : Location} (h : Grows (fun _ => False) a b) : b.file? l = a.file? l := by
  rcases h.changed l with hsame | ⟨_, hnone, _⟩
  · exact hsame
  · exact hnone.elim

/-- Where no file changes, all that stood stands as it was. -/
theorem Grows.extends (h : Grows (fun _ => False) a b) : Extends a b := by
  refine ⟨h.home, fun l e he => ?_⟩
  cases e with
  | dir => exact h.dirs l he
  | file x => exact entry?_eq_of_file? (h.file?_eq.trans (file?_of_entry_eq he))

/-- Two trees are equal if the same stands everywhere in them and they have one working directory. -/
theorem ext_of_entry (hhome : a.home = b.home) (h : ∀ l, a.entry? l = b.entry? l) : a = b := by
  have hentries : a.entries = b.entries := by
    refine Std.ExtTreeMap.ext_getElem? fun l => ?_
    by_cases hl : l = []
    · have htop : ∀ t : FileTree, t.entries[([] : Location)]? = none := by
        intro t
        refine Std.ExtTreeMap.getElem?_eq_none fun hmem => ?_
        obtain ⟨dir, name, hnil, -⟩ := t.placed [] hmem
        simp at hnil
      rw [hl, htop, htop]
    · rw [← entry?_of_ne_nil hl, h l, entry?_of_ne_nil hl]
  cases a
  cases b
  simpa using ⟨hentries, hhome⟩

theorem Keeps.spot {s : Spot} (h : Keeps t t') (hs : t.spot p = .ok s) : t'.spot p = .ok s := by
  unfold FileTree.spot at hs ⊢
  split at hs
  · exact nomatch hs
  · dsimp only at hs ⊢
    split at hs
    · exact hs
    · next last _ =>
      obtain ⟨dir, hfollow, hs⟩ := bind_eq_ok_iff.1 hs
      refine bind_eq_ok_iff.2 ⟨dir, h.origin_eq p ▸ h.foldlM_follow hfollow, ?_⟩
      by_cases hdir : t.holdsDir dir = true
      · have hdir' := holdsDir_iff.2 (h.dirs dir (holdsDir_iff.1 hdir))
        simpa [hdir, hdir'] using hs
      · simp [hdir] at hs

theorem holdsDir_eq_false_of_file? {l : Location} (h : (t.file? l).isSome) :
    t.holdsDir l = false := by
  obtain ⟨x, hx⟩ := Option.isSome_iff_exists.1 h
  simp [holdsDir, entry?_eq_of_file? hx, Entry.isDir]

/-- A spot with a name is one where an entry can be put. -/
theorem placed_of_spot {s : Spot} (h : t.spot p = .ok s) (hnamed : s.named = true) :
    t.entries.Placed s.location := by
  obtain ⟨before, last, dir, -, hkept, -, hentry, hdot, hup, -, rfl⟩ := spot_named h hnamed
  have hslash : '/' ∉ last.toList := by
    refine Path.not_mem_of_mem_pieces (p := p) ?_
    have hmem : last ∈ (p.pieces.reverse.dropWhile (· = "")).reverse := by simp [hkept]
    exact List.mem_reverse.1 ((List.dropWhile_subset _) (List.mem_reverse.1 hmem))
  exact ⟨dir, last, rfl, Entries.isName_iff.2 ⟨(kept_spec hkept).1, hdot, hup, hslash⟩, hentry⟩

/-- A new file in place of no directory is the only entry that changes. -/
theorem entry?_put_file {s : Spot} (h : t.spot p = .ok s) (hnamed : s.named = true)
    (hdir : t.holdsDir s.location = false) (contents : ByteArray) (k : Location) :
    entry? (t.put s.location (.file contents)) k =
      if s.location = k then some (.file contents) else t.entry? k := by
  refine entry?_put ((Entries.fits_iff _ _ _).2 ⟨placed_of_spot h hnamed, fun hplace => ?_⟩) k
  simp [holdsDir_iff.2 hplace] at hdir

/-- A file that is written is the only entry that changes, and its path leads there. -/
theorem exists_entry?_write {contents : ByteArray} (h : t.write p contents = .ok t') :
    ∃ l, t'.locate p = .ok l ∧ ∀ k, t'.entry? k = if l = k then some (.file contents) else t.entry? k := by
  obtain ⟨s, hspot, hnamed, hslash, hdir, rfl⟩ := write_eq_ok_iff.1 h
  have hentry := entry?_put_file hspot hnamed hdir contents
  refine ⟨s.location, ?_, hentry⟩
  exact locate_of_spot hspot hnamed hslash (keeps_put_file hdir contents) (by simp [hentry])

/-- A path leads to a file that holds a text. -/
def Holds (t : FileTree) (p : Path) (text : String) : Prop :=
  ∃ l, t.locate p = .ok l ∧ t.file? l = some text.toUTF8

theorem holds_of_write {text : String} (h : t.write p text.toUTF8 = .ok t') : t'.Holds p text := by
  obtain ⟨l, hl, hentry⟩ := exists_entry?_write h
  exact ⟨l, hl, file?_of_entry_eq ((hentry l).trans (if_pos rfl))⟩

theorem Holds.of_keeps {text : String} (h : a.Holds p text) (hkeeps : Keeps a b)
    (hfile : ∀ l, a.locate p = .ok l → b.file? l = a.file? l) : b.Holds p text := by
  obtain ⟨l, hl, htext⟩ := h
  exact ⟨l, hkeeps.locate hl, (hfile l hl).trans htext⟩

theorem isDir_iff : t.isDir p = true ↔ ∃ l, t.locate p = .ok l ∧ t.entry? l = some .dir := by
  unfold isDir find
  cases hlocate : t.locate p with
  | error f => simp [bind, Except.bind]
  | ok l =>
    cases he : t.entry? l with
    | none => simp [bind, Except.bind, he]
    | some e => cases e <;> simp [bind, Except.bind, he]

theorem Keeps.isDir (h : Keeps t t') (hdir : t.isDir p = true) : t'.isDir p = true := by
  obtain ⟨l, hl, he⟩ := isDir_iff.1 hdir
  exact isDir_iff.2 ⟨l, h.locate hl, h.dirs l he⟩

theorem isFile_iff : t.isFile p = true ↔ ∃ l, t.locate p = .ok l ∧ (t.file? l).isSome := by
  unfold isFile find file?
  cases hlocate : t.locate p with
  | error f => simp [bind, Except.bind]
  | ok l =>
    cases he : t.entry? l with
    | none => simp [bind, Except.bind, he]
    | some e => cases e <;> simp [bind, Except.bind, he]

theorem present_iff : t.present p = true ↔ ∃ l, t.locate p = .ok l ∧ (t.entry? l).isSome := by
  unfold present find
  cases hlocate : t.locate p with
  | error f => simp [bind, Except.bind, Except.isOk, Except.toBool]
  | ok l => cases he : t.entry? l <;> simp [bind, Except.bind, he, Except.isOk, Except.toBool]

theorem Keeps.present (h : Keeps t t') (hp : t.present p = true) : t'.present p = true := by
  obtain ⟨l, hl, he⟩ := present_iff.1 hp
  exact present_iff.2 ⟨l, h.locate hl, h.stands he⟩

theorem Keeps.isFile (h : Keeps t t') (hfile : t.isFile p = true) : t'.isFile p = true := by
  obtain ⟨l, hl, he⟩ := isFile_iff.1 hfile
  exact isFile_iff.2 ⟨l, h.locate hl, h.files l he⟩

end WrapperGen.FileTree
