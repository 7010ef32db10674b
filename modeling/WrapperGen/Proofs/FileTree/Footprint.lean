import WrapperGen.Proofs.FileTree.Rewriting

/-!
# Footprints

What a run leaves in a file tree, as far as it tells: the paths it names lead to files afterwards, and no
other file is new or changed. A path at which a file is only created leads to where nothing stood.
-/

namespace WrapperGen.FileTree

variable {a b c : FileTree} {p : Path} {N S T : Path → Prop}

/-- `Footprint N S a b`: from `a` to `b` the tree grows by files at the paths of `S`, all of which stand
in `b`. Only at paths of `N` may a file have been written over. -/
structure Footprint (N S : Path → Prop) (a b : FileTree) : Prop extends Grows S a b where
  listed : ∀ p, S p → b.isFile p = true
  fresh : ∀ p l, S p → ¬ N p → b.locate p = .ok l → a.entry? l = none

namespace Footprint

theorem refl (N : Path → Prop) (t : FileTree) : Footprint N (fun _ => False) t t :=
  ⟨.refl _ t, nofun, nofun⟩

theorem of_grows (h : Grows (fun _ => False) a b) : Footprint N (fun _ => False) a b :=
  ⟨h, nofun, nofun⟩

theorem trans (hab : Footprint N S a b) (hbc : Footprint N T b c) :
    Footprint N (fun p => S p ∨ T p) a c := by
  refine ⟨hab.toGrows.append hbc.toGrows, fun p hp => ?_, fun p l hp hnew hl => ?_⟩
  · exact hp.elim (fun hs => hbc.toKeeps.isFile (hab.listed p hs)) (hbc.listed p)
  · rcases hp with hs | ht
    · -- The path leads where it led when it was written.
      obtain ⟨l', hl', -⟩ := isFile_iff.1 (hab.listed p hs)
      obtain rfl : l' = l := Except.ok.inj ((hbc.toKeeps.locate hl').symm.trans hl)
      exact hab.fresh p l' hs hnew hl'
    · exact hab.toKeeps.entry?_eq_none (hbc.fresh p l ht hnew hl)

theorem congr (h : Footprint N S a b) (hiff : ∀ p, T p ↔ S p) : Footprint N T a b := by
  obtain rfl : T = S := funext fun p => propext (hiff p)
  exact h

end Footprint

theorem grows_of_run_ensureParent {u : Unit} (h : (ensureParent p).run a = (.ok u, b)) :
    Grows (fun _ => False) a b := by
  have hgrows : Grows (fun _ => False) a ((ensureParent p).after a) := grows_ensureParent _ a
  rwa [Step.after, h] at hgrows

/-- A path leads to the file that is put at its spot. -/
theorem isFile_put_spot {s : Spot} (h : b.spot p = .ok s) (hnamed : s.named = true)
    (hslash : s.slash = false) (hdir : b.holdsDir s.location = false) (contents : ByteArray) :
    (b.put s.location (.file contents)).locate p = .ok s.location ∧
      (b.put s.location (.file contents)).isFile p = true := by
  have hentry := entry?_put_file h hnamed hdir contents s.location
  rw [if_pos rfl] at hentry
  have hlocate := locate_of_spot h hnamed hslash (keeps_put_file hdir contents) (by simp [hentry])
  exact ⟨hlocate, isFile_iff.2 ⟨_, hlocate, by simp [file?_of_entry_eq hentry]⟩⟩

theorem footprint_write (hover : N p) {contents : ByteArray} (h : a.write p contents = .ok b) :
    Footprint N (· = p) a b := by
  obtain ⟨s, hspot, hnamed, hslash, hdir, hb⟩ := write_eq_ok_iff.1 h
  have hfile := (isFile_put_spot hspot hnamed hslash hdir contents).2
  exact ⟨grows_write h, fun q hq => by rwa [hq, hb], fun q l hq hnot => absurd (hq ▸ hover) hnot⟩

/-- A file is created only if nothing stood in its place. -/
theorem footprint_create (h : a.create p = .ok b) : Footprint N (· = p) a b := by
  obtain ⟨s, hspot, hnamed, hslash, hfree, hb⟩ := create_eq_ok_iff.1 h
  obtain ⟨hlocate, hfile⟩ := isFile_put_spot hspot hnamed hslash (by simp [holdsDir, hfree]) .empty
  rw [← hb] at hlocate hfile
  refine ⟨grows_create h, fun q hq => hq ▸ hfile, fun q l hq _ hl => ?_⟩
  obtain rfl : s.location = l := Except.ok.inj (hlocate.symm.trans (hq ▸ hl))
  exact hfree

/-- A file that is ensured is told of only if nothing stood in its place. -/
theorem footprint_ensureFile {made : Bool} (h : (ensureFile p).run a = (.ok made, b)) :
    Footprint N (fun q => made = true ∧ q = p) a b := by
  obtain ⟨above, hparent, ⟨rfl, hcreate⟩ | ⟨rfl, -, rfl⟩⟩ := run_ensureFile_cases h
  · have hmade := Footprint.of_grows (N := N) (grows_of_run_ensureParent hparent)
    exact (hmade.trans (footprint_create hcreate)).congr (by simp)
  · exact (Footprint.of_grows (grows_of_run_ensureParent hparent)).congr (by simp)

end WrapperGen.FileTree
