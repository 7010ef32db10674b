import WrapperGen.Placement
import WrapperGen.Proofs.Path.Components

/-!
# Places of files

Where the files of a class lie: below the output root, in the directories its unit path names. The way
from a directory to a file goes up to where the two part and down from there.
-/

namespace WrapperGen

open Entries (isName)

namespace Target

/-- What the name of a generated module has before the extension. -/
def mark : Target → String
  | javascript => ".autogen"
  | python => "_autogen"

theorem generatedSuffix_eq (target : Target) :
    target.generatedSuffix = target.mark ++ target.moduleExtension := by
  cases target <;> rfl

end Target

namespace UnitPath

/-- The names of the directories a unit path leads through. -/
def dirs (unitPath : String) : List String := (Text.pieces '/' (normalize unitPath)).dropLast

theorem mem_of_mem_stem {c : Char} {segment : List Char} (h : c ∈ stem segment) : c ∈ segment := by
  unfold stem at h
  split at h
  · exact h
  · exact h
  · next d rest _ hdrop =>
    have hsuffix : d :: rest <:+ segment.reverse := hdrop ▸ List.dropWhile_suffix _
    have hmem : c ∈ segment.reverse :=
      hsuffix.subset (List.mem_cons_of_mem d (List.mem_reverse.1 h))
    exact List.mem_reverse.1 hmem

theorem mem_stemLast {segments : List (List Char)} {s : List Char} (h : s ∈ stemLast segments) :
    ∃ segment ∈ segments, ∀ c ∈ s, c ∈ segment := by
  fun_induction stemLast segments with
  | case1 => simp at h
  | case2 segment =>
    obtain rfl := List.mem_singleton.1 h
    exact ⟨segment, by simp, fun c hc => mem_of_mem_stem hc⟩
  | case3 segment rest _ ih =>
    rcases List.mem_cons.1 h with rfl | h
    · exact ⟨s, by simp, fun c hc => hc⟩
    · obtain ⟨t, ht, hsub⟩ := ih h
      exact ⟨t, List.mem_cons_of_mem _ ht, hsub⟩

theorem dropLast_stemLast (segments : List (List Char)) :
    (stemLast segments).dropLast = segments.dropLast := by
  fun_induction stemLast segments with
  | case1 => rfl
  | case2 => rfl
  | case3 segment rest hrest ih =>
    have hne : rest ≠ [] := by simpa using hrest
    have hne' : stemLast rest ≠ [] := by
      cases rest with
      | nil => exact absurd rfl hne
      | cons t r => cases r <;> simp [stemLast]
    rw [List.dropLast_cons_of_ne_nil hne, List.dropLast_cons_of_ne_nil hne', ih]

theorem mem_segments {path segment : List Char} (h : segment ∈ segments path) :
    isName segment = true ∧ '/' ∉ segment := by
  obtain ⟨hmem, hname⟩ := List.mem_filter.1 h
  exact ⟨hname, Text.not_mem_of_mem_splitOn hmem⟩

/-- The directories of a unit path are the named segments before the last one, as they are written. -/
theorem dirs_eq (unitPath : String) :
    dirs unitPath = (segments unitPath.toList).dropLast.map String.ofList := by
  have hslash : ∀ s ∈ stemLast (segments unitPath.toList), '/' ∉ s := by
    intro s hs hmem
    obtain ⟨segment, hsegment, hsub⟩ := mem_stemLast hs
    exact (mem_segments hsegment).2 (hsub _ hmem)
  rw [← dropLast_stemLast, dirs, normalize, Text.pieces, String.toList_ofList]
  by_cases hnil : stemLast (segments unitPath.toList) = []
  · simp [hnil]
  · rw [List.splitOn_intercalate '/' hslash hnil, List.map_dropLast]

theorem isName_of_mem_dirs {unitPath name : String} (h : name ∈ dirs unitPath) :
    Entries.isName name = true := by
  rw [dirs_eq] at h
  obtain ⟨segment, hsegment, rfl⟩ := List.mem_map.1 h
  obtain ⟨hname, hslash⟩ := mem_segments (List.dropLast_subset _ hsegment)
  have hne : ∀ s : String, segment ≠ s.toList → String.ofList segment ≠ s := by
    intro s hs he
    exact hs (by simpa using congrArg String.toList he)
  obtain ⟨⟨hempty, hdot⟩, hdots⟩ : (segment ≠ [] ∧ segment ≠ ['.']) ∧ segment ≠ ['.', '.'] := by
    simpa [isName] using hname
  exact Entries.isName_iff.2
    ⟨hne "" hempty, hne "." hdot, hne ".." hdots, by simpa using hslash⟩

end UnitPath

namespace Path

/-- What of a path says where it leads: a leading dot does not. -/
def place (p : Path) : List Component := p.components.filter (· ≠ .current)

theorem components_foldl_child (p : Path) {names : List String} (h : ∀ n ∈ names, isName n = true) :
    (names.foldl child p).components = p.components ++ names.map .name := by
  induction names generalizing p with
  | nil => simp
  | cons n names ih =>
    rw [List.foldl_cons, ih _ fun m hm => h m (List.mem_cons_of_mem _ hm),
      components_child p (h n List.mem_cons_self)]
    simp

theorem place_of_components {p root : Path} {names : List String}
    (h : p.components = root.components ++ names.map .name) :
    p.place = root.place ++ names.map .name := by
  rw [place, h, List.filter_append]
  congr 1
  rw [List.filter_eq_self]
  intro c hc
  obtain ⟨n, -, rfl⟩ := List.mem_map.1 hc
  rfl

end Path

namespace Placement

theorem components_classDir (p : Placement) (unitPath : String) :
    (p.classDir unitPath).components = p.root.components ++ (UnitPath.dirs unitPath).map .name :=
  Path.components_foldl_child p.root fun _ hn => UnitPath.isName_of_mem_dirs hn

/-- A file of a class lies in the directory of the class. -/
theorem components_classFile (p : Placement) {className ending : String}
    (hname : isName (className ++ ending) = true) (unitPath : String) :
    ((p.classDir unitPath).child (className ++ ending)).components =
      p.root.components ++ (UnitPath.dirs unitPath ++ [className ++ ending]).map .name := by
  rw [Path.components_child _ hname, components_classDir]
  simp

theorem components_generatedPath (p : Placement) {className : String} (h : '/' ∉ className.toList)
    (unitPath : String) : (p.generatedPath className unitPath).components =
      p.root.components ++ (UnitPath.dirs unitPath ++ [className ++ p.target.generatedSuffix]).map .name := by
  refine p.components_classFile ?_ unitPath
  cases p.target <;> exact Entries.isName_append h (by decide) ⟨'a', by decide⟩

theorem components_overridePath (p : Placement) {className : String} (h : '/' ∉ className.toList)
    (unitPath : String) : (p.overridePath className unitPath).components =
      p.root.components ++ (UnitPath.dirs unitPath ++ [className ++ p.target.moduleExtension]).map .name := by
  refine p.components_classFile ?_ unitPath
  cases p.target
  · exact Entries.isName_append h (by decide) ⟨'j', by decide⟩
  · exact Entries.isName_append h (by decide) ⟨'p', by decide⟩

/-- What of a way is left after the part it has in common with another. -/
def beyond {α : Type} [DecidableEq α] : List α → List α → List α
  | a :: r, b :: s => if a = b then beyond r s else b :: s
  | _, way => way

section Beyond

variable {α : Type} [DecidableEq α]

theorem exists_shared (a b : List α) :
    ∃ shared, a = shared ++ beyond b a ∧ b = shared ++ beyond a b := by
  induction a generalizing b with
  | nil => cases b <;> exact ⟨[], by simp [beyond]⟩
  | cons c a ih =>
    cases b with
    | nil => exact ⟨[], by simp [beyond]⟩
    | cons d b =>
      by_cases h : c = d
      · subst h
        obtain ⟨shared, ha, hb⟩ := ih b
        exact ⟨c :: shared, by simpa [beyond] using ha, by simpa [beyond] using hb⟩
      · exact ⟨[], by simp [beyond, h, Ne.symm h]⟩

theorem beyond_append (shared a b : List α) : beyond (shared ++ a) (shared ++ b) = beyond a b := by
  induction shared with
  | nil => rfl
  | cons c shared ih => simpa [beyond] using ih

theorem beyond_map {β : Type} [DecidableEq β] {f : α → β} (hf : ∀ a b, f a = f b → a = b)
    (a b : List α) : beyond (a.map f) (b.map f) = (beyond a b).map f := by
  induction a generalizing b with
  | nil => cases b <;> rfl
  | cons c a ih =>
    cases b with
    | nil => rfl
    | cons d b =>
      by_cases h : c = d
      · simpa [beyond, h] using ih b
      · have hne : f c ≠ f d := fun he => h (hf c d he)
        simp [beyond, h, hne]

end Beyond

theorem common_eq (a b : List Component) :
    b.drop (common a b) = beyond a b ∧ a.length - common a b = (beyond b a).length := by
  induction a generalizing b with
  | nil => cases b <;> simp [common, beyond]
  | cons c a ih =>
    cases b with
    | nil => simp [common, beyond]
    | cons d b =>
      by_cases h : c = d
      · subst h
        simpa [common, beyond] using ih b
      · simp [common, beyond, h, Ne.symm h]

/-- From a directory below the root to a file below it: as many steps up as the directory has names of
its own, and the names the file has of its own. -/
theorem steps_eq {root dir file : Path} {dirNames fileNames : List String}
    (hdir : dir.components = root.components ++ dirNames.map .name)
    (hfile : file.components = root.components ++ fileNames.map .name) :
    steps dir file = ((beyond fileNames dirNames).length, beyond dirNames fileNames) := by
  have hinj : ∀ m n, Component.name m = .name n → m = n := fun _ _ => Component.name.inj
  have hsteps : steps dir file =
      ((beyond file.place dir.place).length, (beyond dir.place file.place).map Component.text) := by
    obtain ⟨hnames, hups⟩ := common_eq dir.place file.place
    rw [← hnames, ← hups]
    rfl
  rw [hsteps, Path.place_of_components hdir, Path.place_of_components hfile, beyond_append,
    beyond_append, beyond_map hinj, beyond_map hinj, List.length_map, List.map_map]
  have htext : Component.text ∘ Component.name = id := rfl
  rw [htext, List.map_id]

/-- A file below the root has a parent, which lies where the names before its own lead. -/
theorem exists_parent_of_file {root file : Path} {dirs : List String} {name : String}
    (hfile : file.components = root.components ++ (dirs ++ [name]).map .name) :
    ∃ dir, file.parent? = some dir ∧ dir.components = root.components ++ dirs.map .name := by
  have habove : file.components = root.components ++ dirs.map .name ++ [.name name] := by
    simpa using hfile
  exact Path.exists_parent habove

theorem isName_of_mem_beyond {root file : Path} {dirs names : List String}
    (hfile : file.components = root.components ++ names.map .name) :
    ∀ n ∈ beyond dirs names, isName n = true := by
  intro n hn
  obtain ⟨shared, -, hnames⟩ := exists_shared dirs names
  refine Path.isName_of_mem_components (p := file) ?_
  rw [hfile, hnames]
  simp [hn]

/-- A directory and a file below the root lie below a place where the ways to them part. -/
theorem exists_parting {root dir file : Path} {dirNames fileNames : List String}
    (hdir : dir.components = root.components ++ dirNames.map .name)
    (hfile : file.components = root.components ++ fileNames.map .name) :
    ∃ shared, dirNames = shared ++ beyond fileNames dirNames ∧
      fileNames = shared ++ beyond dirNames fileNames ∧
      dir.place = root.place ++ shared.map .name ++ (beyond fileNames dirNames).map .name ∧
      file.place = root.place ++ shared.map .name ++ (beyond dirNames fileNames).map .name := by
  obtain ⟨shared, hdirNames, hfileNames⟩ := exists_shared dirNames fileNames
  refine ⟨shared, hdirNames, hfileNames, ?_, ?_⟩
  · rw [Path.place_of_components hdir, List.append_assoc, ← List.map_append, ← hdirNames]
  · rw [Path.place_of_components hfile, List.append_assoc, ← List.map_append, ← hfileNames]

theorem take_above (above : List Component) (names : List String) :
    (above ++ names.map Component.name).take
      ((above ++ names.map Component.name).length - names.length) = above := by
  rw [List.length_append, List.length_map, Nat.add_sub_cancel, List.take_left' rfl]

end Placement
end WrapperGen
