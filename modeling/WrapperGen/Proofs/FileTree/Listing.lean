import Mathlib.Data.List.Induction
import WrapperGen.Proofs.FileTree.Growth
import WrapperGen.Proofs.Path.Order

/-!
# Listings of trees

What is below a location comes in the order of the locations, so a selection from it is the same in two
trees if it is the same at every location. That order is lexicographic, so a walk meets a directory before
what the directory holds, and nothing twice.
-/

namespace WrapperGen

/-- A selection from all entries is decided by what is selected at each location. -/
theorem Entries.filterMap_toList_eq {β : Type} {a b : Entries} {f g : Location → Entry → Option β}
    (h : ∀ k, a[k]?.bind (f k) = b[k]?.bind (g k)) :
    a.toList.filterMap (fun e => f e.1 e.2) = b.toList.filterMap fun e => g e.1 e.2 := by
  have hmaps : a.filterMap f = b.filterMap g := by
    refine Std.ExtTreeMap.ext_getElem? fun k => ?_
    rw [Std.ExtTreeMap.getElem?_filterMap', Std.ExtTreeMap.getElem?_filterMap', h]
  have hlists := congrArg (fun m : Std.ExtTreeMap Location β => m.toList.map (·.2)) hmaps
  simpa [Std.ExtTreeMap.toList_filterMap, List.map_filterMap, Option.map_map, Function.comp_def]
    using hlists

namespace FileTree

variable {β : Type} {a b t : FileTree} {l : Location}

theorem filterMap_below_eq {f g : List String × Entry → Option β}
    (h : ∀ names, names ≠ [] → ((a.entry? (l ++ names)).bind fun e => f (names, e)) =
      (b.entry? (l ++ names)).bind fun e => g (names, e)) :
    (a.below l).filterMap f = (b.below l).filterMap g := by
  unfold below
  rw [List.filterMap_filterMap, List.filterMap_filterMap]
  refine Entries.filterMap_toList_eq
    (f := fun k e => (if l.isPrefixOf k ∧ l ≠ k then some (k.drop l.length, e) else none).bind f)
    (g := fun k e => (if l.isPrefixOf k ∧ l ≠ k then some (k.drop l.length, e) else none).bind g)
    fun k => ?_
  by_cases hk : l.isPrefixOf k = true ∧ l ≠ k
  · obtain ⟨names, rfl⟩ := List.isPrefixOf_iff_prefix.1 hk.1
    have hnames : names ≠ [] := by
      rintro rfl
      exact hk.2 (by simp)
    have hne : l ++ names ≠ [] := by simp [hnames]
    have hat := h names hnames
    simp only [entry?_of_ne_nil hne] at hat
    simpa [hk.1, hnames] using hat
  · simp only [if_neg hk, Option.bind_none, Option.bind_fun_none]

theorem mem_below {names : List String} {e : Entry} :
    (names, e) ∈ t.below l ↔ names ≠ [] ∧ t.entry? (l ++ names) = some e := by
  unfold below
  rw [List.mem_filterMap]
  constructor
  · rintro ⟨⟨k, e'⟩, hmem, hk⟩
    dsimp only at hk
    split at hk
    · next hbelow =>
      obtain ⟨rfl, rfl⟩ := Prod.mk.inj (Option.some.inj hk)
      obtain ⟨names, rfl⟩ := List.isPrefixOf_iff_prefix.1 hbelow.1
      have hnames : names ≠ [] := by
        rintro rfl
        exact hbelow.2 (by simp)
      have hne : l ++ names ≠ [] := by simp [hnames]
      rw [List.drop_left]
      refine ⟨hnames, ?_⟩
      rw [entry?_of_ne_nil hne]
      exact Std.ExtTreeMap.mem_toList_iff_getElem?_eq_some.1 hmem
    · exact nomatch hk
  · rintro ⟨hnames, he⟩
    have hne : l ++ names ≠ [] := by simp [hnames]
    rw [entry?_of_ne_nil hne] at he
    exact ⟨(l ++ names, e), Std.ExtTreeMap.mem_toList_iff_getElem?_eq_some.2 he, by simp [hnames]⟩

theorem pairwise_below (t : FileTree) (l : Location) :
    (t.below l).Pairwise fun a b => ¬ b.1 <+: a.1 := by
  refine List.Pairwise.filterMap _ ?_ Std.ExtTreeMap.ordered_keys_toList
  rintro ⟨k, e⟩ ⟨m, e'⟩ hordered a ha b hb
  dsimp only at ha hb hordered
  split at ha
  · next hk =>
    split at hb
    · next hm =>
      obtain rfl := Option.some.inj ha
      obtain rfl := Option.some.inj hb
      obtain ⟨names, rfl⟩ := List.isPrefixOf_iff_prefix.1 hk.1
      obtain ⟨names', rfl⟩ := List.isPrefixOf_iff_prefix.1 hm.1
      rw [List.drop_left, List.drop_left]
      intro hprefix
      exact Lexicographic.not_prefix_of_compare hordered ((List.prefix_append_right_inj l).2 hprefix)
    · exact nomatch hb
  · exact nomatch ha

theorem filterMap_children_eq {f g : String × Entry → Option β}
    (h : ∀ name, ((a.entry? (l ++ [name])).bind fun e => f (name, e)) =
      (b.entry? (l ++ [name])).bind fun e => g (name, e)) :
    (a.children l).filterMap f = (b.children l).filterMap g := by
  unfold children
  rw [List.filterMap_filterMap, List.filterMap_filterMap]
  refine filterMap_below_eq fun names hnames => ?_
  match names, hnames with
  | [name], _ => exact h name
  | _ :: _ :: _, _ => simp

theorem mem_children {name : String} {e : Entry} :
    (name, e) ∈ t.children l ↔ t.entry? (l ++ [name]) = some e := by
  unfold children
  rw [List.mem_filterMap]
  constructor
  · rintro ⟨⟨names, e'⟩, hmem, hname⟩
    match names with
    | [] => exact nomatch hname
    | [n] =>
      obtain ⟨rfl, rfl⟩ := Prod.mk.inj (Option.some.inj hname)
      exact (mem_below.1 hmem).2
    | _ :: _ :: _ => exact nomatch hname
  · intro he
    exact ⟨([name], e), mem_below.2 ⟨by simp, he⟩, rfl⟩

/-- What lies below a location lies in a directory under a name. -/
theorem isName_of_stands {dir : Location} {name : String} (h : (t.entry? (dir ++ [name])).isSome) :
    Entries.isName name = true ∧ t.entry? dir = some .dir := by
  have hne : dir ++ [name] ≠ [] := by simp
  have hmem : dir ++ [name] ∈ t.entries := by
    rw [Std.ExtTreeMap.mem_iff_isSome_getElem?]
    rwa [← entry?_of_ne_nil hne]
  obtain ⟨dir', name', hsplit, hname, hdir⟩ := t.placed _ hmem
  obtain ⟨rfl, hlast⟩ := List.append_inj' hsplit rfl
  obtain rfl : name = name' := by simpa using hlast
  exact ⟨hname, hdir⟩

/-- All locations on the way to an entry are directories, and its names are names. -/
theorem dirs_above {names : List String} (h : (t.entry? (l ++ names)).isSome) :
    (names ≠ [] → t.entry? l = some .dir) ∧ ∀ n ∈ names, Entries.isName n = true := by
  induction names using List.reverseRecOn with
  | nil => simp
  | append_singleton names name ih =>
    rw [← List.append_assoc] at h
    obtain ⟨hname, hdir⟩ := isName_of_stands h
    obtain ⟨habove, hnames⟩ := ih (by simp [hdir])
    refine ⟨fun _ => ?_, by simpa [or_imp, forall_and, hname] using hnames⟩
    by_cases hnil : names = []
    · simpa [hnil] using hdir
    · exact habove hnil

/-- A path that never goes up leads to a directory wherever that stands. -/
theorem locate_of_plain {p : Path} (hup : ".." ∉ p.pieces) (hhome : a.home = b.home)
    (hb : b.locate p = .ok l) (ha : a.entry? l = some .dir) : a.locate p = .ok l := by
  have habove : ∀ here, here <+: l → a.entry? here = some .dir := by
    rintro here ⟨names, rfl⟩
    by_cases hnil : names = []
    · simpa [hnil] using ha
    · exact (dirs_above (by simp [ha])).1 hnil
  have hwalk : ∀ (pieces : List String) (here : Location), ".." ∉ pieces →
      pieces.foldlM b.follow here = .ok l → here <+: l ∧ pieces.foldlM a.follow here = .ok l := by
    -- Nothing on the way is left again, so all of it lies above the directory.
    intro pieces
    induction pieces with
    | nil =>
      intro here _ h
      obtain rfl : here = l := Except.ok.inj h
      exact ⟨List.prefix_refl _, rfl⟩
    | cons piece pieces ih =>
      intro here hnone h
      rw [List.foldlM_cons] at h ⊢
      obtain ⟨next, hstep, hrest⟩ := bind_eq_ok_iff.1 h
      obtain ⟨hbelow, hrest'⟩ := ih next (fun hmem => hnone (List.mem_cons_of_mem piece hmem)) hrest
      have hpiece : piece ≠ ".." := fun heq => hnone (heq ▸ List.mem_cons_self)
      obtain ⟨-, ⟨hvoid, rfl⟩ | ⟨-, heq, -⟩ | ⟨hvoid, -, hlong, -, rfl⟩⟩ := follow_eq_ok_iff.1 hstep
      · exact ⟨hbelow, bind_eq_ok_iff.2 ⟨next,
          follow_eq_ok_iff.2 ⟨habove next hbelow, .inl ⟨hvoid, rfl⟩⟩, hrest'⟩⟩
      · exact absurd heq hpiece
      · have hhere : here <+: l := (List.prefix_append here [piece]).trans hbelow
        have hstands : (a.entry? (here ++ [piece])).isSome := by simp [habove _ hbelow]
        exact ⟨hhere, bind_eq_ok_iff.2 ⟨_, follow_eq_ok_iff.2
          ⟨habove here hhere, .inr (.inr ⟨hvoid, hpiece, hlong, hstands, rfl⟩)⟩, hrest'⟩⟩
  obtain ⟨hrefused, hfold⟩ := locate_eq_ok_iff.1 hb
  refine locate_eq_ok_iff.2 ⟨hrefused, ?_⟩
  rw [origin, hhome, ← origin]
  exact (hwalk p.pieces _ hup hfold).2

theorem exists_walk {start : Path} (h : t.locate start = .ok l) (keep : List String → Entry → Bool) :
    ∃ visits, t.walk start keep = .ok visits := by
  unfold walk
  rw [h]
  exact ⟨_, rfl⟩

/-- What a walk selects is decided by what is selected at each location below its start. -/
theorem walk_filterMap_eq {start : Path} {keep : List String → Entry → Bool} {f g : Visit → Option β}
    (ha : a.locate start = .ok l) (hb : b.locate start = .ok l)
    (h : ∀ names,
      ((a.entry? (l ++ names)).bind fun e =>
        if names = [] ∨ keep names e = true then f ⟨names, names.foldl Path.child start, e⟩ else none) =
      (b.entry? (l ++ names)).bind fun e =>
        if names = [] ∨ keep names e = true then g ⟨names, names.foldl Path.child start, e⟩ else none) :
    (a.walk start keep).map (·.filterMap f) = (b.walk start keep).map (·.filterMap g) := by
  have hfirst : ∀ (x : Option Entry) (F : Visit → Option β),
      (x.toList.map fun e => (⟨[], start, e⟩ : Visit)).filterMap F =
        (x.bind fun e => F ⟨[], start, e⟩).toList := by
    intro x F
    cases x with
    | none => rfl
    | some e => cases hF : F ⟨[], start, e⟩ <;> simp [hF]
  unfold walk
  rw [ha, hb]
  refine congrArg Except.ok ?_
  simp only [List.map_append, List.map_map, List.filterMap_append]
  congr 1
  · have hstart := h []
    simp only [List.append_nil, List.foldl_nil, true_or, if_true] at hstart
    exact (hfirst _ f).trans ((congrArg Option.toList hstart).trans (hfirst _ g).symm)
  · rw [List.filterMap_map, List.filterMap_map, List.filterMap_filter, List.filterMap_filter]
    refine filterMap_below_eq fun names hnames => ?_
    simpa [hnames] using h names

theorem mem_walk {start : Path} {keep : List String → Entry → Bool} {visits : List Visit} {v : Visit}
    (ha : t.locate start = .ok l) (h : t.walk start keep = .ok visits) :
    v ∈ visits ↔ t.entry? (l ++ v.names) = some v.entry ∧
      (v.names = [] ∨ keep v.names v.entry = true) ∧ v.path = v.names.foldl Path.child start := by
  unfold walk at h
  rw [ha] at h
  obtain rfl := Except.ok.inj h
  simp only [List.mem_map, List.mem_append, List.mem_filter, Option.mem_toList, Prod.exists]
  constructor
  · rintro ⟨names, e, ⟨e', he', hpair⟩ | ⟨hmem, hkeep⟩, rfl⟩
    · obtain ⟨rfl, rfl⟩ := Prod.mk.inj hpair
      exact ⟨by simpa using he', .inl rfl, rfl⟩
    · exact ⟨(mem_below.1 hmem).2, .inr hkeep, rfl⟩
  · obtain ⟨names, path, e⟩ := v
    rintro ⟨he, hkeep, hpath⟩
    dsimp only at he hkeep hpath
    subst hpath
    refine ⟨names, e, ?_, rfl⟩
    by_cases hnil : names = []
    · subst hnil
      exact .inl ⟨e, by simpa using he, rfl⟩
    · exact .inr ⟨mem_below.2 ⟨hnil, he⟩, hkeep.resolve_left hnil⟩

/-- A walk from a directory meets that first, nothing twice and nothing before what leads to it. -/
theorem walk_of_dir {start : Path} (hstart : t.locate start = .ok l) (hdir : t.entry? l = some .dir)
    (keep : List String → Entry → Bool) :
    ∃ rest, t.walk start keep = .ok (⟨[], start, .dir⟩ :: rest) ∧
      (⟨[], start, .dir⟩ :: rest : List Visit).Pairwise fun v w => ¬ w.names <+: v.names := by
  unfold walk
  rw [hstart]
  dsimp only
  rw [hdir]
  refine ⟨_, rfl, List.pairwise_cons.2 ⟨?_, ?_⟩⟩
  · intro w hw
    obtain ⟨⟨names, e⟩, hmem, rfl⟩ := List.mem_map.1 hw
    simpa using (mem_below.1 (List.mem_filter.1 hmem).1).1
  · exact List.pairwise_map.2 ((pairwise_below t l).filter _)

end FileTree
end WrapperGen
