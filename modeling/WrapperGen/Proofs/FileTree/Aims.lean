import WrapperGen.Proofs.FileTree.Listing
import WrapperGen.Proofs.FileTree.Rewriting

/-!
# Where paths aim

A path aims at the location it leads to as soon as something stands there. Names can be followed before
anything stands; up it goes only from a directory that stands already, since one that comes later would
change where the path leads. In all trees that come from the present one the path then leads to its aim or
nowhere, and what is made at the path is made there.
-/

namespace WrapperGen

/-- The parent of a path has the first of its components. -/
theorem Path.prefix_of_parent? {p q : Path} (h : p.parent? = some q) : q.components <+: p.components := by
  unfold parent? at h
  dsimp only at h
  split at h
  · split at h
    · obtain rfl := Option.some.inj h
      rw [components_of_text_eq_empty rfl]
      exact List.nil_prefix
    · exact nomatch h
  · obtain rfl := Option.some.inj h
    have hkept : (trimVoid p.split.2).dropLast <+: trimVoid p.split.2 := List.dropLast_prefix _
    have hbegin := ((prefix_trimVoid _).trans hkept).trans (prefix_trimVoid p.split.2)
    rw [components_lead_ofPieces hbegin (trimVoid_spec _).2, components_eq_split p, filterMap_trimVoid,
      ← filterMap_trimVoid p.split.2]
    exact List.prefix_append_right_inj _ |>.2 (hkept.filterMap _)

/-- The paths above a path begin where it does, and have the first of its components. -/
theorem Path.prefix_of_mem_ancestors {p q : Path} (h : q ∈ p.ancestors) :
    q.isAbsolute = p.isAbsolute ∧ q.components <+: p.components := by
  have hgo : ∀ (n : Nat) (p : Path), q ∈ ancestors.go n p →
      q.isAbsolute = p.isAbsolute ∧ q.components <+: p.components := by
    intro n
    induction n with
    | zero => exact fun _ h => nomatch h
    | succ n ih =>
      intro p h
      rcases List.mem_cons.1 h with rfl | h
      · exact ⟨rfl, List.prefix_refl _⟩
      · split at h
        · next parent hparent =>
          obtain ⟨hbegin, hprefix⟩ := ih parent h
          exact ⟨hbegin.trans (isAbsolute_of_parent? hparent), hprefix.trans (prefix_of_parent? hparent)⟩
        · exact nomatch h
  exact hgo _ p h

/-- Names after a path do not change where it begins. -/
theorem Path.isAbsolute_of_components {p root : Path} {names : List String}
    (h : p.components = root.components ++ names.map .name) : p.isAbsolute = root.isAbsolute := by
  refine Bool.eq_iff_iff.2 ?_
  rw [isAbsolute_iff_head?, isAbsolute_iff_head?, h]
  cases hroot : root.components with
  | nil => cases names <;> simp
  | cons c cs => simp

namespace FileTree

open Entries (isName)

variable {a b c t : FileTree} {p root : Path} {l here dir : Location} {n : String}

/-- Where a component leads from a location. -/
def pass? (t : FileTree) (here : Location) : Component → Option Location
  | .root | .current => some here
  | .parent => if t.holdsDir here then some here.dropLast else none
  | .name n => some (here ++ [n])

/-- The location a path aims at, unless it leaves a directory that does not stand. -/
def aim? (t : FileTree) (p : Path) : Option Location := p.components.foldlM t.pass? (t.origin p)

theorem origin_congr {q : Path} (h : p.isAbsolute = q.isAbsolute) (t : FileTree) : t.origin p = t.origin q := by
  rw [origin, origin, h]

theorem aim?_congr {q : Path} (h : p.components = q.components) : t.aim? p = t.aim? q := by
  have hbegin : p.isAbsolute = q.isAbsolute :=
    Bool.eq_iff_iff.2 (by rw [Path.isAbsolute_iff_head?, Path.isAbsolute_iff_head?, h])
  rw [aim?, aim?, t.origin_congr hbegin, h]

theorem foldlM_pass?_names (names : List String) (here : Location) :
    (names.map Component.name).foldlM t.pass? here = some (here ++ names) := by
  induction names generalizing here with
  | nil => simp
  | cons n names ih =>
    rw [List.map_cons, List.foldlM_cons]
    exact (ih (here ++ [n])).trans (by simp)

/-- Below a path that is aimed, names say where a path aims. -/
theorem aim?_of_components {names : List String} (h : t.aim? root = some l)
    (hp : p.components = root.components ++ names.map .name) : t.aim? p = some (l ++ names) := by
  unfold aim? at h ⊢
  rw [t.origin_congr (Path.isAbsolute_of_components hp), hp, List.foldlM_append, h]
  exact foldlM_pass?_names names l

theorem pass?_parent_eq_some_iff {next : Location} :
    t.pass? here .parent = some next ↔ t.entry? here = some .dir ∧ here.dropLast = next := by
  rw [pass?, ← holdsDir_iff]
  by_cases hdir : t.holdsDir here = true <;> simp [hdir]

/-- On the way to the aim there are only directories above it and directories that stand. -/
theorem prefix_or_dir_of_pass? {cs : List Component} (h : cs.foldlM t.pass? here = some l) :
    here <+: l ∨ t.entry? here = some .dir := by
  induction cs generalizing here with
  | nil => exact .inl (Option.some.inj h ▸ List.prefix_refl _)
  | cons c cs ih =>
    rw [List.foldlM_cons] at h
    obtain ⟨next, hstep, hrest⟩ := Option.bind_eq_some_iff.1 h
    cases c with
    | root | current => exact ih (Option.some.inj hstep ▸ hrest)
    | parent => exact .inr (pass?_parent_eq_some_iff.1 hstep).1
    | name n =>
      obtain rfl := Option.some.inj hstep
      rcases ih hrest with hprefix | hdir
      · exact .inl ((List.prefix_append here [n]).trans hprefix)
      · have hstands : (t.entry? (here ++ [n])).isSome := Option.isSome_of_eq_some hdir
        exact .inr ((dirs_above hstands).1 (List.cons_ne_nil n []))

theorem aim?_eq_pieces (t : FileTree) (p : Path) :
    t.aim? p = (p.pieces.filterMap Component.ofPiece?).foldlM t.pass? (t.origin p) := by
  obtain ⟨first, rest, hpieces⟩ := p.exists_pieces
  unfold aim? Path.components
  rcases Path.lead?_cases hpieces with ⟨hlead, -⟩ | ⟨hlead, -⟩ | ⟨hlead, -⟩ <;> rw [hlead] <;> rfl

theorem filterMap_ofPiece?_up (pieces : List String) :
    (".." :: pieces).filterMap Component.ofPiece? = .parent :: pieces.filterMap Component.ofPiece? :=
  List.filterMap_cons_some rfl

/-- A path leads nowhere but to its aim. -/
theorem eq_of_foldlM_follow {pieces : List String} {there : Location}
    (h : pieces.foldlM b.follow here = .ok there)
    (haim : (pieces.filterMap Component.ofPiece?).foldlM a.pass? here = some l) : there = l := by
  induction pieces generalizing here with
  | nil => exact (Except.ok.inj h).symm.trans (Option.some.inj haim)
  | cons piece pieces ih =>
    rw [List.foldlM_cons] at h
    obtain ⟨next, hstep, hrest⟩ := bind_eq_ok_iff.1 h
    obtain ⟨-, ⟨hvoid, rfl⟩ | ⟨-, rfl, rfl⟩ | ⟨hvoid, hup, -, -, rfl⟩⟩ := follow_eq_ok_iff.1 hstep
    · rw [List.filterMap_cons_none (Component.ofPiece?_eq_none_iff.2 hvoid)] at haim
      exact ih hrest haim
    · rw [filterMap_ofPiece?_up, List.foldlM_cons] at haim
      obtain ⟨next, hup, haim⟩ := Option.bind_eq_some_iff.1 haim
      obtain ⟨-, rfl⟩ := pass?_parent_eq_some_iff.1 hup
      exact ih hrest haim
    · rw [List.filterMap_cons_some (Component.ofPiece?_eq_name hvoid hup), List.foldlM_cons] at haim
      exact ih hrest haim

theorem eq_of_locate (hhome : b.home = a.home) (haim : a.aim? p = some l) {there : Location}
    (h : b.locate p = .ok there) : there = l := by
  have hfold := (locate_eq_ok_iff.1 h).2
  rw [origin, hhome, ← origin] at hfold
  exact eq_of_foldlM_follow hfold (aim?_eq_pieces a p ▸ haim)

/-- A file that a path leads to stands at the aim of the path. -/
theorem Holds.entry?_eq {text : String} (h : b.Holds p text) (hhome : b.home = a.home)
    (haim : a.aim? p = some l) :
    b.entry? l = some (.file text.toUTF8) := by
  obtain ⟨there, hlocate, hfile⟩ := h
  rw [← eq_of_locate hhome haim hlocate, entry?_eq_of_file? hfile]

/-- Where a path led in one tree it leads in another one, if something stands at its aim there. -/
theorem foldlM_follow_of_aim {pieces : List String} (hkeeps : Keeps a c)
    (hstands : (c.entry? l).isSome) (hdir : b.entry? l = some .dir → c.entry? l = some .dir)
    (h : pieces.foldlM b.follow here = .ok l)
    (haim : (pieces.filterMap Component.ofPiece?).foldlM a.pass? here = some l) :
    pieces.foldlM c.follow here = .ok l := by
  induction pieces generalizing here with
  | nil => exact h
  | cons piece pieces ih =>
    rw [List.foldlM_cons] at h ⊢
    obtain ⟨next, hstep, hrest⟩ := bind_eq_ok_iff.1 h
    obtain ⟨hentry, hcases⟩ := follow_eq_ok_iff.1 hstep
    have hhere : c.entry? here = some .dir := by
      rcases prefix_or_dir_of_pass? haim with ⟨names, hl⟩ | hold
      · by_cases hnil : names = []
        · rw [hnil, List.append_nil] at hl
          exact hl ▸ hdir (hl ▸ hentry)
        · exact (dirs_above (hl ▸ hstands)).1 hnil
      · exact hkeeps.dirs here hold
    rcases hcases with ⟨hvoid, rfl⟩ | ⟨hvoid, rfl, rfl⟩ | ⟨hvoid, hup, hlong, -, rfl⟩
    · rw [List.filterMap_cons_none (Component.ofPiece?_eq_none_iff.2 hvoid)] at haim
      exact bind_eq_ok_iff.2 ⟨next, follow_eq_ok_iff.2 ⟨hhere, .inl ⟨hvoid, rfl⟩⟩, ih hrest haim⟩
    · rw [filterMap_ofPiece?_up, List.foldlM_cons] at haim
      obtain ⟨next, hpass, haim⟩ := Option.bind_eq_some_iff.1 haim
      obtain ⟨-, rfl⟩ := pass?_parent_eq_some_iff.1 hpass
      exact bind_eq_ok_iff.2
        ⟨_, follow_eq_ok_iff.2 ⟨hhere, .inr (.inl ⟨hvoid, rfl, rfl⟩)⟩, ih hrest haim⟩
    · rw [List.filterMap_cons_some (Component.ofPiece?_eq_name hvoid hup), List.foldlM_cons] at haim
      have haim : (pieces.filterMap Component.ofPiece?).foldlM a.pass? (here ++ [piece]) = some l := haim
      have hthere : (c.entry? (here ++ [piece])).isSome := by
        rcases prefix_or_dir_of_pass? haim with ⟨names, hl⟩ | hold
        · by_cases hnil : names = []
          · rw [hnil, List.append_nil] at hl
            exact hl ▸ hstands
          · simp [(dirs_above (hl ▸ hstands)).1 hnil]
        · simp [hkeeps.dirs _ hold]
      exact bind_eq_ok_iff.2 ⟨_, follow_eq_ok_iff.2 ⟨hhere, .inr (.inr ⟨hvoid, hup, hlong, hthere, rfl⟩)⟩,
        ih hrest haim⟩

theorem locate_of_aim (hhome : b.home = a.home) (haim : a.aim? p = some l) (hkeeps : Keeps a c)
    (h : b.locate p = .ok l)
    (hdir : b.entry? l = some .dir → c.entry? l = some .dir) (hstands : (c.entry? l).isSome) :
    c.locate p = .ok l := by
  obtain ⟨hrefused, hfold⟩ := locate_eq_ok_iff.1 h
  rw [origin, hhome, ← origin] at hfold
  refine locate_eq_ok_iff.2 ⟨hrefused, hkeeps.origin_eq p ▸ ?_⟩
  exact foldlM_follow_of_aim hkeeps hstands hdir hfold (aim?_eq_pieces a p ▸ haim)

/-- Whether a path leads to a file depends on what stands at its aim. -/
theorem isFile_eq_of_aim (haim : a.aim? p = some l) (hb : Keeps a b) (hc : Keeps a c)
    (h : (b.file? l).isSome ↔ (c.file? l).isSome) : b.isFile p = c.isFile p := by
  have hone : ∀ {b c : FileTree}, Keeps a b → Keeps a c → ((b.file? l).isSome → (c.file? l).isSome) →
      b.isFile p = true → c.isFile p = true := by
    intro b c hb hc h hfile
    obtain ⟨there, hlocate, hfile⟩ := isFile_iff.1 hfile
    obtain rfl := eq_of_locate hb.home haim hlocate
    have hfile' := h hfile
    refine isFile_iff.2 ⟨there, ?_, hfile'⟩
    refine locate_of_aim hb.home haim hc hlocate (fun hdir => ?_) (isSome_entry?_of_file? hfile')
    simp [file?, hdir] at hfile
  exact Bool.eq_iff_iff.2 ⟨hone hb hc h.1, hone hc hb h.2⟩

theorem isDir_of_aim (hhome : b.home = a.home) (haim : a.aim? p = some l) (hc : Keeps a c)
    (hdir : c.entry? l = some .dir)
    (h : b.isDir p = true) : c.isDir p = true := by
  obtain ⟨there, hlocate, -⟩ := isDir_iff.1 h
  obtain rfl := eq_of_locate hhome haim hlocate
  exact isDir_iff.2 ⟨there, locate_of_aim hhome haim hc hlocate (fun _ => hdir) (by simp [hdir]), hdir⟩

/-- The same stands in two trees at a location and below it. -/
def Agree (l : Location) (b c : FileTree) : Prop :=
  ∀ names, b.entry? (l ++ names) = c.entry? (l ++ names)

theorem Agree.symm (h : Agree l b c) : Agree l c b := fun names => (h names).symm

theorem Agree.trans (h : Agree l a b) (h' : Agree l b c) : Agree l a c :=
  fun names => (h names).trans (h' names)

theorem Agree.entry?_eq (h : Agree l b c) : b.entry? l = c.entry? l := by
  simpa using h []

/-- What is made at a path is made at its aim. -/
theorem spot_eq_of_aim (hhome : b.home = a.home) {s : Spot} (haim : a.aim? p = some l) (h : b.spot p = .ok s)
    (hnamed : s.named = true) : s.location = l := by
  obtain ⟨before, last, there, -, hkept, hfollow, -, hdot, hup, -, rfl⟩ := spot_named h hnamed
  obtain ⟨k, hpieces⟩ := exists_pieces_eq_kept p
  have hvoid : Path.isVoid last = false := by simp [Path.isVoid, (kept_spec hkept).1, hdot]
  have hnone : (List.replicate k "").filterMap Component.ofPiece? = [] :=
    List.filterMap_eq_nil_iff.2 fun s hs => by rw [List.eq_of_mem_replicate hs]; rfl
  rw [aim?_eq_pieces, hpieces, hkept, List.filterMap_append, hnone, List.append_nil,
    List.filterMap_append, List.filterMap_cons_some (Component.ofPiece?_eq_name hvoid hup),
    List.foldlM_append] at haim
  obtain ⟨above, habove, hlast⟩ := Option.bind_eq_some_iff.1 haim
  rw [origin, hhome, ← origin] at hfollow
  rw [eq_of_foldlM_follow hfollow habove]
  exact Option.some.inj hlast

/-- A path aims at a name in a directory, and ends in that name. -/
def Aims (t : FileTree) (p : Path) (dir : Location) (n : String) : Prop :=
  isName n = true ∧ t.aim? p = some (dir ++ [n]) ∧ ∃ before, p.pieces = before ++ [n]

theorem aims_child {above : Path} (h : t.aim? above = some dir) (hn : isName n = true) :
    t.Aims (above.child n) dir n := by
  have hcomponents : (above.child n).components = above.components ++ [n].map .name := by
    rw [Path.components_child above hn]
    rfl
  obtain ⟨before, hpieces⟩ := above.exists_pieces_child n
  rw [Text.pieces_eq_singleton (Entries.isName_iff.1 hn).2.2.2] at hpieces
  exact ⟨hn, aim?_of_components h hcomponents, before, hpieces⟩

/-- A path that ends in a name is spotted under that name. -/
theorem spot_of_pieces (hn : isName n = true) {before : List String} (hpieces : p.pieces = before ++ [n])
    {s : Spot} (hspot : b.spot p = .ok s) : s.named = true ∧ s.slash = false := by
  obtain ⟨hempty, hdot, hup, -⟩ := Entries.isName_iff.1 hn
  have hkept : (p.pieces.reverse.dropWhile (· = "")).reverse = before ++ [n] := by
    simp [hpieces, hempty]
  unfold spot at hspot
  split at hspot
  · exact nomatch hspot
  · rw [hkept] at hspot
    simp only [List.getLast?_append, List.getLast?_singleton, Option.some_or] at hspot
    obtain ⟨there, -, hspot⟩ := bind_eq_ok_iff.1 hspot
    split at hspot
    · exact nomatch hspot
    · rw [if_neg (by simp [hdot, hup])] at hspot
      split at hspot
      · exact nomatch hspot
      · exact Except.ok.inj hspot ▸ ⟨rfl, by simp [hpieces]⟩

/-- Where nothing new can be created at a path that ends in a name, something stands there. -/
theorem present_of_create (hn : isName n = true) {before : List String} (hpieces : p.pieces = before ++ [n])
    (h : b.create p = .error .alreadyExists) : b.present p = true := by
  obtain ⟨s, hspot, hstands⟩ := create_eq_exists_iff.1 h
  obtain ⟨hnamed, hslash⟩ := spot_of_pieces hn hpieces hspot
  have hstands := (hstands.resolve_left (by simp [hnamed])).2
  exact present_iff.2 ⟨_, locate_of_spot hspot hnamed hslash (.refl b) hstands, hstands⟩

theorem Aims.named (h : a.Aims p dir n) {s : Spot} (hspot : b.spot p = .ok s) : s.named = true := by
  obtain ⟨hn, -, before, hpieces⟩ := h
  exact (spot_of_pieces hn hpieces hspot).1

theorem Aims.aim?_parent (h : a.Aims p dir n) :
    ∃ above, p.parent? = some above ∧ a.aim? above = some dir := by
  obtain ⟨hn, haim, before, hpieces⟩ := h
  have hcomponents : p.components = p.lead?.toList ++ before.filterMap Component.ofPiece? ++ [.name n] := by
    rw [Path.components, hpieces, List.filterMap_append, List.append_assoc]
    simp [Component.ofPiece?_of_isName hn]
  obtain ⟨above, hparent, habove⟩ := Path.exists_parent hcomponents
  refine ⟨above, hparent, ?_⟩
  rw [aim?, hcomponents, ← habove, List.foldlM_append] at haim
  obtain ⟨there, hthere, hlast⟩ := Option.bind_eq_some_iff.1 haim
  have hlast : some (there ++ [n]) = some (dir ++ [n]) := hlast
  rw [aim?, a.origin_congr (Path.isAbsolute_of_parent? hparent), hthere,
    List.append_cancel_right (Option.some.inj hlast)]

section

variable (hhome : b.home = a.home)

include hhome

theorem entry?_put_spot {s : Spot} (haim : a.aim? p = some l) (h : b.spot p = .ok s)
    (hnamed : s.named = true) {e : Entry} (hdir : b.entry? l = some .dir → e = .dir) (k : Location) :
    FileTree.entry? (b.put s.location e) k = if k = l then some e else b.entry? k := by
  have hplaced := placed_of_spot h hnamed
  rw [spot_eq_of_aim hhome haim h hnamed] at hplaced ⊢
  rw [entry?_put ((Entries.fits_iff _ _ _).2 ⟨hplaced, hdir⟩)]
  simp only [eq_comm]

/-- A directory is made at the aim of its path. -/
theorem entry?_makeDir (haim : a.aim? p = some l) (h : b.makeDir p = .ok c) :
    b.entry? l = none ∧ ∀ k, c.entry? k = if k = l then some .dir else b.entry? k := by
  obtain ⟨s, hspot, hnamed, hfree, rfl⟩ := makeDir_eq_ok_iff.1 h
  rw [spot_eq_of_aim hhome haim hspot hnamed] at hfree
  exact ⟨hfree, entry?_put_spot hhome haim hspot hnamed fun _ => rfl⟩

/-- A file is written at the aim of its path. -/
theorem entry?_write (haim : a.aim? p = some l) {contents : ByteArray} (h : b.write p contents = .ok c)
    (k : Location) : c.entry? k = if k = l then some (.file contents) else b.entry? k := by
  obtain ⟨s, hspot, hnamed, -, hdir, rfl⟩ := write_eq_ok_iff.1 h
  refine entry?_put_spot hhome haim hspot hnamed (fun hentry => ?_) k
  rw [spot_eq_of_aim hhome haim hspot hnamed] at hdir
  simp [holdsDir_iff.2 hentry] at hdir

/-- A file is created at the aim of its path, if nothing stands there. -/
theorem entry?_create (haim : a.aim? p = some l) (h : b.create p = .ok c) :
    b.entry? l = none ∧ ∀ k, c.entry? k = if k = l then some (.file .empty) else b.entry? k := by
  obtain ⟨s, hspot, hnamed, -, hfree, rfl⟩ := create_eq_ok_iff.1 h
  rw [spot_eq_of_aim hhome haim hspot hnamed] at hfree
  exact ⟨hfree, entry?_put_spot hhome haim hspot hnamed fun hentry => by simp [hfree] at hentry⟩

theorem Aims.stands_of_create (h : a.Aims p dir n) (hcreate : b.create p = .error .alreadyExists) :
    (b.entry? (dir ++ [n])).isSome := by
  obtain ⟨s, hspot, hstands⟩ := create_eq_exists_iff.1 hcreate
  have hnamed := h.named hspot
  rw [spot_eq_of_aim hhome h.2.1 hspot hnamed] at hstands
  simpa [hnamed] using hstands.imp_right And.right

theorem entry?_settle (haim : a.aim? p = some l) (k : Location) :
    FileTree.entry? (b.settle p (b.makeDir p)).2 k = b.entry? k ∨
      b.entry? k = none ∧ FileTree.entry? (b.settle p (b.makeDir p)).2 k = some .dir ∧ k = l := by
  cases hmade : b.makeDir p with
  | ok made =>
    obtain ⟨hfree, hentry⟩ := entry?_makeDir hhome haim hmade
    by_cases hk : k = l
    · exact .inr ⟨hk ▸ hfree, by rw [settle, hentry, if_pos hk], hk⟩
    · exact .inl (by rw [settle, hentry, if_neg hk])
  | error f =>
    unfold settle
    dsimp only
    split <;> exact .inl rfl

/-- Of a list of directories only those are made that are missing, each at its aim. -/
theorem entry?_makeDirs {dirs : List Path} (haims : ∀ q ∈ dirs, ∃ l, a.aim? q = some l) (k : Location) :
    FileTree.entry? (b.makeDirs dirs).2 k = b.entry? k ∨ b.entry? k = none ∧
      FileTree.entry? (b.makeDirs dirs).2 k = some .dir ∧ ∃ q ∈ dirs, a.aim? q = some k := by
  induction dirs generalizing b with
  | nil => exact .inl rfl
  | cons q above ih =>
    obtain ⟨l, haim⟩ := haims q List.mem_cons_self
    have hfirst : ∀ t : FileTree, t.home = a.home →
        FileTree.entry? (t.settle q (t.makeDir q)).2 k = t.entry? k ∨ t.entry? k = none ∧
          FileTree.entry? (t.settle q (t.makeDir q)).2 k = some .dir ∧
            ∃ r ∈ q :: above, a.aim? r = some k := by
      intro t ht
      rcases entry?_settle ht haim k with hkept | ⟨hfree, hdir, rfl⟩
      · exact .inl hkept
      · exact .inr ⟨hfree, hdir, q, List.mem_cons_self, haim⟩
    have hrest : FileTree.entry? (b.makeDirs above).2 k = b.entry? k ∨ b.entry? k = none ∧
        FileTree.entry? (b.makeDirs above).2 k = some .dir ∧ ∃ r ∈ q :: above, a.aim? r = some k := by
      have habove := ih hhome fun r hr => haims r (List.mem_cons_of_mem q hr)
      rcases habove with hkept | ⟨hfree, hdir, r, hr, hk⟩
      · exact .inl hkept
      · exact .inr ⟨hfree, hdir, r, List.mem_cons_of_mem q hr, hk⟩
    unfold makeDirs
    split
    · exact .inl rfl
    · split
      · split
        · next f made hmade => rwa [hmade] at hrest
        · next made hmade =>
          rw [hmade] at hrest
          have habove : made.home = b.home := by
            have hgrows := grows_makeDirs (fun _ => False) (t := b) above
            rw [hmade] at hgrows
            exact hgrows.home
          rcases hfirst made (habove.trans hhome) with hlast | ⟨hfree, hnew⟩
          · rwa [hlast]
          · refine .inr ⟨?_, hnew⟩
            rcases hrest with hkept | ⟨hfree', -⟩
            · exact hkept ▸ hfree
            · exact hfree'
      · exact hfirst b hhome

end

/-- Above a file that is to be written all is made a directory, and nothing else changes. -/
theorem Aims.entry?_ensureParent (h : a.Aims p dir n) (hkeeps : Keeps a b) {u : Unit}
    (hrun : (ensureParent p).run b = (.ok u, c)) (k : Location) :
    c.entry? k = if k <+: dir then some .dir else b.entry? k := by
  obtain ⟨above, hparent, haim⟩ := h.aim?_parent
  have hmade : b.makeDirs above.ancestors = (none, c) := by
    have hrun := hrun
    rw [run_ensureParent] at hrun
    rcases hmade : b.makeParent p with ⟨_ | _, made⟩ <;> rw [hmade] at hrun
    · exact (makeParent_eq_none_iff hparent).1 (hmade.trans (congrArg _ (Prod.mk.inj hrun).2))
    · cases (Prod.mk.inj hrun).1
  have hkept : Keeps a c := hkeeps.trans (ensureParent_again hrun).1.toKeeps
  -- A directory on the way is above the last one, or else it stood from the beginning.
  have hway : ∀ q ∈ above.ancestors, ∃ l, a.aim? q = some l ∧ (l <+: dir ∨ a.entry? l = some .dir) := by
    intro q hq
    obtain ⟨hbegin, rest, hrest⟩ := Path.prefix_of_mem_ancestors hq
    rw [aim?, ← hrest, List.foldlM_append, ← a.origin_congr hbegin] at haim
    obtain ⟨l, hl, hrest⟩ := Option.bind_eq_some_iff.1 haim
    exact ⟨l, hl, prefix_or_dir_of_pass? hrest⟩
  have hdir : c.entry? dir = some .dir := by
    by_cases htext : above.text = ""
    · rw [aim?, Path.components_of_text_eq_empty htext] at haim
      obtain rfl : a.origin above = dir := Option.some.inj haim
      rw [origin, if_neg (by simp [Path.isAbsolute, htext]), ← hkept.home]
      exact c.homed
    · obtain ⟨l, hlocate, hentry⟩ := isDir_iff.1 (isDir_of_makeDirs htext hmade)
      exact eq_of_locate hkept.home haim hlocate ▸ hentry
  split
  · next hk =>
    obtain ⟨names, rfl⟩ := hk
    by_cases hnil : names = []
    · simpa [hnil] using hdir
    · exact (dirs_above (by simp [hdir])).1 hnil
  · next hk =>
    have hchanged := entry?_makeDirs hkeeps.home (fun q hq => (hway q hq).imp fun _ => And.left) k
    rw [hmade] at hchanged
    rcases hchanged with hsame | ⟨hfree, -, q, hq, hqk⟩
    · exact hsame
    · obtain ⟨l, hl, hplace⟩ := hway q hq
      obtain rfl : l = k := Option.some.inj (hl.symm.trans hqk)
      cases hfree.symm.trans (hkeeps.dirs l (hplace.resolve_left hk))

end FileTree
end WrapperGen
