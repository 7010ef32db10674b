import WrapperGen.Proofs.Placement.Places

/-!
# Imports of the front end

An import text of the front end is read segment by segment from the directory of the importing file. For
any two files below an output root, reading what one writes to import the other leads to that other
file, and on the way never out of the output tree.
-/

namespace WrapperGen.Placement

/-- Where a segment of an import leads from a directory: `..` up, a name down. What stands for nothing,
as `.` does, stays. -/
def follow (here : List Component) (segment : String) : List Component :=
  match Component.ofPiece? segment with
  | none => here
  | some .parent => here.dropLast
  | some c => here ++ [c]

/-- Where the segments of an import lead, one after the other. -/
def walk (here : List Component) (segments : List String) : List Component :=
  segments.foldl follow here

theorem walk_append (here : List Component) (segments more : List String) :
    walk here (segments ++ more) = walk (walk here segments) more :=
  List.foldl_append

theorem walk_ups (here : List Component) (n : Nat) :
    walk here (List.replicate n "..") = here.take (here.length - n) := by
  induction n generalizing here with
  | zero => simp [walk]
  | succ n ih =>
    have hstep : walk here (List.replicate (n + 1) "..") = walk here.dropLast (List.replicate n "..") :=
      rfl
    rw [hstep, ih, List.dropLast_eq_take, List.take_take, List.length_take]
    congr 1
    omega

theorem walk_down (here : List Component) {segments : List String} (h : ".." ∉ segments) :
    walk here segments = here ++ segments.filterMap Component.ofPiece? := by
  induction segments generalizing here with
  | nil => simp [walk]
  | cons s segments ih =>
    rw [List.mem_cons, not_or] at h
    have hstep : follow here s = here ++ (Component.ofPiece? s).toList := by
      unfold follow Component.ofPiece?
      by_cases hvoid : s = "" ∨ s = "."
      · simp [hvoid]
      · simp [hvoid, Ne.symm h.1]
    have hwalk : walk here (s :: segments) = walk (follow here s) segments := rfl
    rw [hwalk, hstep, ih _ h.2, List.append_assoc]
    cases hs : Component.ofPiece? s <;> simp [hs]

/-- The segments of a text that begins with steps up. -/
theorem pieces_ups (n : Nat) (rest : String) :
    Text.pieces '/' (String.join (List.replicate n "../") ++ rest) =
      List.replicate n ".." ++ Text.pieces '/' rest := by
  induction n with
  | zero => simp
  | succ n ih =>
    have htext : String.join (List.replicate (n + 1) "../") ++ rest =
        ".." ++ "/" ++ (String.join (List.replicate n "../") ++ rest) := by
      rw [List.replicate_succ, String.join_cons, String.append_assoc]
      rfl
    rw [htext, Text.pieces_append Path.sep_toList, ih]
    rfl

theorem importPath_javascript {root source dir file : Path} {ups : Nat} {names : List String}
    (hparent : source.parent? = some dir) (hsteps : steps dir file = (ups, names)) :
    (⟨.javascript, root⟩ : Placement).importPath source file =
      (if ups = 0 then "./" else String.join (List.replicate ups "../")) ++ "/".intercalate names := by
  simp [importPath, hparent, hsteps]

theorem pieces_names {names : List String} (hnames : ∀ n ∈ names, Entries.isName n = true) :
    ".." ∉ Text.pieces '/' ("/".intercalate names) ∧
      (Text.pieces '/' ("/".intercalate names)).filterMap Component.ofPiece? = names.map .name := by
  by_cases hnil : names = []
  · subst hnil
    decide
  · have hslash : ∀ n ∈ names, '/' ∉ n.toList :=
      fun n hn => (Entries.isName_iff.1 (hnames n hn)).2.2.2
    rw [Text.pieces_intercalate Path.sep_toList hnil hslash]
    exact ⟨fun hup => absurd (hnames ".." hup) (by decide), Component.filterMap_ofPiece?_names hnames⟩

/-- The segments of an import: as many `..` as there are steps up, and what leads to the names. -/
theorem exists_segments (ups : Nat) {names : List String}
    (hnames : ∀ n ∈ names, Entries.isName n = true) :
    ∃ down, Text.pieces '/' ((if ups = 0 then "./" else String.join (List.replicate ups "../")) ++
        "/".intercalate names) = List.replicate ups ".." ++ down ∧
      ".." ∉ down ∧ down.filterMap Component.ofPiece? = names.map .name := by
  obtain ⟨hdown, hplaces⟩ := pieces_names hnames
  by_cases hups : ups = 0
  · have htext : "./" ++ "/".intercalate names = "." ++ "/" ++ "/".intercalate names := rfl
    refine ⟨"." :: Text.pieces '/' ("/".intercalate names), ?_, ?_, ?_⟩
    · rw [if_pos hups, hups, htext, Text.pieces_append Path.sep_toList]
      rfl
    · simpa using hdown
    · simpa [Component.ofPiece?] using hplaces
  · exact ⟨_, by rw [if_neg hups, pieces_ups], hdown, hplaces⟩

/-- An import begins with a step that stays or with one that goes up. -/
theorem startsWith_step (ups : Nat) (rest : String) :
    let text := (if ups = 0 then "./" else String.join (List.replicate ups "../")) ++ rest
    Text.startsWith "./" text = true ∨ Text.startsWith "../" text = true := by
  intro text
  cases ups with
  | zero => exact .inl (Text.startsWith_iff.2 ⟨rest, rfl⟩)
  | succ ups =>
    have htext : text = "../" ++ (String.join (List.replicate ups "../") ++ rest) := by
      show String.join (List.replicate (ups + 1) "../") ++ rest = _
      rw [List.replicate_succ, String.join_cons, String.append_assoc]
    exact .inr (Text.startsWith_iff.2 ⟨_, htext⟩)

/-- However far an import is followed, it stays below a directory its steps up do not leave. -/
theorem prefix_walk {above : List Component} {dirs : List Component} {down : List String} {ups : Nat}
    (hups : ups ≤ dirs.length) (hdown : ".." ∉ down) (k : Nat) :
    above <+: walk (above ++ dirs) ((List.replicate ups ".." ++ down).take k) := by
  have hrest : ".." ∉ down.take (k - ups) := fun h => hdown (List.mem_of_mem_take h)
  have hup : (above ++ dirs).length - min k ups = above.length + (dirs.length - min k ups) := by
    rw [List.length_append]
    omega
  rw [List.take_append, List.take_replicate, List.length_replicate, walk_append, walk_ups,
    walk_down _ hrest, hup, List.take_length_add_append, List.append_assoc]
  exact List.prefix_append _ _

/-- Reading an import of the front end from the directory of the importing file leads to the imported
file. It goes up no further than that directory lies below the output root, so it stays in the output
tree. -/
theorem front_import_leads_to_file {root source file : Path} {dirs names : List String} {name : String}
    (hsource : source.components = root.components ++ (dirs ++ [name]).map .name)
    (hfile : file.components = root.components ++ names.map .name) :
    ∃ dir, source.parent? = some dir ∧
      let text := (⟨.javascript, root⟩ : Placement).importPath source file
      let segments := Text.pieces '/' text
      (Text.startsWith "./" text = true ∨ Text.startsWith "../" text = true) ∧
      walk dir.place segments = file.place ∧
      segments.count ".." ≤ dirs.length ∧
      ∀ k, root.place <+: walk dir.place (segments.take k) := by
  obtain ⟨dir, hparent, hdir⟩ := exists_parent_of_file hsource
  refine ⟨dir, hparent, ?_⟩
  obtain ⟨shared, hdirs, -, hhere, hplace⟩ := exists_parting hdir hfile
  have hvalid : ∀ n ∈ beyond dirs names, Entries.isName n = true := isName_of_mem_beyond hfile
  rw [importPath_javascript hparent (steps_eq hdir hfile)]
  obtain ⟨down, hsegments, hdown, hplaces⟩ := exists_segments (beyond names dirs).length hvalid
  have hups : (beyond names dirs).length ≤ dirs.length := by
    have := congrArg List.length hdirs
    rw [List.length_append] at this
    omega
  refine ⟨startsWith_step _ _, ?_, ?_, fun k => ?_⟩
  · -- Up to where the two ways part, and down from there.
    rw [hsegments, walk_append, walk_ups, walk_down _ hdown, hplaces, hhere, take_above, hplace]
  · rw [hsegments, List.count_append, List.count_replicate_self, List.count_eq_zero.2 hdown]
    omega
  · rw [hsegments, Path.place_of_components hdir]
    exact prefix_walk (by simpa using hups) hdown k

/-- Two files of an output tree that does not lie below the working directory. -/
theorem front_import_leads_to_shape :
    let root : Path := ⟨"../out"⟩
    let ring : Path := ⟨"../out/geometries/Ring.autogen.js"⟩
    let shape : Path := ⟨"../out/core/Shape.js"⟩
    (⟨.javascript, root⟩ : Placement).importPath ring shape = "../core/Shape.js" ∧
      ∃ dir, ring.parent? = some dir ∧ walk dir.place ["..", "core", "Shape.js"] = shape.place := by
  intro root ring shape
  have hring : ring.components =
      root.components ++ (["geometries"] ++ ["Ring.autogen.js"]).map .name := by decide
  have hshape : shape.components = root.components ++ ["core", "Shape.js"].map .name := by decide
  have htext : (⟨.javascript, root⟩ : Placement).importPath ring shape = "../core/Shape.js" := by
    decide
  have hsegments : Text.pieces '/' "../core/Shape.js" = ["..", "core", "Shape.js"] := by decide
  obtain ⟨dir, hparent, -, hwalk, -⟩ := front_import_leads_to_file hring hshape
  rw [htext, hsegments] at hwalk
  exact ⟨htext, dir, hparent, hwalk⟩

end WrapperGen.Placement
