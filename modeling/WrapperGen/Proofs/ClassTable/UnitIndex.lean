import WrapperGen.Proofs.Inheritance.Walk

/-!
# The index by unit path

The index is built once, class by class. What it holds at a unit path are the classes of that path in
table order, however the path was written and also where it is the name of the class, so asking it is as
good as scanning the table.
-/

namespace WrapperGen

/-- The index has the classes at each unit path, in order. -/
theorem PathIndex.getD_foldl_enter (entries : Named ClassRecord) (index : PathIndex) (path : String) :
    (entries.foldl enter index).getD path [] = index.getD path [] ++
      Named.names (entries.filter fun e => e.2.unitPathOf e.1 = path) := by
  induction entries generalizing index with
  | nil => simp [Named.names]
  | cons e rest ih =>
    rw [List.foldl_cons, ih, enter, Std.HashMap.getD_insert]
    by_cases hpath : e.2.unitPathOf e.1 = path
    · simp [hpath, Named.names]
    · simp [hpath]

namespace ClassTable

variable {t : ClassTable} {c d e : String}

theorem getD_byPath (t : ClassTable) (path : String) :
    t.byPath.getD path [] =
      Named.names (t.classes.entries.filter fun e => e.2.unitPathOf e.1 = path) := by
  rw [t.indexed, PathIndex.ofClasses, PathIndex.getD_foldl_enter]
  simp

theorem has_of_mem_byPath {path : String} (h : c ∈ t.byPath.getD path []) : t.has c = true := by
  rw [getD_byPath] at h
  exact has_iff_mem.2 ((List.filter_sublist.map _).subset h)

/-- The other classes at the unit path of a class are those of the table, in order. -/
theorem extras_of_unitPath {path : String} (h : t.unitPath c = .ok path) :
    t.extras c = .ok ((Named.names
      (t.classes.entries.filter fun e => e.2.unitPathOf e.1 = path)).filter (· ≠ c)) := by
  rw [extras, h, ← getD_byPath]
  rfl

theorem has_of_extras {others : List String} (h : t.extras c = .ok others) :
    t.has c = true ∧ ∀ d ∈ others, t.has d = true := by
  obtain ⟨path, hpath, hothers⟩ := bind_eq_ok_iff.1 h
  obtain rfl := Except.ok.inj hothers
  exact ⟨has_iff_exists_unitPath.2 ⟨path, hpath⟩,
    fun d hd => has_of_mem_byPath (List.mem_of_mem_filter hd)⟩

/-- The other classes of a unit path, in table order, whether or not the index is asked. -/
theorem extras_eq (h : t.has c = true) :
    t.extras c = .ok (t.names.filter fun n => n ≠ c ∧ t.unitPath n = t.unitPath c) := by
  obtain ⟨path, hpath⟩ := has_iff_exists_unitPath.1 h
  rw [extras_of_unitPath hpath, names, Keyed.names, Named.names, Named.names, List.filter_map,
    List.filter_map, List.filter_filter]
  refine congrArg (fun entries : Named ClassRecord => Except.ok (entries.map (·.1)))
    (List.filter_congr fun e he => ?_)
  simp [hpath, unitPath_of_mem he]

theorem extras_of_unknown (h : t.has c = false) : t.extras c = .error (.unknownClass c) := by
  have hnone : t.get? c = none := by
    rw [← Option.not_isSome_iff_eq_none, Option.isSome_iff_exists, ← has_iff, h]
    exact Bool.false_ne_true
  rw [extras, unitPath, hnone]
  rfl

theorem extras_eq_error_iff : t.extras c = .error (.unknownClass c) ↔ c ∉ t.names := by
  rw [← has_iff_mem]
  constructor
  · intro herror hhas
    rw [extras_eq hhas] at herror
    exact nomatch herror
  · exact fun hhas => extras_of_unknown (Bool.eq_false_iff.2 hhas)

/-- Whether a class is listed among the other classes at the unit path of a class. -/
def IsExtra (t : ClassTable) (c d : String) : Prop := ∃ others, t.extras c = .ok others ∧ d ∈ others

theorem isExtra_iff : t.IsExtra c d ↔
    c ∈ t.names ∧ d ∈ t.names ∧ d ≠ c ∧ t.unitPath d = t.unitPath c := by
  rw [IsExtra]
  constructor
  · rintro ⟨others, hothers, hd⟩
    have hc := (has_of_extras hothers).1
    rw [extras_eq hc] at hothers
    obtain rfl := Except.ok.inj hothers
    obtain ⟨hmem, hextra⟩ := List.mem_filter.1 hd
    exact ⟨has_iff_mem.1 hc, hmem, by simpa using hextra⟩
  · rintro ⟨hc, hd, hextra⟩
    exact ⟨_, extras_eq (has_iff_mem.2 hc), List.mem_filter.2 ⟨hd, by simpa using hextra⟩⟩

theorem IsExtra.symm (h : t.IsExtra c d) : t.IsExtra d c := by
  obtain ⟨hc, hd, hne, hpath⟩ := isExtra_iff.1 h
  exact isExtra_iff.2 ⟨hd, hc, hne.symm, hpath.symm⟩

/-- An extra of an extra is an extra, unless it is the class that was begun with. -/
theorem IsExtra.trans (hcd : t.IsExtra c d) (hde : t.IsExtra d e) : c = e ∨ t.IsExtra c e := by
  obtain ⟨hc, -, -, hpath⟩ := isExtra_iff.1 hcd
  obtain ⟨-, he, -, hpath'⟩ := isExtra_iff.1 hde
  refine or_iff_not_imp_left.2 fun hne => ?_
  exact isExtra_iff.2 ⟨hc, he, Ne.symm hne, hpath'.trans hpath⟩

/-- The index answers as a scan of the table does. What is asked for is unknown exactly if it is no class, and
otherwise the answer is the other classes of its unit path, each once and in table order. So being an extra of
one another is symmetric, and with equality it is an equivalence on the classes. -/
theorem extras_eq_scan (t : ClassTable) :
    (∀ c, t.extras c = .error (.unknownClass c) ↔ c ∉ t.names) ∧
    (∀ c ∈ t.names, ∃ path others, t.unitPath c = .ok path ∧ t.extras c = .ok others ∧
      others = t.names.filter (fun d => d ≠ c ∧ t.unitPath d = .ok path) ∧ others.Nodup) ∧
    (∀ c d, t.IsExtra c d ↔ t.IsExtra d c) ∧
    Equivalence fun c d : {c // c ∈ t.names} => c = d ∨ t.IsExtra c d := by
  refine ⟨fun c => extras_eq_error_iff, fun c hc => ?_, fun c d => ⟨.symm, .symm⟩, ?_⟩
  · have hhas := has_iff_mem.2 hc
    obtain ⟨path, hpath⟩ := has_iff_exists_unitPath.1 hhas
    exact ⟨path, _, hpath, extras_eq hhas, by rw [hpath], t.classes.distinct.filter _⟩
  · refine ⟨fun c => .inl rfl, fun {c d} h => ?_, fun {c d e} hcd hde => ?_⟩
    · exact h.imp Eq.symm IsExtra.symm
    · rcases hcd with rfl | hcd
      · exact hde
      rcases hde with rfl | hde
      · exact .inr hcd
      · exact (hcd.trans hde).imp Subtype.ext id

/-- The record of defaults is no class, and unit paths meet in their normal form or as a name. -/
example : (ofEntries (.ofList [("Ring", .empty), ("_defaults", .empty), ("Rim", .located ".\\Ring.js"),
    ("Hub", .located "./Ring")])).extras "Rim" = .ok ["Ring", "Hub"] := by
  cbv

end ClassTable
end WrapperGen
