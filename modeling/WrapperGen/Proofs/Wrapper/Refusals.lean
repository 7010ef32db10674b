import WrapperGen.Proofs.Wrapper.Conditions

/-!
# Why classes are not rendered

A class that resolves is refused for a name that leads nowhere or by the rendering, and the error names
the class. Such an error concerns that class only.
-/

namespace WrapperGen

namespace Wrapper

variable {target : Target} {r : Resolved} {e : Error}

theorem argumentProperty_eq_error {a : String} (h : argumentProperty r a = .error e) :
    ∃ fault, e = .render r.className fault := by
  unfold argumentProperty at h
  split at h
  · cases h
  · exact ⟨_, (Except.error.inj h).symm⟩

theorem argumentExpressions_eq_error (h : argumentExpressions r = .error e) :
    ∃ fault, e = .render r.className fault := by
  obtain ⟨a, -, ha⟩ := exists_of_mapM_eq_error h
  cases a with
  | parameters => cases ha
  | property name =>
    rw [argumentExpression] at ha
    cases hp : argumentProperty r name with
    | ok p =>
      rw [hp] at ha
      cases ha
    | error f =>
      rw [hp] at ha
      obtain rfl : f = e := Except.error.inj ha
      exact argumentProperty_eq_error hp

theorem initParameters_eq_error (h : initParameters r = .error e) :
    ∃ fault, e = .render r.className fault := by
  have hmap : r.arguments.mapM (initParameter r) = .error e := by
    rw [initParameters] at h
    cases hm : r.arguments.mapM (initParameter r) with
    | ok parameters =>
      rw [hm] at h
      cases h
    | error f =>
      rw [hm] at h
      rw [Except.error.inj h]
  obtain ⟨a, -, ha⟩ := exists_of_mapM_eq_error hmap
  cases a with
  | parameters => cases ha
  | property name =>
    rcases bind_eq_error_iff.1 ha with hp | ⟨p, -, ha⟩
    · exact argumentProperty_eq_error hp
    · split at ha
      · cases ha
      · exact ⟨_, (Except.error.inj ha).symm⟩

/-- Building a wrapper fails with an error of rendering. -/
theorem build_eq_error {settings : Settings} {s : Subject} (h : build settings target s = .error e) :
    ∃ fault, e = .render s.resolved.className fault := by
  rcases bind_eq_error_iff.1 h with hnames | ⟨_, -, h⟩
  · unfold checkNames at hnames
    split at hnames
    · exact ⟨_, (Except.error.inj hnames).symm⟩
    · cases hnames
  rcases bind_eq_error_iff.1 h with hfields | ⟨fields, -, h⟩
  · obtain ⟨field, -, hfield⟩ := exists_of_mapM_eq_error hfields
    unfold fieldOf at hfield
    split at hfield
    · exact ⟨_, (Except.error.inj hfield).symm⟩
    · cases hfield
  cases target with
  | javascript =>
    rcases bind_eq_error_iff.1 h with harguments | ⟨_, -, h⟩
    · exact argumentExpressions_eq_error harguments
    · cases h
  | python =>
    rcases bind_eq_error_iff.1 h with hparameters | ⟨_, -, h⟩
    · exact initParameters_eq_error hparameters
    · cases h

end Wrapper

/-- What a failed generation of a class is put down to: a name that leads nowhere, or the rendering. -/
def Error.Blames (e : Error) (c : String) : Prop :=
  (∃ name, e = .invalidReference c name) ∨ ∃ fault, e = .render c fault

theorem Error.Blames.isClassScoped {e : Error} {c : String} (h : e.Blames c) :
    e.isClassScoped = true := by
  rcases h with ⟨name, rfl⟩ | ⟨fault, rfl⟩ <;> rfl

namespace Generator

variable {g : Generator} {c : String} {r : Resolved} {e : Error}

theorem references_eq_error (h : g.table.resolve c = .ok r) (he : g.references r = .error e) :
    ∃ m ∈ g.table.dangling r, e = .invalidReference c m.name := by
  have hfails := Linker.failure?_references (l := g.linker) h (g.file r)
  rw [← references, he, List.head?_map, linker_table] at hfails
  obtain ⟨m, hm, rfl⟩ := Option.map_eq_some_iff.1 hfails.symm
  exact ⟨m, List.mem_of_head? hm, rfl⟩

/-- Rendering a class that resolves fails for the class itself, and where all its names lead somewhere
with an error of rendering. -/
theorem render_eq_error (h : g.table.resolve c = .ok r) (he : g.render r = .error e) :
    e.Blames c ∧ (g.table.dangling r = [] → ∃ fault, e = .render c fault) := by
  have hclass := ClassTable.className_of_resolve h
  rcases bind_eq_error_iff.1 he with hwrapper | ⟨w, -, he⟩
  · rcases bind_eq_error_iff.1 hwrapper with hsubject | ⟨s, hs, hbuild⟩
    · rcases bind_eq_error_iff.1 hsubject with hreferences | ⟨refs, -, hsubject⟩
      · obtain ⟨m, hm, rfl⟩ := references_eq_error h hreferences
        exact ⟨.inl ⟨m.name, rfl⟩, fun hnone => by simp [hnone] at hm⟩
      · obtain ⟨ref, href⟩ := Linker.exists_superclass (l := g.linker) h (g.file r)
        rcases bind_eq_error_iff.1 hsubject with hsuper | ⟨_, -, hsubject⟩
        · rw [href] at hsuper
          cases hsuper
        · cases hsubject
    · obtain ⟨_, _, -, -, rfl⟩ := subject_eq_ok hs
      obtain ⟨fault, rfl⟩ := Wrapper.build_eq_error hbuild
      rw [hclass]
      exact ⟨.inr ⟨fault, rfl⟩, fun _ => ⟨fault, rfl⟩⟩
  · obtain ⟨text, htext⟩ := w.exists_text g.target
    rcases bind_eq_error_iff.1 he with he | ⟨_, -, he⟩
    · rw [htext] at he
      cases he
    · cases he

end Generator

end WrapperGen
