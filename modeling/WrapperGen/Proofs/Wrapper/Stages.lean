import WrapperGen.Generator

/-!
# Stages of a wrapper

A wrapper comes from a subject, and a subject from references. Each stage that succeeds shows what the
stages before it gave.
-/

namespace WrapperGen

/-- What both target languages write alike is in every wrapper. -/
theorem Wrapper.build_eq_ok {settings : Settings} {target : Target} {s : Subject} {w : Wrapper}
    (h : build settings target s = .ok w) :
    ∃ fields arguments parameters traitsImport enumsImport,
      fieldsOf target s.resolved s.base.className = .ok fields ∧
      w = { common settings target s fields with
        arguments, parameters, traitsImport, enumsImport } := by
  obtain ⟨_, _, h⟩ := bind_eq_ok_iff.1 h
  obtain ⟨fields, hfields, h⟩ := bind_eq_ok_iff.1 h
  cases target with
  | javascript =>
    obtain ⟨arguments, _, h⟩ := bind_eq_ok_iff.1 h
    exact ⟨fields, arguments, [], "", "", hfields, (Except.ok.inj h).symm⟩
  | python =>
    obtain ⟨parameters, _, h⟩ := bind_eq_ok_iff.1 h
    exact ⟨fields, [], parameters, _, _, hfields, (Except.ok.inj h).symm⟩

namespace Generator

theorem subject_eq_ok {g : Generator} {r : Resolved} {s : Subject} (h : g.subject r = .ok s) :
    ∃ references superclass, g.references r = .ok references ∧
      g.linker.superclass r (g.file r) = .ok superclass ∧
      s = { resolved := r, references, superclass, base := g.linker.baseReference (g.file r),
            file := g.file r, overrideImport := g.overrideImport? r } := by
  obtain ⟨references, hreferences, h⟩ := bind_eq_ok_iff.1 h
  obtain ⟨superclass, hsuperclass, h⟩ := bind_eq_ok_iff.1 h
  exact ⟨references, superclass, hreferences, hsuperclass, (Except.ok.inj h).symm⟩

theorem wrapper_eq_ok_iff {g : Generator} {r : Resolved} {w : Wrapper} :
    g.wrapper r = .ok w ↔
      ∃ s, g.subject r = .ok s ∧ Wrapper.build g.settings g.target s = .ok w :=
  bind_eq_ok_iff

theorem render_eq_ok_iff {g : Generator} {r : Resolved} {file : Path} {text : String} :
    g.render r = .ok (file, text) ↔
      file = g.file r ∧ ∃ w, g.wrapper r = .ok w ∧ w.text g.target = .ok text := by
  simp only [render, bind_eq_ok_iff, pure, Except.pure, Except.ok.injEq, Prod.mk.injEq]
  constructor
  · rintro ⟨w, hw, _, htext, rfl, rfl⟩
    exact ⟨rfl, w, hw, htext⟩
  · rintro ⟨rfl, w, hw, htext⟩
    exact ⟨w, hw, text, htext, rfl, rfl⟩

theorem overrideImport?_isSome (g : Generator) (r : Resolved) :
    (g.overrideImport? r).isSome = g.overridden (g.overrideFile r) := by
  unfold overrideImport?
  cases g.overridden (g.overrideFile r) <;> rfl

theorem wrapper_exportName {g : Generator} {r : Resolved} {w : Wrapper} (h : g.wrapper r = .ok w) :
    w.exportName = Symbol.exported g.target r.className (g.overridden (g.overrideFile r)) := by
  obtain ⟨s, hs, hw⟩ := wrapper_eq_ok_iff.1 h
  obtain ⟨_, _, _, _, rfl⟩ := subject_eq_ok hs
  obtain ⟨_, _, _, _, _, _, rfl⟩ := Wrapper.build_eq_ok hw
  rw [← overrideImport?_isSome]
  rfl

theorem wrapper_superClass {g : Generator} {r : Resolved} {w : Wrapper} (h : g.wrapper r = .ok w) :
    ∃ ref, g.linker.superclass r (g.file r) = .ok ref ∧
      w.superClass = Import.ofReference g.target ref := by
  obtain ⟨s, hs, hw⟩ := wrapper_eq_ok_iff.1 h
  obtain ⟨_, ref, _, href, rfl⟩ := subject_eq_ok hs
  obtain ⟨_, _, _, _, _, _, rfl⟩ := Wrapper.build_eq_ok hw
  exact ⟨ref, href, rfl⟩

/-- Besides its superclass a wrapper imports what its references lead to. -/
theorem wrapper_imports {g : Generator} {r : Resolved} {w : Wrapper} (h : g.wrapper r = .ok w) :
    ∃ refs parent, g.references r = .ok refs ∧ g.linker.superclass r (g.file r) = .ok parent ∧
      w.imports = ((refs.toList.map (·.2)).filter (·.className ≠ parent.className)).map
        (Import.ofReference g.target) := by
  obtain ⟨s, hs, hw⟩ := wrapper_eq_ok_iff.1 h
  obtain ⟨refs, parent, hrefs, hparent, rfl⟩ := subject_eq_ok hs
  obtain ⟨_, _, _, _, _, _, rfl⟩ := Wrapper.build_eq_ok hw
  exact ⟨refs, parent, hrefs, hparent, rfl⟩

end Generator
end WrapperGen
