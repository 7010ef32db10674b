import WrapperGen.Generation.Aggregation
import WrapperGen.Wrapper.Build

/-!
# Shapes of contexts

A shape says which fields and lists a context has, and a template fits a shape if every field it asks
for is among them. A template that fits a shape is filled by every context of that shape. The four
templates fit what they are filled from, so rendering fails for none of them.
-/

namespace WrapperGen.Template

/-- What is known of a value: nothing, the shape of its items, or that of some of its fields. -/
inductive Shape where
  | plain
  | list (item : Shape)
  | record (fields : List (String × Shape))

namespace Shape

mutual

/-- Whether a value has a shape. -/
def Holds : Shape → Value → Prop
  | .plain, _ => True
  | .list item, v => ∃ items, v = .list items ∧ ∀ x ∈ items, item.Holds x
  | .record fields, v => ∃ values, v = .record values ∧ HoldAll fields values

def HoldAll : List (String × Shape) → Named Value → Prop
  | [], _ => True
  | (name, s) :: r, values => (∃ v, Named.get? values name = some v ∧ s.Holds v) ∧ HoldAll r values

end

/-- The shape of what stands at a path. -/
def find? : Shape → List String → Option Shape
  | s, [] => some s
  | .record fields, name :: rest =>
    match Named.get? fields name with
    | some s => s.find? rest
    | none => none
  | _, _ :: _ => none

theorem HoldAll.get? {fields : List (String × Shape)} {values : Named Value}
    (h : HoldAll fields values) {name : String} {s : Shape} (hs : Named.get? fields name = some s) :
    ∃ v, Named.get? values name = some v ∧ s.Holds v := by
  induction fields with
  | nil => exact nomatch hs
  | cons field fields ih =>
    obtain ⟨n, shape⟩ := field
    obtain ⟨hfirst, hrest⟩ := h
    rw [Named.get?] at hs
    split at hs
    · next hn =>
      obtain rfl := Option.some.inj hs
      exact hn ▸ hfirst
    · exact ih hrest hs

theorem exists_find {path : List String} {shape s : Shape} {context : Value}
    (h : shape.Holds context) (hs : shape.find? path = some s) :
    ∃ v, find context path = .value v ∧ s.Holds v := by
  induction path generalizing shape context with
  | nil =>
    obtain rfl : shape = s := by simpa [find?] using hs
    exact ⟨context, by simp [find], h⟩
  | cons name rest ih =>
    cases shape with
    | plain => exact nomatch hs
    | list item => exact nomatch hs
    | record fields =>
      rw [Holds] at h
      obtain ⟨values, rfl, hall⟩ := h
      rw [find?] at hs
      split at hs
      · next field hfield =>
        obtain ⟨v, hv, hholds⟩ := hall.get? hfield
        obtain ⟨w, hw, hresult⟩ := ih hholds hs
        exact ⟨w, by rw [find, hv]; exact hw, hresult⟩
      · exact nomatch hs

end Shape

mutual

/-- Whether a part asks only for what contexts of a shape have. -/
def partFits (shape : Shape) : Part → Bool
  | .text _ => true
  | .print path => (shape.find? path).isSome
  | .when path body => (shape.find? path).isSome && fits shape body
  | .each path body =>
    match shape.find? path with
    | some (.list item) => fits item body
    | _ => false

def fits (shape : Shape) : List Part → Bool
  | [] => true
  | p :: r => partFits shape p && fits shape r

end

theorem exists_mapM_eq_some {α β : Type} {f : α → Option β} {xs : List α}
    (h : ∀ x ∈ xs, ∃ y, f x = some y) : ∃ ys, xs.mapM f = some ys := by
  induction xs with
  | nil => exact ⟨[], rfl⟩
  | cons x xs ih =>
    obtain ⟨y, hy⟩ := h x List.mem_cons_self
    obtain ⟨ys, hys⟩ := ih fun z hz => h z (List.mem_cons_of_mem x hz)
    exact ⟨y :: ys, by simp [List.mapM_cons, hy, hys]⟩

mutual

theorem exists_fillPart {shape : Shape} {context : Value} (hshape : shape.Holds context) :
    ∀ p, partFits shape p = true → ∃ text, fillPart p context = some text
  | .text s, _ => ⟨s, by rw [fillPart]⟩
  | .print path, hfits => by
    rw [partFits, Option.isSome_iff_exists] at hfits
    obtain ⟨s, hs⟩ := hfits
    obtain ⟨v, hv, -⟩ := Shape.exists_find hshape hs
    exact ⟨printed v, by rw [fillPart, hv]⟩
  | .when path body, hfits => by
    rw [partFits, Bool.and_eq_true, Option.isSome_iff_exists] at hfits
    obtain ⟨⟨s, hs⟩, hbody⟩ := hfits
    obtain ⟨v, hv, -⟩ := Shape.exists_find hshape hs
    obtain ⟨text, htext⟩ := exists_fill hshape body hbody
    by_cases hholds : holds v = true
    · exact ⟨text, by simp [fillPart, hv, hholds, htext]⟩
    · exact ⟨"", by simp [fillPart, hv, hholds]⟩
  | .each path body, hfits => by
    rw [partFits] at hfits
    split at hfits
    · next item hs =>
      obtain ⟨v, hv, hlist⟩ := Shape.exists_find hshape hs
      rw [Shape.Holds] at hlist
      obtain ⟨items, rfl, hitems⟩ := hlist
      have hfilled : ∀ x ∈ items, ∃ text, fill body x = some text :=
        fun x hx => exists_fill (hitems x hx) body hfits
      obtain ⟨texts, htexts⟩ := exists_mapM_eq_some hfilled
      exact ⟨String.join texts, by simp [fillPart, hv, itemsOf?, htexts]⟩
    · exact nomatch hfits

theorem exists_fill {shape : Shape} {context : Value} (hshape : shape.Holds context) :
    ∀ parts, fits shape parts = true → ∃ text, fill parts context = some text
  | [], _ => ⟨"", by rw [fill]⟩
  | p :: r, hfits => by
    rw [fits, Bool.and_eq_true] at hfits
    obtain ⟨s, hs⟩ := exists_fillPart hshape p hfits.1
    obtain ⟨t, ht⟩ := exists_fill hshape r hfits.2
    exact ⟨s ++ t, by simp [fill, hs, ht]⟩

end

/-- A template that fits a shape can be rendered from every context of that shape. -/
theorem exists_render {t : Template} {shape : Shape} (hfits : fits shape t.parts = true)
    {context : Value} (hshape : shape.Holds context) (subject : String) :
    ∃ text, t.render subject context = .ok text := by
  obtain ⟨text, htext⟩ := exists_fill hshape t.parts hfits
  exact ⟨text, by rw [render, htext]⟩

end WrapperGen.Template

namespace WrapperGen

open Template (Shape)

def Library.shape : Shape := .record [("module", .plain), ("namespace", .plain)]

theorem Library.shape_holds (l : Library) : Library.shape.Holds l.value := by
  simp [Library.shape, Library.value, Shape.Holds, Shape.HoldAll, Named.get?]

def Import.shape : Shape := .record [("symbol", .plain), ("path", .plain)]

theorem Import.shape_holds (i : Import) : Import.shape.Holds i.value := by
  simp [Import.shape, Import.value, Shape.Holds, Shape.HoldAll, Named.get?]

def Parameter.shape : Shape := .record [("name", .plain), ("default", .plain)]

theorem Parameter.shape_holds (p : Parameter) : Parameter.shape.Holds p.value := by
  simp [Parameter.shape, Parameter.value, Shape.Holds, Shape.HoldAll, Named.get?]

def Field.shape : Shape :=
  .record (["name", "default", "grouping", "converter", "assigner", "serializer", "enum_type",
    "external", "declaration"].map (·, .plain))

theorem Field.shape_holds (f : Field) : Field.shape.Holds f.value := by
  simp [Field.shape, Field.value, Shape.Holds, Shape.HoldAll, Named.get?]

namespace Wrapper

def shape : Shape :=
  .record ((["version", "class_name", "model_name", "export_name", "has_serializers", "has_enums",
      "helpers_import", "traits_import", "enums_import", "override_import", "docs_url"].map
        (·, .plain)) ++
    [("super_class", Import.shape), ("imports", .list Import.shape), ("library", Library.shape),
      ("constructor_args", .list .plain), ("init_args", .list Parameter.shape),
      ("properties", .list Field.shape), ("serialized", .list Field.shape),
      ("enums", .list Field.shape)])

theorem shape_holds (w : Wrapper) : shape.Holds w.value := by
  simp [shape, Wrapper.value, Shape.Holds, Shape.HoldAll, Named.get?, Value.ofTexts, Import.shape_holds,
    Library.shape_holds, Parameter.shape_holds, Field.shape_holds]

theorem template_fits (target : Target) : Template.fits shape (template target).parts = true := by
  cases target <;> decide

/-- A wrapper that is built can be put into words. -/
theorem exists_text (target : Target) (w : Wrapper) : ∃ text, w.text target = .ok text :=
  Template.exists_render (template_fits target) w.shape_holds w.className

end Wrapper

namespace Aggregate

def indexShape : Shape :=
  .record [("version", .plain), ("top", .plain), ("library", Library.shape), ("modules", .list .plain)]

theorem exists_indexText (library : Library) (plan : IndexPlan) :
    ∃ text, indexText library plan = .ok text := by
  have hfits : Template.fits indexShape Template.jsIndex.parts = true := by decide
  refine Template.exists_render hfits ?_ _
  simp [indexShape, Shape.Holds, Shape.HoldAll, Named.get?, Value.ofTexts, Library.shape_holds]

def packageShape : Shape := .record [("version", .plain), ("modules", .list .plain)]

theorem exists_packageText (aggregator : String) (modules : List String) :
    ∃ text, packageText aggregator modules = .ok text := by
  have hfits : Template.fits packageShape Template.pyPackage.parts = true := by decide
  refine Template.exists_render hfits ?_ _
  simp [packageShape, Shape.Holds, Shape.HoldAll, Named.get?, Value.ofTexts]

end Aggregate
end WrapperGen
