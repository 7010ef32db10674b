import WrapperGen.Proofs.Template.Reading
import WrapperGen.Template.Basic

/-!
# Filling whole lines

Where the parts of a template end with their lines, groups of them are filled on their own: one after the
other, a block on a condition with all its lines or with none, and a block for a list with the lines of its
first item, then those of the next. What is filled in is not read again, so the lines of an item are made of
its text as it stands.
-/

namespace WrapperGen

namespace Text

/-- Lines with their ends. -/
def ofLines (lines : List String) : String := String.join (lines.map (· ++ "\n"))

@[simp] theorem ofLines_nil : ofLines [] = "" := rfl

theorem ofLines_cons (line : String) (lines : List String) :
    ofLines (line :: lines) = line ++ "\n" ++ ofLines lines := by
  simp [ofLines, String.join_cons]

theorem ofLines_append (lines more : List String) :
    ofLines (lines ++ more) = ofLines lines ++ ofLines more := by
  simp [ofLines, String.join_append]

theorem ofLines_flatMap {α : Type} (linesOf : α → List String) (xs : List α) :
    ofLines (xs.flatMap linesOf) = String.join (xs.map fun x => ofLines (linesOf x)) := by
  induction xs with
  | nil => rfl
  | cons x xs ih => rw [List.flatMap_cons, ofLines_append, ih, List.map_cons, String.join_cons]

/-- Lines without line ends in them can be told apart again. -/
theorem pieces_ofLines {lines : List String} (h : ∀ line ∈ lines, '\n' ∉ line.toList) :
    pieces '\n' (ofLines lines) = lines ++ [""] := by
  induction lines with
  | nil => decide
  | cons line lines ih =>
    rw [ofLines_cons, pieces_append (by decide), pieces_eq_singleton (h line List.mem_cons_self),
      ih fun other hother => h other (List.mem_cons_of_mem line hother)]
    rfl

end Text

namespace Template

/-- Whether parts are filled with certain lines. -/
def FillsLines (context : Value) (parts : List Part) (lines : List String) : Prop :=
  fill parts context = some (Text.ofLines lines)

theorem fill_append (parts rest : List Part) (context : Value) :
    fill (parts ++ rest) context = do return (← fill parts context) ++ (← fill rest context) := by
  induction parts with
  | nil => simp [fill]
  | cons p parts ih =>
    simp only [List.cons_append, fill, ih]
    cases fillPart p context <;> cases fill parts context <;> cases fill rest context <;>
      simp [String.append_assoc]

namespace FillsLines

variable {context : Value} {parts rest body : List Part} {lines more : List String} {path : List String}

theorem append (h : FillsLines context parts lines) (hrest : FillsLines context rest more) :
    FillsLines context (parts ++ rest) (lines ++ more) := by
  rw [FillsLines] at h hrest ⊢
  rw [fill_append, h, hrest, Text.ofLines_append]
  rfl

theorem when {b : Bool} (hpath : find context path = .value (.bool b))
    (hbody : FillsLines context body lines) :
    FillsLines context [.when path body] (if b then lines else []) := by
  rw [FillsLines] at hbody ⊢
  rw [fill, fillPart, hpath]
  cases b with
  | false => rfl
  | true => simp [holds, hbody, fill]

theorem each {α : Type} {value : α → Value} {xs : List α} {linesOf : α → List String}
    (hpath : find context path = .value (.list (xs.map value)))
    (hbody : ∀ x, FillsLines (value x) body (linesOf x)) :
    FillsLines context [.each path body] (xs.flatMap linesOf) := by
  have htexts : (xs.map value).mapM (fill body) = some (xs.map fun x => Text.ofLines (linesOf x)) := by
    have hfill : fill body ∘ value = fun x => some (Text.ofLines (linesOf x)) := funext hbody
    rw [List.mapM_map, hfill]
    exact List.mapM_pure
  rw [FillsLines, Text.ofLines_flatMap, fill, fillPart, hpath]
  simp [itemsOf?, htexts, fill]

end FillsLines

/-- Whether lines of a template write certain lines. -/
def Writes (context : Value) (source lines : List String) : Prop :=
  ∃ parts, read? source = some parts ∧ FillsLines context parts lines

namespace Writes

variable {context : Value} {source other lines more : List String} {path : List String} {inside : String}

theorem append (h : Writes context source lines) (hother : Writes context other more) :
    Writes context (source ++ other) (lines ++ more) := by
  obtain ⟨parts, hread, hfills⟩ := h
  obtain ⟨rest, hother, hrest⟩ := hother
  exact ⟨parts ++ rest, read?_append hread hother, hfills.append hrest⟩

/-- A line writes what its parts are filled with. -/
theorem line {parts : List Part} {written line : String} (hread : read? [written] = some parts)
    (hfill : fill parts context = some (line ++ "\n")) : Writes context [written] [line] :=
  ⟨parts, hread, by rw [FillsLines, hfill, Text.ofLines_cons, Text.ofLines_nil, String.append_empty]⟩

/-- Lines without tags write themselves. -/
theorem plain (h : ∀ line ∈ lines, '\x7b' ∉ line.toList) : Writes context lines lines := by
  induction lines with
  | nil => exact ⟨[], rfl, rfl⟩
  | cons first lines ih =>
    have hfirst : Writes context [first] [first] :=
      .line (read?_plain (h first List.mem_cons_self)) (by simp [fill, fillPart])
    exact hfirst.append (ih fun other hother => h other (List.mem_cons_of_mem first hother))

/-- A line in which a text is printed writes it as it is, between what stands around the tag. -/
theorem print {before after s : String} (hne : before ≠ "") (hbefore : '\x7b' ∉ before.toList)
    (hinside : '\x7d' ∉ inside.toList) (hafter : '\x7b' ∉ after.toList)
    (htag : tag? inside.toList = some (.print path)) (hfind : find context path = .value (.text s)) :
    Writes context [before ++ tag inside ++ after] [before ++ s ++ after] := by
  refine .line (read?_print hne hbefore hinside hafter htag) ?_
  simp [fill, fillPart, hfind, printed, String.append_assoc]

/-- A block on a condition writes what its body does, or nothing. -/
theorem when {b : Bool} (hinside : '\x7d' ∉ inside.toList)
    (htag : tag? inside.toList = some (.start .when path)) (hpath : find context path = .value (.bool b))
    (hbody : Writes context source lines) :
    Writes context ([tag inside] ++ source ++ [tag "/if"]) (if b then lines else []) := by
  obtain ⟨parts, hread, hfills⟩ := hbody
  have hstop : lineTokens? (tag "/if").toList = some [.stop .when] :=
    lineTokens?_tag (by decide) (by decide) rfl
  exact ⟨_, read?_block (lineTokens?_tag hinside htag rfl) hstop hread, hfills.when hpath⟩

/-- A block for a list writes the lines of every item, in order. -/
theorem each {α : Type} {value : α → Value} {xs : List α} {linesOf : α → List String} {parts : List Part}
    (hinside : '\x7d' ∉ inside.toList) (htag : tag? inside.toList = some (.start .each path))
    (hpath : find context path = .value (.list (xs.map value))) (hread : read? source = some parts)
    (hbody : ∀ x, FillsLines (value x) parts (linesOf x)) :
    Writes context ([tag inside] ++ source ++ [tag "/each"]) (xs.flatMap linesOf) := by
  have hstop : lineTokens? (tag "/each").toList = some [.stop .each] :=
    lineTokens?_tag (by decide) (by decide) rfl
  exact ⟨_, read?_block (lineTokens?_tag hinside htag rfl) hstop hread, .each hpath hbody⟩

/-- A list of texts is written one line each, in order, with every text as it is. -/
theorem listing {before after : String} {texts : List String} (hinside : '\x7d' ∉ inside.toList)
    (htag : tag? inside.toList = some (.start .each path))
    (hpath : find context path = .value (.ofTexts texts)) (hne : before ≠ "")
    (hbefore : '\x7b' ∉ before.toList) (hafter : '\x7b' ∉ after.toList) :
    Writes context ([tag inside] ++ [before ++ tag "this" ++ after] ++ [tag "/each"])
      (texts.map fun s => before ++ s ++ after) := by
  have hread : read? [before ++ tag "this" ++ after] =
      some [.text before, .print [], .text (after ++ "\n")] :=
    read?_print hne hbefore (by decide) hafter (by decide)
  rw [List.map_eq_flatMap]
  refine .each hinside htag hpath hread fun s => ?_
  simp [FillsLines, fill, fillPart, find, printed, Text.ofLines_cons, String.append_assoc]

end Writes

theorem render_of_writes {t : Template} {context : Value} {lines : List String}
    (h : Writes context t.lines lines) (subject : String) :
    t.render subject context = .ok (Text.ofLines lines) := by
  obtain ⟨parts, hread, hfills⟩ := h
  obtain rfl := Option.some.inj (t.reads.symm.trans hread)
  rw [render, hfills]

end Template
end WrapperGen
