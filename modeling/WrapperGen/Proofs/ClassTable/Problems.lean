import WrapperGen.ClassTable.Problems
import WrapperGen.Proofs.Inheritance.Outcome
import WrapperGen.Reference
import WrapperGen.Wrapper.Construction

/-!
# Problems foresee failures

The check of a table tests references and constructor arguments in its own words. What it finds on a
class is what the code that uses the class fails with: resolution, the collection of references for any
placement and any overrides, and the expressions of the constructor arguments.
-/

namespace WrapperGen

namespace Error

/-- Whether an error says that a class has no resolution. -/
def isResolution : Error → Bool
  | unknownClass _ | cycle _ _ => true
  | _ => false

def isReference : Error → Bool
  | invalidReference _ _ => true
  | _ => false

def isRender : Error → Bool
  | render _ _ => true
  | _ => false

end Error

/-- A name that a class refers to, and the property that does, unless it is a dependency. -/
structure Mention where
  name : String
  property : Option String
deriving DecidableEq

namespace Mention

/-- How a problem cites the name. -/
def cited (m : Mention) : String :=
  match m.property with
  | none => m.name
  | some p => m.name ++ " (property " ++ p ++ ")"

def ofReferent (property : String) : Referent → Option Mention
  | .named c => some ⟨c, some property⟩
  | .base => none

end Mention

/-- What a class refers to besides its superclass: its dependencies as declared, then what its own
properties name as they are declared. -/
def Resolved.mentions (r : Resolved) : List Mention :=
  r.dependencies.map (⟨·, none⟩) ++
    r.ownProperties.entries.flatMap fun e => e.2.references.filterMap (Mention.ofReferent e.1)

namespace ClassTable

variable {t : ClassTable} {r : Resolved}

/-- The names a class refers to that lead nowhere. -/
def dangling (t : ClassTable) (r : Resolved) : List Mention :=
  r.mentions.filter fun m => !t.leads m.name

/-- What the check of a table finds on one class. -/
def findings (t : ClassTable) (c : String) : List Error :=
  match t.resolve c with
  | .ok r => t.problemsOf r
  | .error e => [e]

theorem Faithful.problemsFrom {memo : Memo} (h : t.Faithful memo) (names : List String) :
    t.problemsFrom memo names = names.flatMap t.findings := by
  induction names generalizing memo with
  | nil => rfl
  | cons c rest ih =>
    have hresolve := h.resolveWith_eq c
    have hrest := ih (h.resolveWith c).2
    rw [List.flatMap_cons, findings, ← hresolve, ClassTable.problemsFrom]
    generalize t.resolveWith memo c = called at hrest ⊢
    obtain ⟨_ | r, memo'⟩ := called
    · exact congrArg _ hrest
    · exact congrArg _ hrest

/-- The problems of a table are the findings on its classes, whatever is remembered between them. -/
theorem problems_eq_flatMap_findings (t : ClassTable) : t.problems = t.names.flatMap t.findings :=
  t.faithful_empty.problemsFrom t.names

theorem findings_of_resolve {c : String} (h : t.resolve c = .ok r) :
    t.findings c = t.problemsOf r := by
  rw [findings, h]

theorem isResolution_of_resolve {c : String} {e : Error} (h : t.resolve c = .error e) :
    e.isResolution = true := by
  have hanswer := t.answers_resolve c
  rw [h] at hanswer
  cases hanswer <;> rfl

theorem problemsOf_eq (t : ClassTable) (r : Resolved) :
    t.problemsOf r =
      ((t.dangling r).map fun m => .invalidReference r.className m.cited) ++ argumentProblems r := by
  rw [problemsOf, dangling, Resolved.mentions, List.filter_append, List.map_append]
  congr 2
  · rw [List.filter_map, List.map_map]
    rfl
  · rw [propertyProblems, List.filter_flatMap, List.map_flatMap]
    refine List.flatMap_congr fun e _ => ?_
    rw [List.filter_filterMap, List.map_filterMap]
    refine List.filterMap_congr fun referent _ => ?_
    cases referent with
    | base => rfl
    | named c =>
      cases hleads : t.leads c <;>
        simp [Mention.ofReferent, Mention.cited, Option.filter_some, hleads]

theorem isRender_of_mem_argumentProblems {e : Error} (h : e ∈ argumentProblems r) :
    e.isRender = true := by
  obtain ⟨a, -, ha⟩ := List.mem_filterMap.1 h
  cases a with
  | parameters => exact nomatch ha
  | property name =>
    dsimp only at ha
    split at ha
    · exact nomatch ha
    · rw [← Option.some.inj ha]
      rfl

theorem findings_kinds {c : String} (h : t.resolve c = .ok r) :
    (t.findings c).filter Error.isResolution = [] ∧
    (t.findings c).filter Error.isReference =
      (t.dangling r).map (fun m => .invalidReference c m.cited) ∧
    (t.findings c).filter Error.isRender = argumentProblems r := by
  have harguments : ∀ e ∈ argumentProblems r, e.isRender = true :=
    fun e he => isRender_of_mem_argumentProblems he
  have hkinds : ∀ e : Error, e.isRender = true → e.isResolution = false ∧ e.isReference = false := by
    intro e he
    cases e <;> simp_all [Error.isRender, Error.isResolution, Error.isReference]
  rw [findings_of_resolve h, problemsOf_eq, className_of_resolve h]
  simp only [List.filter_append, List.filter_map]
  refine ⟨?_, ?_, ?_⟩
  · have hnone : (argumentProblems r).filter Error.isResolution = [] :=
      List.filter_eq_nil_iff.2 fun e he => by simp [hkinds e (harguments e he)]
    simp [hnone, Function.comp_def, Error.isResolution]
  · have hnone : (argumentProblems r).filter Error.isReference = [] :=
      List.filter_eq_nil_iff.2 fun e he => by simp [hkinds e (harguments e he)]
    simp [hnone, Function.comp_def, Error.isReference]
  · rw [List.filter_eq_self.2 harguments]
    simp [Function.comp_def, Error.isRender]

end ClassTable

namespace Linker

variable {l : Linker} {r : Resolved}

theorem failure?_locate (l : Linker) (source name : String) :
    failure? (l.locate source name) =
      if l.table.leads name then none else some (.invalidReference source name) := by
  unfold locate ClassTable.leads ClassTable.knows
  have hget : l.table.has name = (l.table.get? name).isSome := (Named.get?_isSome _ _).symm
  rw [hget]
  cases l.table.get? name with
  | some own => simp [failure?]
  | none =>
    by_cases hroot : l.table.isRoot name = true
    · simp [hroot, failure?]
    · by_cases hpath : isBarePath name = true <;> simp [hroot, hpath, failure?]

/-- Collecting what a class names fails with the first name that leads nowhere. -/
theorem failure?_named (l : Linker) (r : Resolved) :
    failure? (l.named r) =
      ((l.table.dangling r).map fun m => .invalidReference r.className m.name).head? := by
  have hdependencies : failure? (r.dependencies.mapM (l.locate r.className)) =
      (((r.dependencies.map (⟨·, none⟩ : String → Mention)).filter fun m =>
        !l.table.leads m.name).map fun m => .invalidReference r.className m.name).head? := by
    rw [failure?_mapM, List.filter_map, List.map_map, ← List.filterMap_eq_filter, List.map_filterMap]
    refine congrArg _ (List.filterMap_congr fun name _ => ?_)
    rw [failure?_locate]
    cases hleads : l.table.leads name <;> simp [Option.guard, hleads]
  have hreferents :
      failure? ((r.ownProperties.entries.flatMap (·.2.references)).mapM
        (l.locateReferent r.className)) =
      (((r.ownProperties.entries.flatMap fun e =>
        e.2.references.filterMap (Mention.ofReferent e.1)).filter fun m =>
          !l.table.leads m.name).map fun m => .invalidReference r.className m.name).head? := by
    rw [failure?_mapM, List.filterMap_flatMap, List.filter_flatMap, List.map_flatMap]
    refine congrArg _ (List.flatMap_congr fun e _ => ?_)
    rw [List.filter_filterMap, List.map_filterMap]
    refine List.filterMap_congr fun referent _ => ?_
    cases referent with
    | base => rfl
    | named c =>
      rw [locateReferent, failure?_locate]
      cases hleads : l.table.leads c <;> simp [Mention.ofReferent, Option.filter_some, hleads]
  rw [ClassTable.dangling, Resolved.mentions, List.filter_append, List.map_append, List.head?_append,
    ← hdependencies, ← hreferents, named, failure?_bind]
  cases r.dependencies.mapM (l.locate r.className) with
  | error e => rfl
  | ok dependencies =>
    dsimp only
    rw [failure?_bind]
    cases (r.ownProperties.entries.flatMap (·.2.references)).mapM (l.locateReferent r.className) <;>
      rfl

/-- The superclass of a class that resolves leads somewhere. -/
theorem exists_parent {c : String} (h : l.table.resolve c = .ok r) : ∃ a, l.parent r = .ok a := by
  cases hsuper : r.superClass with
  | none => exact ⟨l.base, by rw [parent, hsuper]⟩
  | some p =>
    obtain ⟨own, hown⟩ := ClassTable.get?_superClass_of_resolve h hsuper
    exact ⟨⟨p, p, own.unitPathOf p⟩, by simp only [parent, hsuper, locate, hown]⟩

theorem exists_superclass {c : String} (h : l.table.resolve c = .ok r) (file : Path) :
    ∃ ref, l.superclass r file = .ok ref := by
  obtain ⟨a, ha⟩ := exists_parent h
  exact ⟨l.describe file a, by rw [superclass, ha, Except.map]⟩

theorem failure?_references {c : String} (h : l.table.resolve c = .ok r) (file : Path) :
    failure? (l.references r file) =
      ((l.table.dangling r).map fun m => .invalidReference c m.name).head? := by
  obtain ⟨ref, href⟩ := exists_superclass h file
  rw [← ClassTable.className_of_resolve h, ← failure?_named, references, failure?_bind, href]
  dsimp only
  rw [failure?_bind]
  cases l.named r <;> rfl

end Linker

theorem Wrapper.failure?_argumentExpressions (r : Resolved) :
    failure? (argumentExpressions r) = (ClassTable.argumentProblems r).head? := by
  rw [argumentExpressions, failure?_mapM, ClassTable.argumentProblems]
  refine congrArg _ (List.filterMap_congr fun a _ => ?_)
  cases a with
  | parameters => rfl
  | property name =>
    have hget : r.allProperties.has name = (r.allProperties.get? name).isSome :=
      (Named.get?_isSome _ _).symm
    dsimp only
    rw [argumentExpression, argumentProperty, hget]
    cases r.allProperties.get? name <;> rfl

namespace ClassTable

/-- The problems of a table are found class by class. On a class without resolution the finding is the
error of resolving it. Otherwise its references, for any placement, overrides and file, fail with the
first of its names that leads nowhere, if there is one, which is the one the first problem of reference
cites; and the expressions of its arguments fail with its first problem of an argument. -/
theorem findings_foresee_failures (t : ClassTable) (c : String) :
    t.problems = t.names.flatMap t.findings ∧
    (∀ e, t.resolve c = .error e → t.findings c = [e]) ∧
    (∀ e, t.resolve c = .error e ↔ e ∈ t.findings c ∧ e.isResolution = true) ∧
    ∀ r, t.resolve c = .ok r →
      (∀ placement overridden basePath file,
        let l : Linker := ⟨t, placement, overridden, basePath⟩
        ((∃ refs, l.references r file = .ok refs) ↔ ∀ e ∈ t.findings c, e.isReference = false) ∧
        ∀ e, l.references r file = .error e →
          ∃ m, r.mentions.find? (fun m => !t.leads m.name) = some m ∧
            e = .invalidReference c m.name ∧
            (t.findings c).find? Error.isReference = some (.invalidReference c m.cited)) ∧
      ((∃ e ∈ t.findings c, e.isRender = true) ↔ ∃ e, Wrapper.argumentExpressions r = .error e) ∧
      ∀ e, Wrapper.argumentExpressions r = .error e →
        (t.findings c).find? Error.isRender = some e := by
  refine ⟨t.problems_eq_flatMap_findings, fun e he => by rw [findings, he], fun e => ⟨fun he => ?_, ?_⟩,
    fun r hr => ?_⟩
  · exact ⟨by simp [findings, he], isResolution_of_resolve he⟩
  · rintro ⟨hmem, hkind⟩
    cases hr : t.resolve c with
    | error f => simpa [findings, hr, eq_comm] using hmem
    | ok r =>
      have hnone := List.filter_eq_nil_iff.1 (findings_kinds hr).1 e hmem
      exact absurd hkind hnone
  obtain ⟨-, hreference, hrender⟩ := findings_kinds hr
  refine ⟨fun placement overridden basePath file => ?_, ?_, fun e he => ?_⟩
  · have hfails := Linker.failure?_references (l := ⟨t, placement, overridden, basePath⟩) hr file
    dsimp only
    constructor
    · have hnil : (∀ e ∈ t.findings c, e.isReference = false) ↔ t.dangling r = [] := by
        rw [← List.map_eq_nil_iff, ← hreference, List.filter_eq_nil_iff]
        simp
      rw [← failure?_eq_none_iff, hfails, hnil, List.head?_eq_none_iff, List.map_eq_nil_iff]
    · intro e he
      rw [he, List.head?_map] at hfails
      obtain ⟨m, hm, rfl⟩ := Option.map_eq_some_iff.1 hfails.symm
      refine ⟨m, by rw [← List.head?_filter]; exact hm, rfl, ?_⟩
      rw [← List.head?_filter, hreference, List.head?_map, hm]
      rfl
  · have hnil : (∃ e ∈ t.findings c, e.isRender = true) ↔ argumentProblems r ≠ [] := by
      rw [← hrender, Ne, List.filter_eq_nil_iff]
      simp
    have hfails : (∃ e, Wrapper.argumentExpressions r = .error e) ↔
        failure? (Wrapper.argumentExpressions r) ≠ none := by
      cases Wrapper.argumentExpressions r <;> simp [failure?]
    rw [hnil, hfails, Wrapper.failure?_argumentExpressions, Ne, Ne, List.head?_eq_none_iff]
  · rw [← List.head?_filter, hrender, ← Wrapper.failure?_argumentExpressions, he]
    rfl

end ClassTable
end WrapperGen
