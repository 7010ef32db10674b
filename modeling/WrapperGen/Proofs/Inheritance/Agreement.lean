import Mathlib.Logic.Relation
import WrapperGen.Proofs.Inheritance.Resolution

/-!
# Tables that agree above a class

Walking up from a class one meets some of the names of a table. Resolving the class reads the records
under these names, the defaults and the root. Tables that agree on them resolve the class alike,
whatever else they hold and in whatever order.
-/

namespace WrapperGen.ClassTable

variable {t u : ClassTable} {c d p : String}

/-- `t.Meets c d`: walking up from `c` one comes to `d`, which need not be a class. -/
def Meets (t : ClassTable) : String → String → Prop := Relation.ReflTransGen t.Extends

/-- `t.AgreesAbove c u`: `u` has the root and the defaults of `t`, and its record under every name
that is met from `c`, or like `t` none. -/
structure AgreesAbove (t : ClassTable) (c : String) (u : ClassTable) : Prop where
  root : u.root = t.root
  defaults : u.defaults = t.defaults
  record : ∀ d, t.Meets c d → u.get? d = t.get? d

theorem Extends.of_record_eq (h : t.Extends c p) (hroot : u.root = t.root)
    (hdefaults : u.defaults = t.defaults) (hrecord : u.get? c = t.get? c) : u.Extends c p := by
  cases h with
  | own record named inner => exact .own (hrecord.trans record) named (hroot ▸ inner)
  | default record silent named other inner =>
    exact .default (hrecord.trans record) silent (hdefaults ▸ named) other (hroot ▸ inner)

theorem Walk.meets {cs : List String} (h : t.Walk c cs) : ∀ d ∈ cs, t.Meets c d := by
  obtain ⟨hhead, hchain⟩ := h
  induction cs generalizing c with
  | nil => simp
  | cons b cs ih =>
    obtain rfl : b = c := by simpa using hhead
    intro d hd
    rcases List.mem_cons.1 hd with rfl | hd
    · exact .refl
    · cases cs with
      | nil => simp at hd
      | cons p cs =>
        obtain ⟨step, hchain⟩ := List.isChain_cons_cons.1 hchain
        exact (ih rfl hchain d hd).head step

/-- Besides the record itself, merging reads the root and the defaults of a table. -/
theorem merge_congr (hroot : u.root = t.root) (hdefaults : u.defaults = t.defaults) (name : String)
    (own : ClassRecord) (above : Option Resolved) : u.merge name own above = t.merge name own above := by
  simp only [merge, parent?, isRoot, hroot, hdefaults]

namespace AgreesAbove

theorem extends_iff (h : t.AgreesAbove c u) (hd : t.Meets c d) : u.Extends d p ↔ t.Extends d p :=
  ⟨fun step => step.of_record_eq h.root.symm h.defaults.symm (h.record d hd).symm,
    fun step => step.of_record_eq h.root h.defaults (h.record d hd)⟩

/-- Every superclass that is met is agreed on in its turn. -/
theorem above (h : t.AgreesAbove c u) (step : t.Extends c p) : t.AgreesAbove p u :=
  ⟨h.root, h.defaults, fun d hd => h.record d (hd.head step)⟩

theorem has_iff (h : t.AgreesAbove c u) (hd : t.Meets c d) : u.has d ↔ t.has d := by
  rw [ClassTable.has_iff, ClassTable.has_iff, h.record d hd]

theorem lineage {line : Named ClassRecord} (h : t.AgreesAbove c u) (hline : t.Lineage c line) :
    u.Lineage c line := by
  induction hline with
  | @top c r record last =>
    exact .top ((h.record c .refl).trans record) fun p step => last p ((h.extends_iff .refl).1 step)
  | @link c p r line record step _ ih =>
    exact .link ((h.record c .refl).trans record) ((h.extends_iff .refl).2 step) (ih (h.above step))

theorem merged (h : t.AgreesAbove c u) (line : Named ClassRecord) : u.merged line = t.merged line := by
  induction line with
  | nil => rfl
  | cons e line ih => rw [merged_cons, merged_cons, ih, merge_congr h.root h.defaults]

theorem walk {cs : List String} (h : t.AgreesAbove c u) (hwalk : t.Walk c cs) : u.Walk c cs := by
  refine ⟨hwalk.1, ?_⟩
  have hmeets := hwalk.meets
  exact hwalk.2.imp_of_mem_imp fun d p hd _ step => (h.extends_iff (hmeets d hd)).2 step

theorem ends {e : Ending} (h : t.AgreesAbove c u) (hends : t.Ends c e) : u.Ends c e := by
  cases e with
  | top =>
    obtain ⟨cs, d, walk, nodup, known, last⟩ := hends
    have hmeets := walk.meets
    exact ⟨cs, d, h.walk walk, nodup, fun b hb => (h.has_iff (hmeets b hb)).2 (known b hb),
      fun p step => last p ((h.extends_iff (hmeets d (by simp))).1 step)⟩
  | missing n =>
    obtain ⟨cs, walk, nodup, known, absent⟩ := hends
    have hmeets := walk.meets
    exact ⟨cs, h.walk walk, nodup,
      fun b hb => (h.has_iff (hmeets b (List.mem_append_left _ hb))).2 (known b hb),
      fun hn => absent ((h.has_iff (hmeets n (by simp))).1 hn)⟩
  | repeated route =>
    obtain ⟨cs, d, hroute, walk, nodup, again⟩ := hends
    exact ⟨cs, d, hroute, h.walk walk, nodup, again⟩

theorem answers {a : Except Error Resolved} (h : t.AgreesAbove c u) (ha : t.Answers c a) :
    u.Answers c a := by
  cases ha with
  | resolved lineage merged => exact .resolved (h.lineage lineage) ((h.merged _).trans merged)
  | unknown ends => exact .unknown (h.ends ends)
  | cycle ends => exact .cycle (h.ends ends)

/-- A class resolves alike in tables that agree above it, whatever each has resolved before. -/
theorem resolveWith_eq {memo memo' : Memo} (h : t.AgreesAbove c u) (hmemo : t.Faithful memo)
    (hmemo' : u.Faithful memo') : (u.resolveWith memo' c).1 = (t.resolveWith memo c).1 :=
  (hmemo'.resolveWith c).1.unique (h.answers (hmemo.resolveWith c).1)

end AgreesAbove
end WrapperGen.ClassTable
