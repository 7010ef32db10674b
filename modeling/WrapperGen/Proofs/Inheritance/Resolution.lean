import Std.Data.HashMap.Lemmas
import WrapperGen.Proofs.Inheritance.Climb

/-!
# Resolution with a memory

Resolving a class answers the same whatever has been resolved before, because all that is remembered is
what the class resolves to on its own. A failing call leaves the memory as it was.
-/

namespace WrapperGen.ClassTable

variable {t : ClassTable} {memo : Memo}

/-- The one answer that resolving `c` may give. -/
inductive Answers (t : ClassTable) (c : String) : Except Error Resolved → Prop
  | resolved {line : Named ClassRecord} {r : Resolved} (lineage : t.Lineage c line)
      (merged : t.merged line = some r) : Answers t c (.ok r)
  | unknown {n : String} (ends : t.Ends c (.missing n)) : Answers t c (.error (.unknownClass n))
  | cycle {route : List String} (ends : t.Ends c (.repeated route)) :
      Answers t c (.error (.cycle c route))

theorem Answers.unique {c : String} {a b : Except Error Resolved} (ha : t.Answers c a)
    (hb : t.Answers c b) : a = b := by
  cases ha with
  | resolved lineage merged =>
    cases hb with
    | resolved lineage' merged' =>
      obtain rfl := lineage.unique lineage'
      rw [Option.some.inj (merged.symm.trans merged')]
    | unknown ends => exact nomatch lineage.ends.unique ends
    | cycle ends => exact nomatch lineage.ends.unique ends
  | unknown ends =>
    cases hb with
    | resolved lineage _ => exact nomatch lineage.ends.unique ends
    | unknown ends' => rw [Ending.missing.inj (ends.unique ends')]
    | cycle ends' => exact nomatch ends.unique ends'
  | cycle ends =>
    cases hb with
    | resolved lineage _ => exact nomatch lineage.ends.unique ends
    | unknown ends' => exact nomatch ends.unique ends'
    | cycle ends' => rw [Ending.repeated.inj (ends.unique ends')]

/-- The invariant of the memory: a remembered class is what it resolves to. -/
def Faithful (t : ClassTable) (memo : Memo) : Prop :=
  ∀ c r, memo[c]? = some r → t.Answers c (.ok r)

theorem faithful_empty (t : ClassTable) : t.Faithful {} := by
  intro c r h
  simp at h

theorem Faithful.insert {c : String} {r : Resolved} (h : t.Faithful memo)
    (hr : t.Answers c (.ok r)) : t.Faithful (memo.insert c r) := by
  intro d s hs
  rw [Std.HashMap.getElem?_insert] at hs
  split at hs
  · next hcd =>
    rw [← beq_iff_eq.1 hcd, ← Option.some.inj hs]
    exact hr
  · exact h d s hs

theorem mergeDown_snd (memo : Memo) (links line : Named ClassRecord) :
    (t.mergeDown memo (t.merged line) links).2 = t.merged (links.reverse ++ line) := by
  induction links generalizing memo line with
  | nil => rfl
  | cons e links ih =>
    simp only [mergeDown, ← merged_cons, List.reverse_cons, List.append_assoc]
    exact ih _ _

theorem Faithful.mergeDown {c : String} {links line : Named ClassRecord} (h : t.Faithful memo)
    (hline : t.Lineage c (links.reverse ++ line)) :
    t.Faithful (t.mergeDown memo (t.merged line) links).1 := by
  induction links generalizing memo line with
  | nil => exact h
  | cons e links ih =>
    -- The top link is merged, and moves over to the part of the lineage that has been.
    simp only [List.reverse_cons, List.append_assoc, List.cons_append, List.nil_append] at hline
    simp only [ClassTable.mergeDown, ← merged_cons]
    exact ih (h.insert (.resolved hline.of_append (merged_cons _ _ _))) hline

theorem exists_mergeDown {links : Named ClassRecord} (h : links ≠ []) (memo : Memo)
    (above : Option Resolved) : ∃ r, (t.mergeDown memo above links).2 = some r := by
  induction links generalizing memo above with
  | nil => exact absurd rfl h
  | cons e links ih =>
    simp only [ClassTable.mergeDown]
    cases links with
    | nil => exact ⟨_, rfl⟩
    | cons f links => exact ih (by simp) _ _

/-- What a climb hands over to be merged: the lower part of a lineage, and what the rest of it has been
merged to. -/
theorem Faithful.ascend_ok {c : String} {chain : Chain} (h : t.Faithful memo)
    (hchain : t.ascend memo c = .ok chain) :
    ∃ line, t.merged line = chain.above ∧ t.Lineage c (chain.links.reverse ++ line) := by
  obtain ⟨a, ha, hstep⟩ := t.ascend_last_step memo c
  rw [hchain] at hstep
  cases hstep with
  | top record fresh last =>
    refine ⟨[], rfl, ?_⟩
    simpa using ha.lineage (.top record last)
  | met record fresh step known =>
    obtain ⟨lineage, merged⟩ := h _ _ known
    refine ⟨_, merged, ?_⟩
    simpa using ha.lineage (.link record step lineage)

theorem ascend_links_ne_nil {c : String} {chain : Chain} (hchain : t.ascend memo c = .ok chain) :
    chain.links ≠ [] := by
  obtain ⟨a, _, hstep⟩ := t.ascend_last_step memo c
  rw [hchain] at hstep
  cases hstep <;> simp

theorem ascend_error {c : String} {e : Error} (hchain : t.ascend memo c = .error e) :
    t.Answers c (.error e) := by
  obtain ⟨a, ha, hstep⟩ := t.ascend_last_step memo c
  rw [hchain] at hstep
  have hknown : ∀ b ∈ a.passed.names.reverse, t.has b := by simpa using ha.has
  have hnodup : a.passed.names.reverse.Nodup := List.pairwise_reverse.2 (ha.nodup.imp Ne.symm)
  cases hstep with
  | missing absent =>
    refine .unknown ⟨_, ha.walk, hnodup, hknown, fun hhas => ?_⟩
    obtain ⟨r, hr⟩ := has_iff.1 hhas
    simp [absent] at hr
  | again again => exact .cycle ⟨_, _, rfl, ha.walk, hnodup, by simpa using again⟩

/-- The three ways a call goes: a hit, a climb that fails, and a climb that is merged. -/
theorem resolveWith_cases (t : ClassTable) (memo : Memo) (c : String) :
    (∃ r, memo[c]? = some r ∧ t.resolveWith memo c = (.ok r, memo)) ∨
    (∃ e, t.ascend memo c = .error e ∧ t.resolveWith memo c = (.error e, memo)) ∨
    ∃ chain r, t.ascend memo c = .ok chain ∧
      (t.mergeDown memo chain.above chain.links).2 = some r ∧
      t.resolveWith memo c = (.ok r, (t.mergeDown memo chain.above chain.links).1) := by
  unfold resolveWith
  cases hit : memo[c]? with
  | some r => exact .inl ⟨r, rfl, rfl⟩
  | none =>
    cases hchain : t.ascend memo c with
    | error e => exact .inr (.inl ⟨e, rfl, rfl⟩)
    | ok chain =>
      obtain ⟨r, hr⟩ := exists_mergeDown (t := t) (ascend_links_ne_nil hchain) memo chain.above
      refine .inr (.inr ⟨chain, r, rfl, hr, ?_⟩)
      -- The call takes apart what merging returns, so the pair is named as a whole.
      dsimp only
      generalize t.mergeDown memo chain.above chain.links = merged at hr ⊢
      obtain ⟨memo', last⟩ := merged
      obtain rfl : last = some r := hr
      rfl

theorem Faithful.resolveWith (h : t.Faithful memo) (c : String) :
    t.Answers c (t.resolveWith memo c).1 ∧ t.Faithful (t.resolveWith memo c).2 := by
  rcases t.resolveWith_cases memo c with ⟨r, hit, heq⟩ | ⟨e, hchain, heq⟩ | ⟨chain, r, hchain, hr, heq⟩
  · rw [heq]
    exact ⟨h c r hit, h⟩
  · rw [heq]
    exact ⟨ascend_error hchain, h⟩
  · obtain ⟨line, habove, hline⟩ := h.ascend_ok hchain
    rw [heq, ← habove]
    rw [← habove, mergeDown_snd] at hr
    exact ⟨.resolved hline hr, h.mergeDown hline⟩

theorem resolveWith_snd_of_error {c : String} {e : Error}
    (h : (t.resolveWith memo c).1 = .error e) : (t.resolveWith memo c).2 = memo := by
  rcases t.resolveWith_cases memo c with ⟨r, _, heq⟩ | ⟨e', _, heq⟩ | ⟨chain, r, _, _, heq⟩
  · rw [heq]
  · rw [heq]
  · rw [heq] at h
    cases h

theorem answers_resolve (t : ClassTable) (c : String) : t.Answers c (t.resolve c) :=
  (t.faithful_empty.resolveWith c).1

theorem Faithful.resolveWith_eq (h : t.Faithful memo) (c : String) :
    (t.resolveWith memo c).1 = t.resolve c :=
  (h.resolveWith c).1.unique (t.answers_resolve c)

/-- Resolve classes one after the other; all answers, and what is remembered at the end. -/
def resolveEach (t : ClassTable) : Memo → List String → List (Except Error Resolved) × Memo
  | memo, [] => ([], memo)
  | memo, c :: rest =>
    let (answer, memo') := t.resolveWith memo c
    let (answers, last) := t.resolveEach memo' rest
    (answer :: answers, last)

theorem Faithful.resolveEach (h : t.Faithful memo) (names : List String) :
    (t.resolveEach memo names).1 = names.map t.resolve ∧
      t.Faithful (t.resolveEach memo names).2 := by
  induction names generalizing memo with
  | nil => exact ⟨rfl, h⟩
  | cons c rest ih =>
    obtain ⟨hrest, hlast⟩ := ih (h.resolveWith c).2
    refine ⟨?_, hlast⟩
    simp only [ClassTable.resolveEach, List.map_cons, hrest, h.resolveWith_eq c]

/-- Calls on one memory answer as calls without any, and one that fails changes nothing. -/
theorem resolveEach_eq_map_resolve (t : ClassTable) (names : List String) :
    (t.resolveEach {} names).1 = names.map t.resolve ∧
      ∀ earlier c e, (t.resolveWith (t.resolveEach {} earlier).2 c).1 = .error e →
        (t.resolveWith (t.resolveEach {} earlier).2 c).2 = (t.resolveEach {} earlier).2 :=
  ⟨(t.faithful_empty.resolveEach names).1, fun _ _ _ h => resolveWith_snd_of_error h⟩

end WrapperGen.ClassTable
