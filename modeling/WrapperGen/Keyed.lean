/-!
# Named in insertion order

`Named α` holds named entries as they are read, so a name may come twice. `Keyed α` holds each name
once, in the order in which names first came. Setting a name that is present replaces its entry where it
stands; setting a new one appends it.
-/

namespace WrapperGen

/-- Named entries in order. -/
abbrev Named (α : Type) := List (String × α)

namespace Named

variable {α : Type}

def get? : Named α → String → Option α
  | [], _ => none
  | (k, a) :: r, name => if k = name then some a else get? r name

def names (m : Named α) : List String := m.map (·.1)

def set : Named α → String → α → Named α
  | [], name, a => [(name, a)]
  | (k, b) :: r, name, a => if k = name then (k, a) :: r else (k, b) :: set r name a

def setAll (m : Named α) (entries : Named α) : Named α :=
  entries.foldl (fun m e => m.set e.1 e.2) m

/-- Named with each name once: a name keeps its first place and takes its last entry. -/
def collapse (entries : Named α) : Named α := setAll [] entries

/-- Drop the entries of a name; the order of the others stays. -/
def erase (m : Named α) (name : String) : Named α := m.filter (·.1 ≠ name)

def has (m : Named α) (name : String) : Bool := m.any (·.1 = name)

theorem get?_set (m : Named α) (k n : String) (a : α) :
    (m.set k a).get? n = if k = n then some a else m.get? n := by
  induction m with
  | nil => simp [set, get?]
  | cons e r ih =>
    obtain ⟨l, b⟩ := e
    by_cases hl : l = k
    · subst hl
      by_cases hn : l = n <;> simp [set, get?, hn]
    · by_cases hn : l = n
      · subst hn
        simp [set, get?, hl, Ne.symm hl]
      · simp [set, get?, hl, hn, ih]

theorem get?_isSome (m : Named α) (name : String) : (m.get? name).isSome = m.has name := by
  induction m with
  | nil => rfl
  | cons e r ih =>
    by_cases h : e.1 = name <;> simp_all [get?, has]

theorem get?_eq_none_iff (m : Named α) (name : String) : m.get? name = none ↔ name ∉ m.names := by
  rw [← Option.not_isSome_iff_eq_none, get?_isSome]
  simp [has, names]

/-- Where names are distinct, an entry is found under its name. -/
theorem get?_eq_some_iff {m : Named α} (h : m.names.Nodup) {name : String} {a : α} :
    m.get? name = some a ↔ (name, a) ∈ m := by
  induction m with
  | nil => simp [get?]
  | cons e r ih =>
    obtain ⟨k, b⟩ := e
    obtain ⟨hfresh, hr⟩ := List.nodup_cons.1 h
    by_cases hk : k = name
    · subst hk
      have habsent : (k, a) ∉ r := fun hmem =>
        hfresh (List.mem_map.2 ⟨_, hmem, rfl⟩)
      simp [get?, habsent, eq_comm]
    · simp [get?, hk, Ne.symm hk, ih hr]

theorem names_set (m : Named α) (name : String) (a : α) :
    (m.set name a).names = if name ∈ m.names then m.names else m.names ++ [name] := by
  induction m with
  | nil => simp [set, names]
  | cons e r ih =>
    obtain ⟨k, b⟩ := e
    by_cases h : k = name
    · simp [set, names, h]
    · have h' : ¬ name = k := fun h'' => h h''.symm
      simp only [names] at ih ⊢
      by_cases hm : name ∈ r.map (·.1) <;> simp_all [set]

theorem nodup_names_set {m : Named α} (h : m.names.Nodup) (name : String) (a : α) :
    (m.set name a).names.Nodup := by
  rw [names_set]
  split
  · exact h
  · next hn =>
    refine List.nodup_append.2 ⟨h, by simp, fun x hx y hy he => hn ?_⟩
    rw [List.mem_singleton.1 hy] at he
    exact he ▸ hx

theorem setAll_cons (m : Named α) (e : String × α) (r : Named α) :
    m.setAll (e :: r) = (m.set e.1 e.2).setAll r := rfl

/-- Where the names of the entries are distinct, they come before what was there. -/
theorem get?_setAll (m : Named α) {entries : Named α} (h : entries.names.Nodup) (name : String) :
    (m.setAll entries).get? name = (entries.get? name).or (m.get? name) := by
  induction entries generalizing m with
  | nil => rfl
  | cons e r ih =>
    obtain ⟨k, a⟩ := e
    obtain ⟨hfresh, hr⟩ := List.nodup_cons.1 h
    rw [setAll_cons, ih _ hr, get?_set]
    by_cases hk : k = name
    · subst hk
      have hnone := (get?_eq_none_iff r k).2 hfresh
      simp [get?, hnone]
    · simp [get?, hk]

/-- The names of set entries stand in the order of their first setting. -/
theorem names_setAll {m : Named α} {before : List String} (h : m.names = before.eraseDups)
    (entries : Named α) : (m.setAll entries).names = (before ++ entries.names).eraseDups := by
  induction entries generalizing m before with
  | nil => simpa [setAll, names] using h
  | cons e r ih =>
    have hset : (m.set e.1 e.2).names = (before ++ [e.1]).eraseDups := by
      rw [names_set, h, List.eraseDups_append]
      by_cases he : e.1 ∈ before <;> simp [he, List.cons_removeAll, List.eraseDups_cons]
    rw [setAll_cons, ih hset]
    simp [names]

theorem nodup_names_setAll {m : Named α} (h : m.names.Nodup) (entries : Named α) :
    (m.setAll entries).names.Nodup := by
  induction entries generalizing m with
  | nil => exact h
  | cons e r ih => exact ih (nodup_names_set h e.1 e.2)

theorem nodup_names_collapse (entries : Named α) : (collapse entries).names.Nodup := by
  refine nodup_names_setAll ?_ entries
  simp [names]

theorem set_of_notMem {m : Named α} {name : String} (h : name ∉ m.names) (a : α) :
    m.set name a = m ++ [(name, a)] := by
  induction m with
  | nil => rfl
  | cons e r ih =>
    obtain ⟨k, b⟩ := e
    have hne : k ≠ name := fun he => h (he ▸ List.mem_cons_self)
    rw [set, if_neg hne, ih fun hr => h (List.mem_cons_of_mem _ hr), List.cons_append]

theorem setAll_of_nodup {m entries : Named α} (h : (m ++ entries).names.Nodup) :
    m.setAll entries = m ++ entries := by
  induction entries generalizing m with
  | nil => rw [List.append_nil]; rfl
  | cons e r ih =>
    have hfresh : e.1 ∉ m.names := fun hmem => by
      rw [names, List.map_append, List.nodup_append] at h
      exact h.2.2 _ hmem e.1 List.mem_cons_self rfl
    rw [setAll_cons, set_of_notMem hfresh, ih (by simpa using h), List.append_assoc]
    rfl

theorem collapse_of_nodup {entries : Named α} (h : entries.names.Nodup) : collapse entries = entries :=
  setAll_of_nodup h

theorem mem_of_mem_set {m : Named α} {name : String} {a : α} {e : String × α} (h : e ∈ m.set name a) :
    e ∈ m ∨ e = (name, a) := by
  induction m with
  | nil => exact .inr (List.mem_singleton.1 h)
  | cons f r ih =>
    obtain ⟨k, b⟩ := f
    rw [set] at h
    split at h
    · next hk =>
      subst hk
      rcases List.mem_cons.1 h with rfl | h
      · exact .inr rfl
      · exact .inl (List.mem_cons_of_mem _ h)
    · rcases List.mem_cons.1 h with rfl | h
      · exact .inl List.mem_cons_self
      · exact (ih h).imp_left (List.mem_cons_of_mem _)

theorem mem_of_mem_setAll {m entries : Named α} {e : String × α} (h : e ∈ m.setAll entries) :
    e ∈ m ∨ e ∈ entries := by
  induction entries generalizing m with
  | nil => exact .inl h
  | cons f r ih =>
    rcases ih h with hset | hr
    · rcases mem_of_mem_set hset with hm | rfl
      · exact .inl hm
      · exact .inr List.mem_cons_self
    · exact .inr (List.mem_cons_of_mem _ hr)

theorem mem_of_mem_collapse {entries : Named α} {e : String × α} (h : e ∈ collapse entries) :
    e ∈ entries :=
  (mem_of_mem_setAll h).resolve_left List.not_mem_nil

theorem nodup_names_erase {m : Named α} (h : m.names.Nodup) (name : String) :
    (m.erase name).names.Nodup :=
  h.sublist (List.filter_sublist.map _)

end Named

/-- Named entries in insertion order, each name once. -/
structure Keyed (α : Type) where
  entries : Named α
  distinct : entries.names.Nodup
deriving DecidableEq, Repr

namespace Keyed

variable {α : Type}

def empty : Keyed α := ⟨[], .nil⟩

instance : Inhabited (Keyed α) := ⟨empty⟩

def get? (m : Keyed α) (name : String) : Option α := m.entries.get? name

def names (m : Keyed α) : List String := m.entries.names

def has (m : Keyed α) (name : String) : Bool := m.entries.has name

def set (m : Keyed α) (name : String) (a : α) : Keyed α :=
  ⟨m.entries.set name a, Named.nodup_names_set m.distinct name a⟩

def setAll (m : Keyed α) (entries : Named α) : Keyed α :=
  ⟨m.entries.setAll entries, Named.nodup_names_setAll m.distinct entries⟩

/-- Named whose names may repeat: a name keeps its first place and takes its last entry. -/
def ofList (entries : Named α) : Keyed α :=
  ⟨entries.collapse, Named.nodup_names_collapse entries⟩

def erase (m : Keyed α) (name : String) : Keyed α :=
  ⟨m.entries.erase name, Named.nodup_names_erase m.distinct name⟩

theorem get?_setAll (m entries : Keyed α) (name : String) :
    (m.setAll entries.entries).get? name = (entries.get? name).or (m.get? name) :=
  Named.get?_setAll m.entries entries.distinct name

theorem ofList_entries (m : Keyed α) : ofList m.entries = m := by
  rw [Keyed.mk.injEq]
  exact Named.collapse_of_nodup m.distinct

theorem names_setAll {m : Keyed α} {before : List String} (h : m.names = before.eraseDups)
    (entries : Named α) : (m.setAll entries).names = (before ++ entries.names).eraseDups :=
  Named.names_setAll h entries

end Keyed
end WrapperGen
