import WrapperGen.Host

/-!
# Effects of steps

What a step gives and the host that it leaves, for steps that are put together.
-/

namespace WrapperGen

variable {σ α β : Type}

/-- The host that a step leaves. -/
def Step.after (m : Step σ α) (a : σ) : σ := (m.run a).2

theorem Step.run_eq_after {m : Step σ α} {a : σ} {x : Except Error α} (h : (m.run a).1 = x) :
    m.run a = (x, m.after a) := Prod.ext h rfl

theorem Step.run_bind (m : Step σ α) (f : α → Step σ β) (a : σ) :
    (m >>= f : Step σ β).run a =
      match m.run a with
      | (.ok x, b) => (f x).run b
      | (.error e, b) => (.error e, b) := by
  show (ExceptT.bindCont f (m.run a).1 (m.run a).2) = _
  rcases m.run a with ⟨_ | _, b⟩ <;> rfl

/-- Steps one after the other succeed if both do. -/
theorem Step.run_bind_eq_ok_iff {m : Step σ α} {f : α → Step σ β} {a c : σ} {y : β} :
    (m >>= f : Step σ β).run a = (.ok y, c) ↔
      ∃ x b, m.run a = (.ok x, b) ∧ (f x).run b = (.ok y, c) := by
  rw [run_bind]
  constructor
  · intro h
    rcases hm : m.run a with ⟨e | x, b⟩ <;> rw [hm] at h
    · exact nomatch (Prod.mk.inj h).1
    · exact ⟨x, b, rfl, h⟩
  · rintro ⟨x, b, hm, hf⟩
    rw [hm]
    exact hf

theorem Step.run_mapM_cons {f : α → Step σ β} {x : α} {xs : List α} {y : β} {ys : List β} {a b c : σ}
    (hfirst : (f x).run a = (.ok y, b)) (hrest : (xs.mapM f).run b = (.ok ys, c)) :
    ((x :: xs).mapM f).run a = (.ok (y :: ys), c) := by
  rw [List.mapM_cons]
  exact run_bind_eq_ok_iff.2 ⟨y, b, hfirst, run_bind_eq_ok_iff.2 ⟨ys, c, hrest, rfl⟩⟩

theorem Step.run_mapM_cons_eq_ok_iff {f : α → Step σ β} {x : α} {xs : List α} {zs : List β} {a c : σ} :
    ((x :: xs).mapM f).run a = (.ok zs, c) ↔ ∃ y ys b, zs = y :: ys ∧ (f x).run a = (.ok y, b) ∧
      (xs.mapM f).run b = (.ok ys, c) := by
  refine ⟨fun h => ?_, fun ⟨y, ys, b, hzs, hfirst, hrest⟩ => hzs ▸ run_mapM_cons hfirst hrest⟩
  rw [List.mapM_cons] at h
  obtain ⟨y, b, hfirst, h⟩ := run_bind_eq_ok_iff.1 h
  obtain ⟨ys, d, hrest, h⟩ := run_bind_eq_ok_iff.1 h
  obtain ⟨hzs, rfl⟩ := Prod.mk.inj h
  exact ⟨y, ys, b, (Except.ok.inj hzs).symm, hfirst, hrest⟩

theorem Step.run_get_bind (f : σ → Step σ β) (a : σ) :
    (get >>= f : Step σ β).run a = (f a).run a := rfl

theorem Step.run_pure_eq_ok_iff {a b : σ} {x y : α} :
    (pure x : Step σ α).run a = (.ok y, b) ↔ y = x ∧ b = a := by
  show ((.ok x, a) : Except Error α × σ) = (.ok y, b) ↔ _
  rw [Prod.mk.injEq, Except.ok.injEq, eq_comm, eq_comm (a := a)]

/-- What follows from the result of a step alone changes only the result. -/
theorem Step.run_bind_pure_eq_ok_iff {m : Step σ α} {f : α → β} {a b : σ} {y : β} :
    (m >>= fun x => pure (f x) : Step σ β).run a = (.ok y, b) ↔
      ∃ x, m.run a = (.ok x, b) ∧ y = f x := by
  rw [run_bind_eq_ok_iff]
  constructor
  · rintro ⟨x, c, hx, h⟩
    obtain ⟨rfl, rfl⟩ := run_pure_eq_ok_iff.1 h
    exact ⟨x, hx, rfl⟩
  · rintro ⟨x, hx, rfl⟩
    exact ⟨x, b, hx, rfl⟩

theorem Step.after_get_bind (f : σ → Step σ β) (a : σ) :
    (get >>= f : Step σ β).after a = (f a).after a := rfl

end WrapperGen
