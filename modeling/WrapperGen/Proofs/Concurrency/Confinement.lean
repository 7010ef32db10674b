import WrapperGen.Proofs.Concurrency.Script
import WrapperGen.Proofs.FileTree.Footprint

/-!
# Confined scripts

A script is confined to a location of a tree when all its paths aim below it and what it learns of the tree
is what stands there. What others do elsewhere it does not notice, and of what is elsewhere it changes
nothing but to make the directories above the location.
-/

namespace WrapperGen

open FileTree (Keeps)

/-- What is not below the location `R` is in `c` as it is in `b`, but for directories that stand above
`R`. -/
def FileTree.Spares (R : Location) (b c : FileTree) : Prop :=
  ∀ k, ¬ R <+: k →
    c.entry? k = b.entry? k ∨ c.entry? k = some .dir ∧ k <+: R ∧ c.entry? R = some .dir

/-- What others do while a script works at the location `R`: they take nothing away, and at `R` and below it
they change nothing. -/
structure FileTree.Aside (R : Location) (b c : FileTree) : Prop where
  keeps : Keeps b c
  agree : Agree R b c

namespace FileTree.Aside

variable {R : Location} {b c d : FileTree}

theorem refl (R : Location) (t : FileTree) : Aside R t t := ⟨.refl t, fun _ => rfl⟩

theorem trans (h : Aside R b c) (h' : Aside R c d) : Aside R b d :=
  ⟨h.keeps.trans h'.keeps, h.agree.trans h'.agree⟩

end FileTree.Aside

namespace Op

variable {a b c b' c' : FileTree} {R : Location} {op : Op} {x x' : op.Answer}

/-- Whether the path of an operation aims below a location. -/
def Inside (a : FileTree) (R : Location) : Op → Prop
  | ask p => ∃ names, a.aim? p = some (R ++ names)
  | look => True
  | raise p | put p _ | create p => ∃ names n, a.Aims p (R ++ names) n

/-- Whether two answers say the same of what stands below a location. -/
def Alike (a : FileTree) (R : Location) : (op : Op) → op.Answer → op.Answer → Prop
  | ask _, x, y => x = y
  | look, b, c => Keeps a b ∧ Keeps a c ∧ FileTree.Agree R b c
  | raise _, _, _ => True
  | put _ _, _, _ => True
  | create _, x, y => x = y

/-- What an operation with a given answer has put at a location. -/
def made (a : FileTree) : (op : Op) → op.Answer → Location → Option Entry
  | ask _, _, _ => none
  | look, _, _ => none
  | raise p, _, k => (a.aim? p).bind fun l => if k <+: l.dropLast then some .dir else none
  | put p text, _, k => if a.aim? p = some k then some (.file text.toUTF8) else none
  | create p, created, k =>
    if created = true ∧ a.aim? p = some k then some (.file .empty) else none

theorem run_ask_eq_ok_iff {p : Path} {x : Bool} :
    (ask p).perform.run b = (.ok x, c) ↔ x = b.isFile p ∧ c = b := by
  show ((.ok (b.isFile p), b) : Except Error Bool × FileTree) = _ ↔ _
  rw [Prod.mk.injEq, Except.ok.injEq, eq_comm, eq_comm (a := b)]

theorem run_look_eq_ok_iff {x : FileTree} : look.perform.run b = (.ok x, c) ↔ x = b ∧ c = b := by
  show ((.ok b, b) : Except Error FileTree × FileTree) = _ ↔ _
  rw [Prod.mk.injEq, Except.ok.injEq, eq_comm, eq_comm (a := b) (b := c)]

theorem run_put_eq_ok_iff {p : Path} {text : String} {x : Unit} :
    (put p text).perform.run b = (.ok x, c) ↔ b.write p text.toUTF8 = .ok c :=
  FileTree.run_commit_eq_ok_iff

theorem run_create_cases {p : Path} {x : Bool} (h : (create p).perform.run b = (.ok x, c)) :
    x = true ∧ b.create p = .ok c ∨ x = false ∧ b.create p = .error .alreadyExists ∧ c = b := by
  unfold perform at h
  rw [Step.run_get_bind] at h
  cases hcreate : b.create p with
  | ok t =>
    rw [hcreate] at h
    obtain ⟨hmade, rfl⟩ := Prod.mk.inj h
    exact .inl ⟨(Except.ok.inj hmade).symm, rfl⟩
  | error f =>
    rw [hcreate] at h
    cases f with
    | alreadyExists =>
      obtain ⟨hmade, rfl⟩ := Prod.mk.inj h
      exact .inr ⟨(Except.ok.inj hmade).symm, rfl, rfl⟩
    | _ => cases (Prod.mk.inj h).1

/-- An operation takes nothing away. -/
theorem keeps_perform (h : op.perform.run b = (.ok x, c)) : Keeps b c := by
  cases op with
  | ask p =>
    obtain ⟨-, rfl⟩ := run_ask_eq_ok_iff.1 h
    exact .refl c
  | look =>
    obtain ⟨-, rfl⟩ := run_look_eq_ok_iff.1 h
    exact .refl c
  | raise p => exact (FileTree.grows_of_run_ensureParent h).toKeeps
  | put p text => exact (FileTree.grows_write (run_put_eq_ok_iff.1 h)).toKeeps
  | create p =>
    rcases run_create_cases h with ⟨-, hcreate⟩ | ⟨-, -, rfl⟩
    · exact (FileTree.grows_create hcreate).toKeeps
    · exact .refl c

/-- After an operation stands what it has put there, and else what stood before. -/
theorem entry?_perform (hin : op.Inside a R) (hb : Keeps a b) (h : op.perform.run b = (.ok x, c))
    (k : Location) : c.entry? k = (op.made a x k).or (b.entry? k) := by
  cases op with
  | ask p =>
    obtain ⟨-, rfl⟩ := run_ask_eq_ok_iff.1 h
    rfl
  | look =>
    obtain ⟨-, rfl⟩ := run_look_eq_ok_iff.1 h
    rfl
  | raise p =>
    obtain ⟨names, n, haims⟩ := hin
    rw [haims.entry?_ensureParent hb h k, made, haims.2.1, Option.bind_some, List.dropLast_concat]
    split <;> rfl
  | put p text =>
    obtain ⟨names, n, haims⟩ := hin
    rw [FileTree.entry?_write hb.home haims.2.1 (run_put_eq_ok_iff.1 h) k, made, haims.2.1]
    simp only [Option.some.injEq, eq_comm (a := k)]
    split <;> rfl
  | create p =>
    obtain ⟨names, n, haims⟩ := hin
    rcases run_create_cases h with ⟨rfl, hcreate⟩ | ⟨rfl, -, rfl⟩
    · rw [(FileTree.entry?_create hb.home haims.2.1 hcreate).2 k, made, haims.2.1]
      simp only [Option.some.injEq, eq_comm (a := k), true_and]
      split <;> rfl
    · simp [made]

theorem made_eq_of_alike (h : op.Alike a R x x') : op.made a x = op.made a x' := by
  cases op with
  | create p => rw [show x = x' from h]
  | _ => rfl

/-- Where the same stands below its location, an operation answers alike and leaves the same there. -/
theorem Inside.alike (hin : op.Inside a R) (hb : Keeps a b) (hb' : Keeps a b')
    (hagree : FileTree.Agree R b b') (h : op.perform.run b = (.ok x, c))
    (h' : op.perform.run b' = (.ok x', c')) : op.Alike a R x x' ∧ FileTree.Agree R c c' := by
  have halike : op.Alike a R x x' := by
    cases op with
    | ask p =>
      obtain ⟨names, haim⟩ := hin
      obtain ⟨rfl, -⟩ := run_ask_eq_ok_iff.1 h
      obtain ⟨rfl, -⟩ := run_ask_eq_ok_iff.1 h'
      refine FileTree.isFile_eq_of_aim haim hb hb' ?_
      rw [FileTree.file?_congr (hagree names)]
    | look =>
      obtain ⟨rfl, -⟩ := run_look_eq_ok_iff.1 h
      obtain ⟨rfl, -⟩ := run_look_eq_ok_iff.1 h'
      exact ⟨hb, hb', hagree⟩
    | raise p => trivial
    | put p text => trivial
    | create p =>
      obtain ⟨names, n, haims⟩ := hin
      have hplace : b.entry? (R ++ names ++ [n]) = b'.entry? (R ++ names ++ [n]) := by
        rw [List.append_assoc]
        exact hagree _
      -- What is created in one tree only stands in the other one already, and so in both.
      rcases run_create_cases h with ⟨rfl, hcreate⟩ | ⟨rfl, hcreate, -⟩ <;>
        rcases run_create_cases h' with ⟨rfl, hcreate'⟩ | ⟨rfl, hcreate', -⟩
      · rfl
      · have hstands := haims.stands_of_create hb'.home hcreate'
        rw [← hplace, (FileTree.entry?_create hb.home haims.2.1 hcreate).1] at hstands
        exact nomatch hstands
      · have hstands := haims.stands_of_create hb.home hcreate
        rw [hplace, (FileTree.entry?_create hb'.home haims.2.1 hcreate').1] at hstands
        exact nomatch hstands
      · rfl
  refine ⟨halike, fun names => ?_⟩
  rw [entry?_perform hin hb h, entry?_perform hin hb' h', made_eq_of_alike halike, hagree names]

theorem Inside.made_cases (hin : op.Inside a R) {k : Location} {e : Entry} (h : op.made a x k = some e) :
    R <+: k ∨ k <+: R ∧ e = .dir ∧ op.made a x R = some .dir := by
  cases op with
  | ask p => exact nomatch h
  | look => exact nomatch h
  | raise p =>
    obtain ⟨names, n, haims⟩ := hin
    rw [made, haims.2.1, Option.bind_some, List.dropLast_concat] at h ⊢
    split at h
    · next hk =>
      rcases List.prefix_or_prefix_of_prefix hk (List.prefix_append R names) with hle | hge
      · exact .inr ⟨hle, (Option.some.inj h).symm, if_pos (List.prefix_append R names)⟩
      · exact .inl hge
    · exact nomatch h
  | put p text =>
    obtain ⟨names, n, haims⟩ := hin
    rw [made, haims.2.1, List.append_assoc] at h
    split at h
    · next hk => exact .inl (Option.some.inj hk ▸ List.prefix_append R _)
    · exact nomatch h
  | create p =>
    obtain ⟨names, n, haims⟩ := hin
    rw [made, haims.2.1, List.append_assoc] at h
    split at h
    · next hk => exact .inl (Option.some.inj hk.2 ▸ List.prefix_append R _)
    · exact nomatch h

/-- What is not below its location an operation leaves as it is, but for directories above the location. -/
theorem Inside.spares (hin : op.Inside a R) (hb : Keeps a b) (h : op.perform.run b = (.ok x, c)) :
    FileTree.Spares R b c := by
  intro k hk
  rw [entry?_perform hin hb h, entry?_perform hin hb h R]
  cases hmade : op.made a x k with
  | none => exact .inl rfl
  | some e =>
    obtain ⟨hle, rfl, hR⟩ := (hin.made_cases hmade).resolve_left hk
    exact .inr ⟨rfl, hle, by rw [hR]; rfl⟩

end Op

namespace Script

variable {α β : Type} {a : FileTree} {R : Location} {P : α → Prop} {Q : β → Prop}

/-- `Confined a R P m`: in a tree that comes from `a`, the script `m` works below the location `R` only, and
its result is in `P`. -/
def Confined (a : FileTree) (R : Location) (P : α → Prop) : Script α → Prop
  | done x => P x
  | fail _ => True
  | step op next => op.Inside a R ∧ (∀ x y, op.Alike a R x y → next x = next y) ∧
      ∀ x, op.Alike a R x x → (next x).Confined a R P

theorem Confined.bind {m : Script α} {f : α → Script β} (hm : m.Confined a R P)
    (hf : ∀ x, P x → (f x).Confined a R Q) : (m >>= f).Confined a R Q := by
  show (m.bind f).Confined a R Q
  induction m with
  | done x => exact hf x hm
  | fail e => trivial
  | step op next ih =>
    obtain ⟨hin, halike, hrest⟩ := hm
    exact ⟨hin, fun x y h => congrArg (Script.bind · f) (halike x y h), fun x h => ih x (hrest x h)⟩

theorem Confined.attempt {m : Script α} (h : m.Confined a R P) :
    m.attempt.Confined a R fun y => ∀ x, y = .ok x → P x := by
  induction m with
  | done x => exact fun y hy => Except.ok.inj hy ▸ h
  | fail e => exact fun _ hx => nomatch hx
  | step op next ih =>
    obtain ⟨hin, halike, hrest⟩ := h
    exact ⟨hin, fun x y hxy => congrArg Script.attempt (halike x y hxy), fun x hx => ih x (hrest x hx)⟩

/-- After its first operation a confined script is confined. -/
theorem Confined.perform {b c : FileTree} {op : Op} {next : op.Answer → Script α} {answer : op.Answer}
    (h : (step op next).Confined a R P) (hb : Keeps a b) (hrun : op.perform.run b = (.ok answer, c)) :
    Keeps b c ∧ (next answer).Confined a R P ∧ FileTree.Spares R b c := by
  obtain ⟨hin, -, hrest⟩ := h
  have halike := (hin.alike hb hb (fun _ => rfl) hrun hrun).1
  exact ⟨Op.keeps_perform hrun, hrest answer halike, hin.spares hb hrun⟩

theorem confined_perform {op : Op} (hin : op.Inside a R) (h : ∀ x y, op.Alike a R x y → x = y) :
    (perform op).Confined a R fun _ => True :=
  ⟨hin, fun x y hxy => congrArg done (h x y hxy), fun _ _ => trivial⟩

theorem confined_lift_bind {x : Except Error α} {f : α → Script β}
    (h : ∀ y, x = .ok y → (f y).Confined a R Q) : (lift x >>= f).Confined a R Q := by
  cases x with
  | ok y => exact h y rfl
  | error e => trivial

theorem confined_look_bind {f : FileTree → Script β}
    (hf : ∀ b c, Keeps a b → Keeps a c → FileTree.Agree R b c → f b = f c)
    (h : ∀ b, Keeps a b → (f b).Confined a R Q) : (perform .look >>= f).Confined a R Q :=
  ⟨trivial, fun _ _ ⟨hb, hc, hagree⟩ => hf _ _ hb hc hagree, fun _ hb => h _ hb.1⟩

theorem confined_mapM {f : β → Script α} {xs : List β}
    (h : ∀ x ∈ xs, (f x).Confined a R fun _ => True) : (xs.mapM f).Confined a R fun _ => True := by
  induction xs with
  | nil => trivial
  | cons x xs ih =>
    rw [List.mapM_cons]
    have hrest := ih fun y hy => h y (List.mem_cons_of_mem x hy)
    exact (h x List.mem_cons_self).bind fun _ _ => hrest.bind fun _ _ => trivial

theorem confined_write {p : Path} {names : List String} {n : String} (h : a.Aims p (R ++ names) n)
    (text : String) : (write p text).Confined a R fun _ => True := by
  have hraise : (perform (.raise p)).Confined a R fun _ => True :=
    confined_perform ⟨names, n, h⟩ fun _ _ _ => rfl
  have hput : (perform (.put p text)).Confined a R fun _ => True :=
    confined_perform ⟨names, n, h⟩ fun _ _ _ => rfl
  exact hraise.bind fun _ _ => hput

theorem confined_ensure {p : Path} {names : List String} {n : String} (h : a.Aims p (R ++ names) n) :
    (ensure p).Confined a R fun _ => True := by
  have hraise : (perform (.raise p)).Confined a R fun _ => True :=
    confined_perform ⟨names, n, h⟩ fun _ _ _ => rfl
  have hcreate : (perform (.create p)).Confined a R fun _ => True :=
    confined_perform ⟨names, n, h⟩ fun _ _ hxy => hxy
  exact hraise.bind fun _ _ => hcreate

end Script
end WrapperGen
