import WrapperGen.Proofs.Concurrency.Confinement

/-!
# What scripts ensure

Between two operations of a script the tree may change, as far as the others of a run change it. What a script
ensures on these terms holds in whatever order the operations of all of them come.
-/

namespace WrapperGen.Script

open FileTree (Keeps)

variable {α β : Type} {rely : FileTree → FileTree → Prop} {P : α → FileTree → Prop}
  {Q : β → FileTree → Prop} {b c : FileTree}

/-- `m.Ensures rely P b`: from the tree `b` on, which `rely` allows to be changed before each operation, the
result of the script `m` and the tree at its end are in `P` if nothing fails. -/
def Ensures (rely : FileTree → FileTree → Prop) (P : α → FileTree → Prop) : Script α → FileTree → Prop
  | done x, b => P x b
  | fail _, _ => True
  | step op next, b => ∀ c answer d, rely b c → op.perform.run c = (.ok answer, d) →
      (next answer).Ensures rely P d

theorem Ensures.mono {P' : α → FileTree → Prop} {m : Script α} (h : m.Ensures rely P b)
    (hP : ∀ x c, P x c → P' x c) : m.Ensures rely P' b := by
  induction m generalizing b with
  | done x => exact hP x b h
  | fail e => trivial
  | step op next ih => exact fun c answer d hrely hrun => ih answer (h c answer d hrely hrun)

theorem Ensures.bind {m : Script α} {f : α → Script β} (hm : m.Ensures rely P b)
    (hf : ∀ x c, P x c → (f x).Ensures rely Q c) : (m >>= f).Ensures rely Q b := by
  show (m.bind f).Ensures rely Q b
  induction m generalizing b with
  | done x => exact hf x b hm
  | fail e => trivial
  | step op next ih => exact fun c answer d hrely hrun => ih answer (hm c answer d hrely hrun)

/-- What others change before a script begins they might have changed before its first operation. -/
theorem Ensures.later {m : Script α} (h : m.Ensures rely P b)
    (htrans : ∀ {b c d}, rely b c → rely c d → rely b d) (hP : ∀ x b c, P x b → rely b c → P x c)
    (hrely : rely b c) : m.Ensures rely P c := by
  cases m with
  | done x => exact hP x b c h hrely
  | fail e => trivial
  | step op next => exact fun c' answer d hrely' hrun => h c' answer d (htrans hrely hrely') hrun

theorem ensures_lift_bind {x : Except Error α} {f : α → Script β}
    (h : ∀ y, x = .ok y → (f y).Ensures rely Q b) : (lift x >>= f).Ensures rely Q b := by
  cases x with
  | ok y => exact h y rfl
  | error e => trivial

/-- Scripts for a list ensure what each of them adds to what those before it have ensured. -/
theorem ensures_mapM {I : List α → FileTree → Prop} {f : α → Script β} {xs : List α} (first : I [] b)
    (each : ∀ ready x rest, xs = ready ++ x :: rest → ∀ c, I ready c →
      (f x).Ensures rely (fun _ => I (ready ++ [x])) c) :
    (xs.mapM f).Ensures rely (fun _ => I xs) b := by
  have hgo : ∀ rest ready b, xs = ready ++ rest → I ready b →
      (rest.mapM f).Ensures rely (fun _ => I xs) b := by
    intro rest
    induction rest with
    | nil => exact fun ready b hxs hI => (by simpa [hxs] using hI : I xs b)
    | cons x rest ih =>
      intro ready b hxs hI
      rw [List.mapM_cons]
      refine (each ready x rest hxs b hI).bind fun y c hc => ?_
      exact (ih (ready ++ [x]) c (by simp [hxs]) hc).bind fun _ _ => id
  exact hgo xs [] b rfl first

/-- If no one takes anything away, neither does a script. -/
theorem ensures_keeps {a : FileTree} (hrely : ∀ {b c}, rely b c → Keeps b c) (m : Script α)
    (h : Keeps a b) : m.Ensures rely (fun _ => Keeps a) b := by
  induction m generalizing b with
  | done x => exact h
  | fail e => trivial
  | step op next ih =>
    exact fun c answer d hc hrun => ih answer ((h.trans (hrely hc)).trans (Op.keeps_perform hrun))

end WrapperGen.Script
