import WrapperGen.Proofs.FileTree.Aims

/-!
# Scripts

A script is a step on a file tree taken apart into the operations that nothing interrupts, so that other
scripts can perform theirs in between. Performed in one go, a script is the step.
-/

namespace WrapperGen

/-- An operation on a file tree. -/
inductive Op where
  /-- Look whether a file stands at a path. -/
  | ask (p : Path)
  /-- List the tree. -/
  | look
  /-- Make the directories above a file. -/
  | raise (p : Path)
  /-- Write a file in a directory that stands. -/
  | put (p : Path) (text : String)
  /-- Create an empty file where nothing stands. -/
  | create (p : Path)

namespace Op

/-- What an operation answers. -/
abbrev Answer : Op → Type
  | ask _ => Bool
  | look => FileTree
  | raise _ => Unit
  | put _ _ => Unit
  | create _ => Bool

def perform : (op : Op) → Step FileTree op.Answer
  | ask p => return (← get).isFile p
  | look => get
  | raise p => FileTree.ensureParent p
  | put p text => do FileTree.commit p ((← get).write p text.toUTF8)
  | create p => do
    match (← get).create p with
    | .ok t => set t; return true
    | .error .alreadyExists => return false
    | .error f => throw (.io p f)

end Op

/-- Operations one after the other, each of which may depend on the answers before it. -/
inductive Script (α : Type) where
  | done (x : α)
  | fail (e : Error)
  | step (op : Op) (next : op.Answer → Script α)

namespace Script

variable {α β γ : Type}

def bind : Script α → (α → Script β) → Script β
  | done x, f => f x
  | fail e, _ => fail e
  | step op next, f => step op fun answer => (next answer).bind f

instance : Monad Script where
  pure := done
  bind := bind

theorem bind_done (m : Script α) : m.bind done = m := by
  induction m with
  | done x => rfl
  | fail e => rfl
  | step op next ih => exact congrArg (step op) (funext ih)

theorem bind_bind (m : Script α) (f : α → Script β) (g : β → Script γ) :
    (m.bind f).bind g = m.bind fun x => (f x).bind g := by
  induction m with
  | done x => rfl
  | fail e => rfl
  | step op next ih => exact congrArg (step op) (funext ih)

instance : LawfulMonad Script :=
  LawfulMonad.mk' Script bind_done (fun _ _ => rfl) bind_bind

/-- A single operation. -/
def perform (op : Op) : Script op.Answer := step op done

/-- A computation without effects. -/
def lift : Except Error α → Script α
  | .ok x => done x
  | .error e => fail e

/-- A script that gives its failure as a result. -/
def attempt : Script α → Script (Except Error α)
  | done x => done (.ok x)
  | fail e => done (.error e)
  | step op next => step op fun answer => (next answer).attempt

/-- Write a file with all directories above it. -/
def write (p : Path) (text : String) : Script Unit := do
  perform (.raise p)
  perform (.put p text)

/-- Create an empty file where none stands; answers whether it was created. -/
def ensure (p : Path) : Script Bool := do
  perform (.raise p)
  perform (.create p)

/-- All operations of a script in one go. -/
def run : Script α → Step FileTree α
  | done x => pure x
  | fail e => throw e
  | step op next => op.perform >>= fun answer => (next answer).run

theorem run_bind (m : Script α) (f : α → Script β) : (m >>= f).run = m.run >>= fun x => (f x).run := by
  show (m.bind f).run = _
  induction m with
  | done x => rfl
  | fail e => rfl
  | step op next ih =>
    show (op.perform >>= fun answer => ((next answer).bind f).run) =
      (op.perform >>= fun answer => (next answer).run) >>= fun x => (f x).run
    rw [bind_assoc]
    exact bind_congr ih

theorem run_perform (op : Op) : (perform op).run = op.perform := bind_pure op.perform

theorem run_lift (x : Except Error α) : (lift x).run = liftM x := by
  cases x <;> rfl

theorem run_mapM (f : β → Script α) (xs : List β) :
    (xs.mapM f).run = xs.mapM fun x => (f x).run := by
  induction xs with
  | nil => rfl
  | cons x xs ih =>
    rw [List.mapM_cons, List.mapM_cons, run_bind]
    refine bind_congr fun y => ?_
    rw [run_bind, ih]
    rfl

theorem run_write (p : Path) (text : String) : (write p text).run = Host.write p text := by
  rw [write, run_bind, run_perform, run_perform]
  rfl

theorem run_ensure (p : Path) : (ensure p).run = Host.ensure p := by
  rw [ensure, run_bind, run_perform, run_perform]
  rfl

end Script
end WrapperGen
