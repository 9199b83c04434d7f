import WebApp.Task.Basic

/-!
# Routines

A routine is a program as data: it is done, it panics, or it asks for one thing and goes on
with the answer.  Whoever runs it decides when it goes on.
-/

namespace WebApp

/-- What routines read and write: the application's own state, and the reports, the newest
first.  The frames are what a backtrace taken now would show; no routine writes them. -/
structure Journal (σ : Type) where
  state : σ
  events : List Event := []
  frames : List String := []
deriving Inhabited

/-- Something that takes no time: it may read the clock, and read and write the journal. -/
abbrev Act (σ : Type) : Type → Type :=
  ReaderT Nat (StateM (Journal σ))

namespace Act

variable {σ : Type}

instance : Clock (Act σ) := ⟨read⟩

instance : Reports (Act σ) :=
  ⟨fun event => modify fun journal => { journal with events := event :: journal.events }⟩

/-- The application's own state. -/
def state : Act σ σ := do
  return (← getThe (Journal σ)).state

/-- The frames of the calls that are under way. -/
def backtrace : Act σ (List String) := do
  return (← getThe (Journal σ)).frames

/-- Changes the application's own state. -/
def update {α : Type} (change : σ → α × σ) : Act σ α :=
  modifyGet fun journal =>
    let (value, state) := change journal.state
    (value, { journal with state := state })

end Act

/-- Where a new task waits for its turn. -/
inductive Place where
  /-- Behind the tasks that are ready. -/
  | queue
  /-- With the workers, which run when no task is ready. -/
  | worker
deriving DecidableEq, Repr

/-- A program that runs in steps and ends with a value or a panic. -/
inductive Routine (σ : Type) : Type → Type 1 where
  | done {α : Type} (value : α) : Routine σ α
  | panic {α : Type} (text : String) : Routine σ α
  | act {α β : Type} (step : Act σ β) (next : β → Routine σ α) : Routine σ α
  /-- Waits so many milliseconds. -/
  | sleep {α : Type} (duration : Nat) (next : Unit → Routine σ α) : Routine σ α
  | spawn {α : Type} (task : Routine σ Unit) (next : Unit → Routine σ α) : Routine σ α
  | await {α β : Type} (place : Place) (task : Routine σ β)
      (next : Outcome β → Routine σ α) : Routine σ α
  | guarded {α β : Type} (inner : Routine σ β) (dropped : Routine σ Unit)
      (next : Outcome β → Routine σ α) : Routine σ α
  | openQueue {α : Type} (next : Queue → Routine σ α) : Routine σ α
  | enqueue {α : Type} (queue : Queue) (work : Routine σ (Except Error Unit))
      (next : Bool → Routine σ α) : Routine σ α
  | queued {α : Type} (queue : Queue) (next : Nat → Routine σ α) : Routine σ α
  | release {α : Type} (queue : Queue) (next : Bool → Routine σ α) : Routine σ α

namespace Routine

variable {σ : Type}

/-- One routine, and then another that depends on the value of the first. -/
def bind {α γ : Type} : Routine σ α → (α → Routine σ γ) → Routine σ γ
  | .done value, f => f value
  | .panic text, _ => .panic text
  | .act step next, f => .act step fun b => (next b).bind f
  | .sleep duration next, f => .sleep duration fun b => (next b).bind f
  | .spawn task next, f => .spawn task fun b => (next b).bind f
  | .await place task next, f => .await place task fun b => (next b).bind f
  | .guarded inner dropped next, f => .guarded inner dropped fun b => (next b).bind f
  | .openQueue next, f => .openQueue fun b => (next b).bind f
  | .enqueue queue work next, f => .enqueue queue work fun b => (next b).bind f
  | .queued queue next, f => .queued queue fun b => (next b).bind f
  | .release queue next, f => .release queue fun b => (next b).bind f

instance : Monad (Routine σ) where
  pure := .done
  bind := .bind

instance : MonadLift (Act σ) (Routine σ) :=
  ⟨fun step => .act step .done⟩

instance : Reports (Routine σ) :=
  ⟨fun event => .act (report event) .done⟩

instance : Clock (Routine σ) :=
  ⟨.act now .done⟩

instance : Tasks (Routine σ) where
  panic := .panic
  guarded inner dropped := .guarded inner dropped .done
  await task := .await .queue task .done
  offload task := .await .worker task .done
  spawn task := .spawn task .done
  openQueue := .openQueue .done
  enqueue queue work := .enqueue queue work .done
  queued queue := .queued queue .done
  release queue := .release queue .done
  backtrace := .act Act.backtrace .done

def wait (duration : Nat) : Routine σ Unit :=
  .sleep duration .done

/-- Lets a worker run a routine, and waits for it. -/
def offload {α : Type} (task : Routine σ α) : Routine σ (Outcome α) :=
  Tasks.offload task

@[simp] theorem bind_done {α : Type} (r : Routine σ α) : r.bind .done = r := by
  induction r with
  | done value => rfl
  | panic text => rfl
  | act step next ih => exact congrArg (Routine.act step) (funext ih)
  | sleep duration next ih => exact congrArg (Routine.sleep duration) (funext ih)
  | spawn task next _ ih => exact congrArg (Routine.spawn task) (funext ih)
  | await place task next _ ih => exact congrArg (Routine.await place task) (funext ih)
  | guarded inner dropped next _ _ ih =>
    exact congrArg (Routine.guarded inner dropped) (funext ih)
  | openQueue next ih => exact congrArg Routine.openQueue (funext ih)
  | enqueue queue work next _ ih => exact congrArg (Routine.enqueue queue work) (funext ih)
  | queued queue next ih => exact congrArg (Routine.queued queue) (funext ih)
  | release queue next ih => exact congrArg (Routine.release queue) (funext ih)

theorem bind_assoc {α β γ : Type} (r : Routine σ α) (f : α → Routine σ β)
    (g : β → Routine σ γ) : (r.bind f).bind g = r.bind fun a => (f a).bind g := by
  induction r with
  | done value => rfl
  | panic text => rfl
  | act step next ih => exact congrArg (Routine.act step) (funext fun b => ih b f)
  | sleep duration next ih => exact congrArg (Routine.sleep duration) (funext fun b => ih b f)
  | spawn task next _ ih => exact congrArg (Routine.spawn task) (funext fun b => ih b f)
  | await place task next _ ih =>
    exact congrArg (Routine.await place task) (funext fun b => ih b f)
  | guarded inner dropped next _ _ ih =>
    exact congrArg (Routine.guarded inner dropped) (funext fun b => ih b f)
  | openQueue next ih => exact congrArg Routine.openQueue (funext fun b => ih b f)
  | enqueue queue work next _ ih =>
    exact congrArg (Routine.enqueue queue work) (funext fun b => ih b f)
  | queued queue next ih => exact congrArg (Routine.queued queue) (funext fun b => ih b f)
  | release queue next ih => exact congrArg (Routine.release queue) (funext fun b => ih b f)

instance : LawfulMonad (Routine σ) := LawfulMonad.mk' _
  (fun r => bind_done r) (fun _ _ => rfl) (fun r f g => bind_assoc r f g)

end Routine

end WebApp
