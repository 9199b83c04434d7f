import WebApp.Error
import WebApp.Event

/-!
# Tasks

What the program asks of the one who runs it: to run something in a task of its own, to wait
for it or not, to keep a panic from spreading, to tell the time and where the program is, and to
hold work back in a queue until it is released.
-/

namespace WebApp

universe u

/-- How a task ended. -/
inductive Outcome (α : Type) where
  | finished (value : α)
  | panicked (text : String)
deriving Repr

namespace Outcome

/-- A panic is an error of the one who waits for the task, with the frames captured there. -/
def result {α : Type} (outcome : Outcome (Except Error α)) (trace : List String := []) :
    Except Error α :=
  match outcome with
  | .finished result => result
  | .panicked text => .error (.ofPanic text trace)

end Outcome

/-- A queue of work that is held back. -/
structure Queue where
  number : Nat
deriving DecidableEq, Inhabited, Repr

/-- Programs that can tell the time, in nanoseconds since they began. -/
class Clock (m : Type → Type u) where
  now : m Nat

export Clock (now)

/-- Programs that can deal with tasks. -/
class Tasks (m : Type → Type u) where
  panic {α : Type} : String → m α
  /-- Runs a program in the same task and stops a panic of it.  If the task is given up before
  the program ended, the second program runs instead of the rest. -/
  guarded {α : Type} : m α → m Unit → m (Outcome α)
  /-- Runs a program in a task of its own and waits for it. -/
  await {α : Type} : m α → m (Outcome α)
  /-- Runs a program on a thread of the pool for blocking work and waits for it. -/
  offload {α : Type} : m α → m (Outcome α)
  /-- Runs a program in a task of its own and does not wait. -/
  spawn : m Unit → m Unit
  /-- A new queue, open and empty. -/
  openQueue : m Queue
  /-- Adds work to a queue; tells whether the queue was still open. -/
  enqueue : Queue → m (Except Error Unit) → m Bool
  /-- The amount of work in a queue. -/
  queued : Queue → m Nat
  /-- Closes a queue and runs its work in a task of its own; tells whether there was any. -/
  release : Queue → m Bool
  /-- The frames of the calls that are under way; none unless the environment of the program asks
  for backtraces. -/
  backtrace : m (List String)

section Ends

variable {m : Type → Type u} [Monad m] [Tasks m] {α : Type}

/-- Runs a program in the same task and stops a panic of it. -/
def Tasks.attempt (program : m α) : m (Outcome α) :=
  guarded program (pure ())

/-- What a task has come to for the one who has waited for it.  Frames are captured only where
there is an error to be made. -/
def Outcome.join (outcome : Outcome (Except Error α)) : m (Except Error α) :=
  match outcome with
  | .finished result => return result
  | .panicked text => return .error (.ofPanic text (← Tasks.backtrace))

end Ends

end WebApp
